import Mathlib.Logic.Function.Iterate
import Mathlib.Data.List.Count

/-! Walks over a list of entries of a table, in which an entry may occur more than once. -/

namespace Openisa.Library.RepeatedUpdate

universe u v

variable {ι : Type u} {V : Type v} [DecidableEq ι]

def updateAll (f : V → V) (ids : List ι) (table : ι → V) : ι → V :=
  ids.foldl (fun table id => Function.update table id (f (table id))) table

theorem update_all_apply (f : V → V) (ids : List ι) (table : ι → V) (id : ι) :
    updateAll f ids table id = f^[ids.count id] (table id) := by
  induction ids generalizing table with
  | nil => rfl
  | cons head rest ih =>
    have step : updateAll f (head :: rest) table id =
        f^[rest.count id] (Function.update table head (f (table head)) id) := ih _
    rw [step]
    by_cases same : head = id
    · subst same
      rw [Function.update_self, List.count_cons_self, Function.iterate_succ_apply]
    · rw [Function.update_of_ne (Ne.symm same), List.count_cons_of_ne same]

/-- How many of `n` steps are taken, where each asks for the test to hold. -/
def timesTaken (p : V → Bool) (g : V → V) : Nat → V → Nat
  | 0, _ => 0
  | n + 1, x => if p x then timesTaken p g n (g x) + 1 else 0

theorem iterate_guarded (p : V → Bool) (g : V → V) (n : Nat) (x : V) :
    (fun y => if p y then g y else y)^[n] x = g^[timesTaken p g n x] x := by
  induction n generalizing x with
  | zero => rfl
  | succ n ih =>
    rw [Function.iterate_succ_apply, timesTaken]
    by_cases test : p x = true
    · rw [if_pos test, if_pos test, ih, Function.iterate_succ_apply]
    · rw [if_neg test, if_neg test]
      exact Function.iterate_fixed (f := fun y => if p y then g y else y) (if_neg test) n

end Openisa.Library.RepeatedUpdate
