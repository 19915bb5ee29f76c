import Mathlib.Data.List.Nodup
import Mathlib.Logic.Function.Basic

/-! Owners numbered from zero in the order in which they came. -/

namespace Openisa.Library

variable {η : Type*}

def Numbered (number : η → Option Nat) (owners : List η) : Prop :=
  ∀ h n, number h = some n ↔ owners[n]? = some h

namespace Numbered

variable {number : η → Option Nat} {owners : List η} {g h : η} {n : Nat}

theorem nil {number : η → Option Nat} (none : ∀ h, number h = none) : Numbered number [] := by
  intro h n
  rw [none h]
  simp

theorem lt (numbered : Numbered number owners) (given : number h = some n) : n < owners.length :=
  (List.getElem?_eq_some_iff.mp ((numbered h n).mp given)).1

theorem injective (numbered : Numbered number owners) (first : number g = some n) (second : number h = some n) :
    g = h :=
  Option.some.inj (((numbered g n).mp first).symm.trans ((numbered h n).mp second))

theorem surjective (numbered : Numbered number owners) (below : n < owners.length) : ∃ h, number h = some n :=
  ⟨owners[n], (numbered _ n).mpr (List.getElem?_eq_getElem below)⟩

theorem mem_iff (numbered : Numbered number owners) : h ∈ owners ↔ (number h).isSome = true := by
  rw [List.mem_iff_getElem?, Option.isSome_iff_exists]
  exact exists_congr fun n => (numbered h n).symm

theorem append [DecidableEq η] (numbered : Numbered number owners) (new : number h = none) :
    Numbered (Function.update number h (some owners.length)) (owners ++ [h]) := by
  intro g n
  by_cases own : g = h
  · subst own
    rw [Function.update_self, List.getElem?_append]
    constructor
    · intro given
      have last : owners.length = n := Option.some.inj given
      rw [← last, if_neg (Nat.lt_irrefl _)]
      simp
    · intro place
      split at place
      · rw [← numbered g n, new] at place
        cases place
      · rw [List.getElem?_singleton] at place
        split at place
        · congr 1
          omega
        · cases place
  · rw [Function.update_of_ne own, numbered g n, List.getElem?_append]
    split
    · rfl
    · next beyond =>
      rw [List.getElem?_eq_none (by omega), List.getElem?_singleton]
      split
      · simp [Ne.symm own]
      · simp

end Numbered

end Openisa.Library
