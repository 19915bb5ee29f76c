import Mathlib.Data.List.Pairwise
import Mathlib.Logic.Relation

/-! Tables whose rows say that one thing extends another, read in one pass from the top. -/

namespace Openisa.Library.ExtensionTable

open Relation

variable {α : Type*}

def Row (table : List (α × α)) (a b : α) : Prop := (a, b) ∈ table

def Topological (table : List (α × α)) : Prop :=
  table.Pairwise (fun upper lower => upper.1 ≠ lower.1 ∧ upper.1 ≠ lower.2) ∧ ∀ row ∈ table, row.1 ≠ row.2

instance [DecidableEq α] (table : List (α × α)) : Decidable (Topological table) :=
  inferInstanceAs (Decidable (_ ∧ _))

theorem Topological.tail {row : α × α} {table : List (α × α)} (ordered : Topological (row :: table)) :
    Topological table :=
  ⟨(List.pairwise_cons.mp ordered.1).2, fun r member => ordered.2 r (List.mem_cons_of_mem _ member)⟩

theorem Topological.top_not_base {row : α × α} {table : List (α × α)} (ordered : Topological (row :: table))
    {a b : α} (step : Row (row :: table) a b) : b ≠ row.1 := by
  rcases List.mem_cons.mp step with top | below
  · rw [← top]
    exact Ne.symm (ordered.2 (a, b) step)
  · exact Ne.symm ((List.pairwise_cons.mp ordered.1).1 _ below).2

theorem Topological.below_top {row : α × α} {table : List (α × α)} (ordered : Topological (row :: table))
    {a b : α} (elsewhere : a ≠ row.1) :
    TransGen (Row (row :: table)) a b ↔ TransGen (Row table) a b := by
  constructor
  · intro path
    induction path with
    | single step =>
      refine TransGen.single ?_
      rcases List.mem_cons.mp step with top | below
      · exact absurd (congrArg Prod.fst top) elsewhere
      · exact below
    | @tail b c earlier step ih =>
      refine TransGen.tail ih ?_
      rcases List.mem_cons.mp step with top | below
      · have here : b = row.1 := congrArg Prod.fst top
        obtain ⟨before, -, last⟩ := TransGen.tail'_iff.mp earlier
        exact absurd here (ordered.top_not_base last)
      · exact below
  · have wider : Row table ≤ Row (row :: table) := fun _ _ below => List.mem_cons_of_mem row below
    exact TransGen.mono wider a b

theorem Topological.from_top {row : α × α} {table : List (α × α)} (ordered : Topological (row :: table))
    {b : α} : TransGen (Row (row :: table)) row.1 b ↔ row.2 = b ∨ TransGen (Row table) row.2 b := by
  have next : Row (row :: table) row.1 row.2 := List.mem_cons_self
  have unique : ∀ {c}, Row (row :: table) row.1 c → c = row.2 := by
    intro c step
    rcases List.mem_cons.mp step with top | below
    · exact congrArg Prod.snd top
    · exact absurd rfl ((List.pairwise_cons.mp ordered.1).1 _ below).1
  constructor
  · intro path
    obtain ⟨c, step, rest⟩ := TransGen.head'_iff.mp path
    rw [unique step] at rest
    rcases reflTransGen_iff_eq_or_transGen.mp rest with same | further
    · exact Or.inl same.symm
    · exact Or.inr ((ordered.below_top (Ne.symm (ordered.2 row List.mem_cons_self))).mp further)
  · rintro (same | further)
    · exact same ▸ TransGen.single next
    · exact TransGen.head next ((ordered.below_top (Ne.symm (ordered.2 row List.mem_cons_self))).mpr further)

theorem antisymm_of_rank {step : α → α → Prop} (rank : α → Nat) (up : ∀ a b, step a b → rank a < rank b) {a b : α}
    (there : ReflTransGen step a b) (back : ReflTransGen step b a) : a = b := by
  rcases reflTransGen_iff_eq_or_transGen.mp there with same | forth
  · exact same.symm
  · have around : TransGen step a a := forth.trans_left back
    have higher : TransGen (· < ·) (rank a) (rank a) := around.lift rank up
    rw [transGen_eq_self] at higher
    exact absurd higher (Nat.lt_irrefl _)

variable [DecidableEq α]

/-- One pass over the table: at the row of the current thing go on with what it extends, and stop where
this is `base`. -/
def climbs (base : α) : List (α × α) → α → Bool
  | [], _ => false
  | row :: table, current =>
      if current = row.1 then
        if row.2 = base then true else climbs base table row.2
      else climbs base table current

theorem climbs_iff {table : List (α × α)} (ordered : Topological table) (base current : α) :
    climbs base table current = true ↔ TransGen (Row table) current base := by
  induction table generalizing current with
  | nil =>
    refine ⟨fun found => absurd found (by simp [climbs]), fun path => ?_⟩
    obtain ⟨_, step, _⟩ := TransGen.head'_iff.mp path
    exact absurd step List.not_mem_nil
  | cons row table ih =>
    rw [climbs]
    by_cases here : current = row.1
    · rw [if_pos here, here, ordered.from_top]
      by_cases found : row.2 = base
      · simp [found]
      · rw [if_neg found, ih ordered.tail]
        exact ⟨Or.inr, fun either => either.resolve_left found⟩
    · rw [if_neg here, ih ordered.tail, ordered.below_top here]

end Openisa.Library.ExtensionTable
