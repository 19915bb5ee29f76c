import Mathlib.Algebra.Order.BigOperators.Group.List
import Mathlib.Algebra.Order.Ring.Nat
import Mathlib.Data.List.Nodup

/-! Items that each cost something at their first use and nothing later. -/

namespace Openisa.Library.FirstUse

variable {σ κ ι : Type*}

/-- A call on one of the items spends what that item has left, and nothing of any other. -/
structure Spends (items : List ι) (Holds : σ → Prop) (call : σ → κ → σ) (item : κ → ι) (spent : σ → Nat)
    (left : σ → ι → Nat) : Prop where
  kept : ∀ s k, Holds s → item k ∈ items → Holds (call s k)
  spent : ∀ s k, Holds s → item k ∈ items → spent (call s k) = spent s + left s (item k)
  emptied : ∀ s k, Holds s → item k ∈ items → left (call s k) (item k) = 0
  others : ∀ s k i, Holds s → item k ∈ items → i ≠ item k → left (call s k) i = left s i

def allLeft (left : σ → ι → Nat) (items : List ι) (s : σ) : Nat := (items.map (left s)).sum

theorem allLeft_append (left : σ → ι → Nat) (front back : List ι) (s : σ) :
    allLeft left (front ++ back) s = allLeft left front s + allLeft left back s := by
  simp [allLeft]

theorem allLeft_cons (left : σ → ι → Nat) (i : ι) (rest : List ι) (s : σ) :
    allLeft left (i :: rest) s = left s i + allLeft left rest s := by
  simp [allLeft]

theorem allLeft_flatMap {γ : Type*} (left : σ → ι → Nat) (part : γ → List ι) (parts : List γ) (s : σ) :
    allLeft left (parts.flatMap part) s = (parts.map fun p => allLeft left (part p) s).sum := by
  induction parts with
  | nil => rfl
  | cons p rest ih => rw [List.flatMap_cons, allLeft_append, ih, List.map_cons, List.sum_cons]

variable {Holds : σ → Prop} {call : σ → κ → σ} {item : κ → ι} {spent : σ → Nat} {left : σ → ι → Nat}
variable {items : List ι} {s : σ}

theorem Spends.unused (spends : Spends items Holds call item spent left) (holds : Holds s) {k : κ} {part : List ι}
    (known : item k ∈ items) (apart : item k ∉ part) : allLeft left part (call s k) = allLeft left part s := by
  have same : part.map (left (call s k)) = part.map (left s) := by
    apply List.map_congr_left
    intro i member
    exact spends.others s k i holds known fun own => apart (own ▸ member)
  rw [allLeft, same]
  rfl

theorem Spends.step (spends : Spends items Holds call item spent left) (holds : Holds s) (nodup : items.Nodup)
    {k : κ} (known : item k ∈ items) :
    spent (call s k) + allLeft left items (call s k) = spent s + allLeft left items s := by
  rcases List.mem_iff_append.mp known with ⟨front, back, split⟩
  rw [split] at nodup
  have apart := (List.nodup_cons.mp (List.nodup_middle.mp nodup)).1
  have newFront : item k ∉ front := fun member => apart (List.mem_append_left _ member)
  have newBack : item k ∉ back := fun member => apart (List.mem_append_right _ member)
  have sums : ∀ t, allLeft left items t = allLeft left front t + (left t (item k) + allLeft left back t) := by
    intro t
    rw [split, allLeft_append, allLeft_cons]
  rw [sums, sums, spends.spent s k holds known, spends.emptied s k holds known, spends.unused holds known newFront,
    spends.unused holds known newBack]
  omega

theorem Spends.run (spends : Spends items Holds call item spent left) (nodup : items.Nodup) (calls : List κ)
    (holds : Holds s) (known : ∀ k ∈ calls, item k ∈ items) :
    spent (calls.foldl call s) + allLeft left items (calls.foldl call s) = spent s + allLeft left items s := by
  induction calls generalizing s with
  | nil => rfl
  | cons k rest ih =>
      have own := known k List.mem_cons_self
      calc
        spent (rest.foldl call (call s k)) + allLeft left items (rest.foldl call (call s k))
            = spent (call s k) + allLeft left items (call s k) :=
              ih (spends.kept s k holds own) fun k' member => known k' (List.mem_cons_of_mem _ member)
        _ = spent s + allLeft left items s := spends.step holds nodup own

theorem Spends.run_emptied (spends : Spends items Holds call item spent left) (calls : List κ) (holds : Holds s)
    (known : ∀ k ∈ calls, item k ∈ items) {i : ι} (used : left s i = 0 ∨ ∃ k ∈ calls, item k = i) :
    left (calls.foldl call s) i = 0 := by
  induction calls generalizing s with
  | nil =>
      rcases used with empty | ⟨k, member, _⟩
      · exact empty
      · exact absurd member List.not_mem_nil
  | cons k rest ih =>
      have inItems := known k List.mem_cons_self
      apply ih (spends.kept s k holds inItems) fun k' member => known k' (List.mem_cons_of_mem _ member)
      by_cases own : i = item k
      · left
        rw [own]
        exact spends.emptied s k holds inItems
      · rcases used with empty | ⟨k', member, isItem⟩
        · left
          rw [spends.others s k i holds inItems own]
          exact empty
        · right
          rcases List.mem_cons.mp member with rfl | later
          · exact absurd isItem.symm own
          · exact ⟨k', later, isItem⟩

theorem Spends.run_all (spends : Spends items Holds call item spent left) (nodup : items.Nodup) (holds : Holds s)
    {calls : List κ} (known : ∀ k ∈ calls, item k ∈ items) (all : ∀ i ∈ items, ∃ k ∈ calls, item k = i) :
    spent (calls.foldl call s) = spent s + allLeft left items s := by
  have empty : allLeft left items (calls.foldl call s) = 0 := by
    apply List.sum_eq_zero
    intro n member
    rcases List.mem_map.mp member with ⟨i, isItem, rfl⟩
    exact spends.run_emptied calls holds known (Or.inr (all i isItem))
  rw [← spends.run nodup calls holds known, empty, Nat.add_zero]

theorem Spends.fits_iff (spends : Spends items Holds call item spent left) (nodup : items.Nodup) (holds : Holds s)
    (use : ι → κ) (uses : ∀ i, item (use i) = i) (room : Nat) :
    (∀ calls : List κ, (∀ k ∈ calls, item k ∈ items) → spent (calls.foldl call s) ≤ spent s + room) ↔
      allLeft left items s ≤ room := by
  constructor
  · intro fits
    have known : ∀ k ∈ items.map use, item k ∈ items := by
      intro k member
      rcases List.mem_map.mp member with ⟨i, isItem, rfl⟩
      rw [uses]
      exact isItem
    have within := fits (items.map use) known
    rw [spends.run_all nodup holds known fun i isItem => ⟨use i, List.mem_map_of_mem isItem, uses i⟩] at within
    omega
  · intro enough calls known
    have conserved := spends.run nodup calls holds known
    omega

end Openisa.Library.FirstUse
