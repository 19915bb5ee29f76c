import Mathlib.Algebra.Order.BigOperators.Group.List
import Mathlib.Algebra.Order.Ring.Nat
import Mathlib.Data.List.Pairwise

/-! Items laid out one behind the other, each with the units that it needs. -/

namespace Openisa.Library.BumpLayout

variable {α : Type*}

def units (need : α → Nat) (items : List α) : Nat := (items.map need).sum

def offsets (need : α → Nat) (start : Nat) : List α → List (α × Nat)
  | [] => []
  | x :: rest => (x, start) :: offsets need (start + need x) rest

variable (need : α → Nat)

@[simp] theorem units_nil : units need [] = 0 := rfl

@[simp] theorem units_cons (x : α) (rest : List α) : units need (x :: rest) = need x + units need rest := rfl

theorem units_append (first second : List α) :
    units need (first ++ second) = units need first + units need second := by
  rw [units, List.map_append, List.sum_append]
  rfl

theorem units_perm {first second : List α} (perm : first.Perm second) : units need first = units need second :=
  (perm.map need).sum_eq

theorem offsets_append (start : Nat) (first second : List α) :
    offsets need start (first ++ second) =
      offsets need start first ++ offsets need (start + units need first) second := by
  induction first generalizing start with
  | nil => rfl
  | cons x rest ih =>
      rw [List.cons_append, offsets, offsets, ih, List.cons_append, units_cons, Nat.add_assoc]

theorem offsets_fst (start : Nat) (items : List α) : (offsets need start items).map Prod.fst = items := by
  induction items generalizing start with
  | nil => rfl
  | cons x rest ih => rw [offsets, List.map_cons, ih]

variable {need} {start : Nat} {items : List α}

theorem mem_of_offsets {p : α × Nat} (member : p ∈ offsets need start items) : p.1 ∈ items := by
  rw [← offsets_fst need start items]
  exact List.mem_map_of_mem member

theorem exists_offset (need : α → Nat) (start : Nat) {x : α} (member : x ∈ items) :
    ∃ offset, (x, offset) ∈ offsets need start items := by
  rw [← offsets_fst need start items] at member
  rcases List.mem_map.mp member with ⟨p, isItem, rfl⟩
  exact ⟨p.2, isItem⟩

theorem offsets_within {p : α × Nat} (member : p ∈ offsets need start items) :
    start ≤ p.2 ∧ p.2 + need p.1 ≤ start + units need items := by
  induction items generalizing start with
  | nil => exact absurd member List.not_mem_nil
  | cons x rest ih =>
      rcases List.mem_cons.mp member with rfl | later
      · rw [units_cons]
        exact ⟨le_refl _, by dsimp only; omega⟩
      · have inside := ih later
        rw [units_cons]
        omega

theorem offsets_pairwise (need : α → Nat) (start : Nat) (items : List α) :
    (offsets need start items).Pairwise fun p q => p.2 + need p.1 ≤ q.2 := by
  induction items generalizing start with
  | nil => exact List.Pairwise.nil
  | cons x rest ih =>
      apply List.pairwise_cons.mpr
      refine ⟨?_, ih _⟩
      intro q later
      exact (offsets_within later).1

/-- Ranges of units, each beginning where the one before ends. -/
def Consecutive (start : Nat) : List (Nat × Nat) → Nat → Prop
  | [], stop => start = stop
  | r :: rest, stop => r.1 = start ∧ start ≤ r.2 ∧ Consecutive r.2 rest stop

theorem Consecutive.append {first second : List (Nat × Nat)} {start middle stop : Nat}
    (before : Consecutive start first middle) (after : Consecutive middle second stop) :
    Consecutive start (first ++ second) stop := by
  induction first generalizing start with
  | nil =>
      have same : start = middle := before
      rw [same]
      exact after
  | cons r rest ih => exact ⟨before.1, before.2.1, ih before.2.2⟩

theorem Consecutive.le {ranges : List (Nat × Nat)} {start stop : Nat} (chain : Consecutive start ranges stop) :
    start ≤ stop := by
  induction ranges generalizing start with
  | nil => exact le_of_eq chain
  | cons r rest ih => exact chain.2.1.trans (ih chain.2.2)

theorem Consecutive.mem_le {ranges : List (Nat × Nat)} {start stop : Nat} (chain : Consecutive start ranges stop)
    {r : Nat × Nat} (member : r ∈ ranges) : start ≤ r.1 ∧ r.2 ≤ stop := by
  induction ranges generalizing start with
  | nil => exact absurd member List.not_mem_nil
  | cons r' rest ih =>
      rcases List.mem_cons.mp member with rfl | later
      · exact ⟨le_of_eq chain.1.symm, chain.2.2.le⟩
      · have inside := ih chain.2.2 later
        exact ⟨chain.2.1.trans inside.1, inside.2⟩

theorem Consecutive.pairwise {ranges : List (Nat × Nat)} {start stop : Nat} (chain : Consecutive start ranges stop) :
    ranges.Pairwise fun r r' => r.2 ≤ r'.1 := by
  induction ranges generalizing start with
  | nil => exact List.Pairwise.nil
  | cons r rest ih =>
      apply List.pairwise_cons.mpr
      refine ⟨?_, ih chain.2.2⟩
      intro r' later
      exact (chain.2.2.mem_le later).1

theorem Consecutive.cover {ranges : List (Nat × Nat)} {start stop : Nat} (chain : Consecutive start ranges stop)
    (unit : Nat) : (start ≤ unit ∧ unit < stop) ↔ ∃ r ∈ ranges, r.1 ≤ unit ∧ unit < r.2 := by
  induction ranges generalizing start with
  | nil =>
      have same : start = stop := chain
      constructor
      · intro inside
        omega
      · intro found
        rcases found with ⟨r, member, _⟩
        exact absurd member List.not_mem_nil
  | cons r rest ih =>
      rcases chain with ⟨begins, proper, after⟩
      constructor
      · intro inside
        by_cases own : unit < r.2
        · exact ⟨r, List.mem_cons_self, by omega, own⟩
        · rcases (ih after).mp ⟨by omega, inside.2⟩ with ⟨r', later, range⟩
          exact ⟨r', List.mem_cons_of_mem _ later, range⟩
      · intro found
        rcases found with ⟨r', member, low, high⟩
        have chain : Consecutive start (r :: rest) stop := ⟨begins, proper, after⟩
        have inside := chain.mem_le member
        omega

theorem Consecutive.of_offsets {ranges : α → List (Nat × Nat)}
    (own : ∀ p ∈ offsets need start items, Consecutive p.2 (ranges p.1) (p.2 + need p.1)) :
    Consecutive start (items.flatMap ranges) (start + units need items) := by
  induction items generalizing start with
  | nil => exact rfl
  | cons x rest ih =>
      rw [List.flatMap_cons, units_cons, ← Nat.add_assoc]
      exact (own (x, start) List.mem_cons_self).append
        (ih fun p later => own p (List.mem_cons_of_mem _ later))

/-- A walk that changes the records it meets, with a state of its own. -/
def visitAll {σ : Type*} (step : σ → α → σ × α) (s : σ) : List α → σ × List α
  | [] => (s, [])
  | x :: rest =>
      let (s, x) := step s x
      let (s, rest) := visitAll step s rest
      (s, x :: rest)

theorem visitAll_cons {σ : Type*} (step : σ → α → σ × α) (s : σ) (x : α) (rest : List α) :
    visitAll step s (x :: rest) =
      ((visitAll step (step s x).1 rest).1, (step s x).2 :: (visitAll step (step s x).1 rest).2) := rfl

theorem visitAll_kept {σ κ : Type*} (step : σ → α → σ × α) (key : α → κ) (kept : ∀ s x, key (step s x).2 = key x)
    (s : σ) (items : List α) : (visitAll step s items).2.map key = items.map key := by
  induction items generalizing s with
  | nil => rfl
  | cons x rest ih => rw [visitAll_cons, List.map_cons, List.map_cons, kept, ih]

theorem visitAll_holds {σ : Type*} (step : σ → α → σ × α) (Holds : σ → Prop)
    (kept : ∀ s x, Holds s → Holds (step s x).1) {s : σ} (begins : Holds s) (items : List α) :
    Holds (visitAll step s items).1 := by
  induction items generalizing s with
  | nil => exact begins
  | cons x rest ih =>
      rw [visitAll_cons]
      exact ih (kept s x begins)

theorem visitAll_sum {σ M : Type*} [AddCommMonoid M] (step : σ → α → σ × α) (amount : σ → M) (share : α → M)
    (adds : ∀ s x, amount (step s x).1 = amount s + share x) (s : σ) (items : List α) :
    amount (visitAll step s items).1 = amount s + (items.map share).sum := by
  induction items generalizing s with
  | nil => exact (add_zero _).symm
  | cons x rest ih => rw [visitAll_cons, ih, adds, List.map_cons, List.sum_cons, add_assoc]

theorem visitAll_eq {σ : Type*} (step : σ → α → σ × α) (need : α → Nat) (place : α → Nat → α)
    (At : Nat → List α → σ → Prop)
    (next : ∀ {start x rest s}, At start (x :: rest) s →
      (step s x).2 = place x start ∧ At (start + need x) rest (step s x).1)
    {start : Nat} {items : List α} {s : σ} (begins : At start items s) :
    (visitAll step s items).2 = (offsets need start items).map (fun p => place p.1 p.2) ∧
      At (start + units need items) [] (visitAll step s items).1 := by
  induction items generalizing start s with
  | nil => exact ⟨rfl, begins⟩
  | cons x rest ih =>
      rcases next begins with ⟨placed, after⟩
      rcases ih after with ⟨later, ends⟩
      rw [visitAll_cons, offsets, List.map_cons, placed, later, units_cons, ← Nat.add_assoc]
      exact ⟨rfl, ends⟩

end Openisa.Library.BumpLayout
