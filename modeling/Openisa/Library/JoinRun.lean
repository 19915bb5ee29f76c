import Mathlib.Order.Bounds.Basic

/-! Runs that take in one item after another, where a step may also be refused. -/

namespace Openisa.Library

variable {ι σ α : Type*}

inductive Run (step : ι → σ → σ → Prop) : List ι → σ → σ → Prop
  | nil (s : σ) : Run step [] s s
  | cons {i : ι} {items : List ι} {s t u : σ} : step i s t → Run step items t u → Run step (i :: items) s u

namespace Run

theorem of_foldl (f : σ → ι → σ) (items : List ι) (s : σ) :
    Run (fun i s t => t = f s i) items s (items.foldl f s) := by
  induction items generalizing s with
  | nil => exact nil s
  | cons i items ih => exact cons rfl (ih (f s i))

theorem of_foldlM {ε : Type*} {f : σ → ι → Except ε σ} {items : List ι} {s u : σ}
    (ran : items.foldlM f s = .ok u) : Run (fun i s t => f s i = .ok t) items s u := by
  induction items generalizing s with
  | nil =>
    cases ran
    exact nil _
  | cons i items ih =>
    rw [List.foldlM_cons] at ran
    cases first : f s i with
    | error e =>
      rw [first] at ran
      cases ran
    | ok t =>
      rw [first] at ran
      exact cons first (ih ran)

variable {step : ι → σ → σ → Prop} {items : List ι} {s u : σ}

theorem invariant {Holds : σ → Prop} (run : Run step items s u)
    (keeps : ∀ i ∈ items, ∀ s t, step i s t → Holds s → Holds t) (start : Holds s) : Holds u := by
  induction run with
  | nil => exact start
  | cons first rest ih =>
    exact ih (fun i member => keeps i (List.mem_cons_of_mem _ member))
      (keeps _ List.mem_cons_self _ _ first start)

theorem each {Holds : σ → Prop} {Done : ι → σ → Prop} (run : Run step items s u)
    (keeps : ∀ i ∈ items, ∀ s t, step i s t → Holds s → Holds t)
    (brings : ∀ i ∈ items, ∀ s t, step i s t → Holds s → Done i t)
    (stays : ∀ i ∈ items, ∀ j s t, step i s t → Holds s → Done j s → Done j t) (start : Holds s) :
    ∀ i ∈ items, Done i u := by
  induction run with
  | nil => exact fun _ none => absurd none List.not_mem_nil
  | @cons i items s t u first rest ih =>
    have kept : Holds t := keeps i List.mem_cons_self s t first start
    have restKeeps := fun j (member : j ∈ items) => keeps j (List.mem_cons_of_mem i member)
    have restStays := fun j (member : j ∈ items) => stays j (List.mem_cons_of_mem i member)
    intro j member
    rcases List.mem_cons.mp member with here | later
    · have done : Done i t := brings i List.mem_cons_self s t first start
      have keepsBoth : ∀ k ∈ items, ∀ s t, step k s t → Holds s ∧ Done i s → Holds t ∧ Done i t := by
        intro k inItems s t taken holds
        exact ⟨restKeeps k inItems s t taken holds.1, restStays k inItems i s t taken holds.1 holds.2⟩
      have both : Holds u ∧ Done i u := rest.invariant keepsBoth ⟨kept, done⟩
      exact here ▸ both.2
    · exact ih restKeeps (fun k inItems => brings k (List.mem_cons_of_mem i inItems)) restStays kept j later

/-- What holds after a step when it held before or the item brings it, holds at the end when it held at
the start or some item brings it. -/
theorem any_iff {Holds Has : σ → Prop} {Brings : ι → Prop} (run : Run step items s u)
    (keeps : ∀ i ∈ items, ∀ s t, step i s t → Holds s → Holds t)
    (joins : ∀ i ∈ items, ∀ s t, step i s t → Holds s → (Has t ↔ Has s ∨ Brings i)) (start : Holds s) :
    Has u ↔ Has s ∨ ∃ i ∈ items, Brings i := by
  induction run with
  | nil => simp
  | @cons i items s t u first rest ih =>
    rw [ih (fun j member => keeps j (List.mem_cons_of_mem i member))
      (fun j member => joins j (List.mem_cons_of_mem i member)) (keeps i List.mem_cons_self s t first start),
      joins i List.mem_cons_self s t first start]
    simp only [List.mem_cons, exists_eq_or_imp]
    exact or_assoc

/-- What holds after a step when it held before and the item allows it, holds at the end when it held at
the start and every item allows it. -/
theorem all_iff {Holds Has : σ → Prop} {Allows : ι → Prop} (run : Run step items s u)
    (keeps : ∀ i ∈ items, ∀ s t, step i s t → Holds s → Holds t)
    (meets : ∀ i ∈ items, ∀ s t, step i s t → Holds s → (Has t ↔ Has s ∧ Allows i)) (start : Holds s) :
    Has u ↔ Has s ∧ ∀ i ∈ items, Allows i := by
  induction run with
  | nil => simp
  | @cons i items s t u first rest ih =>
    rw [ih (fun j member => keeps j (List.mem_cons_of_mem i member))
      (fun j member => meets j (List.mem_cons_of_mem i member)) (keeps i List.mem_cons_self s t first start),
      meets i List.mem_cons_self s t first start]
    simp only [List.mem_cons, forall_eq_or_imp]
    exact and_assoc

theorem isGreatest [Preorder α] {Holds : σ → Prop} (value : σ → α) (key : ι → α) (Counts : ι → Prop)
    (run : Run step items s u)
    (keeps : ∀ i ∈ items, ∀ s t, step i s t → Holds s → Holds t)
    (greater : ∀ i ∈ items, ∀ s t, step i s t → Holds s → value s ≤ value t ∧ (Counts i → key i ≤ value t))
    (taken : ∀ i ∈ items, ∀ s t, step i s t → Holds s → value t = value s ∨ (Counts i ∧ value t = key i))
    (start : Holds s) :
    IsGreatest (insert (value s) {x | ∃ i ∈ items, Counts i ∧ key i = x}) (value u) := by
  induction run with
  | nil => simp [IsGreatest, upperBounds]
  | @cons i items s t u first rest ih =>
    have kept : Holds t := keeps i List.mem_cons_self s t first start
    obtain ⟨attained, bound⟩ := ih (fun j member => keeps j (List.mem_cons_of_mem i member))
      (fun j member => greater j (List.mem_cons_of_mem i member))
      (fun j member => taken j (List.mem_cons_of_mem i member)) kept
    obtain ⟨above, counted⟩ := greater i List.mem_cons_self s t first start
    have higher : value t ≤ value u := bound (Set.mem_insert _ _)
    constructor
    · rcases attained with same | ⟨j, member, counts, same⟩
      · rw [same]
        rcases taken i List.mem_cons_self s t first start with old | ⟨counts, new⟩
        · exact old ▸ Set.mem_insert _ _
        · exact Or.inr ⟨i, List.mem_cons_self, counts, new.symm⟩
      · exact Or.inr ⟨j, List.mem_cons_of_mem i member, counts, same⟩
    · rintro x (rfl | ⟨j, member, counts, rfl⟩)
      · exact above.trans higher
      · rcases List.mem_cons.mp member with here | later
        · subst here
          exact (counted counts).trans higher
        · exact bound (Or.inr ⟨j, later, counts, rfl⟩)

end Run

end Openisa.Library
