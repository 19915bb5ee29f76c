import Mathlib.Logic.Function.Basic

/-! Resources that are given to places and moved between them, each held by one place at most. -/

namespace Openisa.Library

variable {ι σ : Type*}

def HeldOnce (holds : ι → Option σ) : Prop := ∀ i j s, holds i = some s → holds j = some s → i = j

namespace HeldOnce

theorem empty : HeldOnce (fun _ : ι => (none : Option σ)) := fun _ _ _ none => by cases none

variable [DecidableEq ι] {holds : ι → Option σ}

theorem give (once : HeldOnce holds) (i : ι) {s : σ} (free : ∀ j, holds j ≠ some s) :
    HeldOnce (Function.update holds i (some s)) := by
  intro j k r there here
  by_cases first : j = i
  · subst first
    rw [Function.update_self] at there
    cases there
    by_contra apart
    rw [Function.update_of_ne (Ne.symm apart)] at here
    exact free k here
  · rw [Function.update_of_ne first] at there
    by_cases second : k = i
    · subst second
      rw [Function.update_self] at here
      cases here
      exact absurd there (free j)
    · rw [Function.update_of_ne second] at here
      exact once j k r there here

theorem drop (once : HeldOnce holds) (i : ι) : HeldOnce (Function.update holds i none) := by
  intro j k r there here
  have kept : ∀ l, Function.update holds i none l = some r → holds l = some r := by
    intro l held
    by_cases own : l = i
    · subst own
      simp at held
    · rwa [Function.update_of_ne own] at held
  exact once j k r (kept j there) (kept k here)

def move (holds : ι → Option σ) (source target : ι) : ι → Option σ :=
  match holds source with
  | some s => Function.update (Function.update holds source none) target (some s)
  | none => holds

theorem moved (once : HeldOnce holds) (source target : ι) : HeldOnce (move holds source target) := by
  unfold move
  split
  · next s held =>
    refine (once.drop source).give target fun j there => ?_
    by_cases own : j = source
    · subst own
      simp at there
    · rw [Function.update_of_ne own] at there
      exact own (once j source s there held)
  · exact once

theorem of_move {source target i : ι} {s : σ} (held : move holds source target i = some s) :
    ∃ j, holds j = some s := by
  unfold move at held
  cases there : holds source with
  | none =>
    rw [there] at held
    exact ⟨i, held⟩
  | some r =>
    rw [there] at held
    dsimp only at held
    by_cases own : i = target
    · subst own
      rw [Function.update_self] at held
      exact ⟨source, there.trans held⟩
    · rw [Function.update_of_ne own] at held
      by_cases old : i = source
      · subst old
        simp at held
      · rw [Function.update_of_ne old] at held
        exact ⟨i, held⟩

end HeldOnce

end Openisa.Library
