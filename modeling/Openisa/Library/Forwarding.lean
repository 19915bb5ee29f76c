import Mathlib.Data.List.Count

/-! Entries that give way to others: an entry forwards to the one that stands for it now. -/

namespace Openisa.Library

structure Forwarding (ι : Type*) where
  root : ι → ι
  root_root : ∀ i, root (root i) = root i

namespace Forwarding

variable {ι : Type*}

def own : Forwarding ι where
  root i := i
  root_root _ := rfl

variable [DecidableEq ι]

/-- All that `source` stands for now leads to what stands for `target`. -/
def redirect (f : Forwarding ι) (source target : ι) : Forwarding ι where
  root i := if f.root i = f.root source then f.root target else f.root i
  root_root i := by
    by_cases moved : f.root i = f.root source
    · simp [moved, f.root_root]
    · simp [moved, f.root_root]

theorem redirect_root (f : Forwarding ι) (source target i : ι) :
    (f.redirect source target).root i = if f.root i = f.root source then f.root target else f.root i := rfl

theorem redirect_root_ne (f : Forwarding ι) {source target : ι} (apart : f.root source ≠ f.root target) (i : ι) :
    (f.redirect source target).root i ≠ f.root source := by
  rw [redirect_root]
  by_cases moved : f.root i = f.root source
  · rw [if_pos moved]
    exact Ne.symm apart
  · rwa [if_neg moved]

theorem root_of_redirect (f : Forwarding ι) {source target i : ι} (apart : f.root source ≠ f.root target)
    (rooted : (f.redirect source target).root i = i) : f.root i = i ∧ i ≠ f.root source := by
  have gone : i ≠ f.root source := rooted ▸ f.redirect_root_ne apart i
  refine ⟨?_, gone⟩
  rw [redirect_root] at rooted
  by_cases moved : f.root i = f.root source
  · rw [if_pos moved] at rooted
    rw [← rooted, f.root_root]
  · rwa [if_neg moved] at rooted

section Count

variable {α : Type*} (f : Forwarding ι) (key : α → Option ι) (keep : α → Bool)

def under (i : ι) (x : α) : Bool := keep x && decide ((key x).map f.root = some i)

def load (xs : List α) (i : ι) : Nat := xs.countP (f.under key keep i)

theorem load_append_singleton (xs : List α) (x : α) (i : ι) :
    f.load key keep (xs ++ [x]) i = f.load key keep xs i + if f.under key keep i x then 1 else 0 := by
  rw [load, load, List.countP_append, List.countP_singleton]

variable {f key keep} {source target : ι}

theorem under_redirect_target (apart : f.root source ≠ f.root target) (x : α) :
    (f.redirect source target).under key keep (f.root target) x =
      (f.under key keep (f.root target) x || f.under key keep (f.root source) x) := by
  unfold under
  cases key x with
  | none => simp
  | some k =>
    by_cases moved : f.root k = f.root source
    · simp [redirect_root, moved, apart]
    · simp [redirect_root, moved]

theorem under_redirect_other {i : ι} (notSource : i ≠ f.root source) (notTarget : i ≠ f.root target) (x : α) :
    (f.redirect source target).under key keep i x = f.under key keep i x := by
  unfold under
  cases key x with
  | none => simp
  | some k =>
    by_cases moved : f.root k = f.root source
    · simp [redirect_root, moved, Ne.symm notSource, Ne.symm notTarget]
    · simp [redirect_root, moved]

theorem load_redirect_target (apart : f.root source ≠ f.root target) (xs : List α) :
    (f.redirect source target).load key keep xs (f.root target) =
      f.load key keep xs (f.root target) + f.load key keep xs (f.root source) := by
  induction xs with
  | nil => rfl
  | cons x rest ih =>
    have exclusive : f.under key keep (f.root target) x = true → f.under key keep (f.root source) x = false := by
      unfold under
      intro here
      have leads : (key x).map f.root = some (f.root target) := by simp_all
      simp [leads, Ne.symm apart]
    unfold load at ih ⊢
    rw [List.countP_cons, List.countP_cons, List.countP_cons, ih, under_redirect_target apart]
    cases here : f.under key keep (f.root target) x with
    | true =>
      rw [exclusive here]
      simp only [Bool.or_false, if_true, Bool.false_eq_true, if_false]
      omega
    | false =>
      simp only [Bool.false_or, Bool.false_eq_true, if_false]
      omega

theorem load_redirect_other {i : ι} (notSource : i ≠ f.root source) (notTarget : i ≠ f.root target)
    (xs : List α) : (f.redirect source target).load key keep xs i = f.load key keep xs i := by
  unfold load
  congr 1
  funext x
  exact under_redirect_other notSource notTarget x

end Count

end Forwarding

end Openisa.Library
