/-! Chains of entries that point to one another, and loops that are to come to their ends. -/

namespace Openisa.Library.LinkChain

universe u

variable {ι : Type u}

inductive Chain (next : ι → Option ι) : ι → Nat → ι → Prop
  | last {x : ι} (ends : next x = none) : Chain next x 0 x
  | link {x y z : ι} {n : Nat} (leads : next x = some y) (rest : Chain next y n z) : Chain next x (n + 1) z

variable {next : ι → Option ι} {x y : ι} {n : Nat}

theorem Chain.eq_of_none (chain : Chain next x n y) (ends : next x = none) : n = 0 ∧ y = x := by
  cases chain with
  | last _ => exact ⟨rfl, rfl⟩
  | link leads _ => simp [leads] at ends

theorem Chain.next_of_some (chain : Chain next x n y) {z : ι} (leads : next x = some z) :
    ∃ m, n = m + 1 ∧ Chain next z m y := by
  cases chain with
  | last ends => simp [leads] at ends
  | link step rest =>
    rw [step] at leads
    cases leads
    exact ⟨_, rfl, rest⟩

/-- `while (next (x)) x = advance (x)`, for so many turns at most. -/
def loop (next : ι → Option ι) (advance : ι → ι) : Nat → ι → Option ι
  | 0, _ => none
  | fuel + 1, x => if (next x).isSome then loop next advance fuel (advance x) else some x

variable {advance : ι → ι}

theorem loop_of_none (ends : next x = none) (fuel : Nat) : loop next advance (fuel + 1) x = some x := by
  simp [loop, ends]

theorem loop_of_some {z : ι} (leads : next x = some z) (fuel : Nat) :
    loop next advance (fuel + 1) x = loop next advance fuel (advance x) := by
  simp [loop, leads]

theorem loop_stuck {z : ι} (leads : next x = some z) (fixed : advance x = x) (fuel : Nat) :
    loop next advance fuel x = none := by
  induction fuel with
  | zero => rfl
  | succ fuel ih => rw [loop_of_some leads, fixed, ih]

/-- A loop that moves to one and the same entry at every turn comes to the end of a chain of at most one
link. -/
theorem loop_from_start {z : ι} (chain : Chain next x n y) (start : ∀ u, next x = some u → u = z) (short : n ≤ 1) :
    loop next (fun _ => z) 2 x = some y := by
  cases first : next x with
  | none =>
    obtain ⟨rfl, rfl⟩ := chain.eq_of_none first
    exact loop_of_none first 1
  | some u =>
    have same := start u first
    subst same
    obtain ⟨m, rfl, rest⟩ := chain.next_of_some first
    cases second : next u with
    | none =>
      obtain ⟨rfl, rfl⟩ := rest.eq_of_none second
      rw [loop_of_some first, loop_of_none second]
    | some v =>
      obtain ⟨k, rfl, _⟩ := rest.next_of_some second
      omega

theorem loop_from_start_stuck {z : ι} (chain : Chain next x n y) (start : ∀ u, next x = some u → u = z)
    (long : 1 < n) (fuel : Nat) : loop next (fun _ => z) fuel x = none := by
  cases first : next x with
  | none =>
    obtain ⟨rfl, rfl⟩ := chain.eq_of_none first
    omega
  | some u =>
    have same := start u first
    subst same
    obtain ⟨m, rfl, rest⟩ := chain.next_of_some first
    cases second : next u with
    | none =>
      obtain ⟨rfl, rfl⟩ := rest.eq_of_none second
      omega
    | some v =>
      cases fuel with
      | zero => rfl
      | succ fuel => rw [loop_of_some first, loop_stuck second rfl]

end Openisa.Library.LinkChain
