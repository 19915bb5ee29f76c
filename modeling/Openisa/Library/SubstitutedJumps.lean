import Openisa.Library.MipsMachine

/-! Jumps through a register that became branches: the program runs as before, as long as the register holds what the
branch was made for. -/

namespace Openisa.Library.Mips

open Openisa.Library.ByteStore

abbrev Marks := List (Word × Word)

inductive Instr.Through : Instr → RegNumber → Prop where
  | jr (rs : RegNumber) : Through (.jr rs) rs
  | jalr (rs : RegNumber) : Through (.jalr 31 rs) rs

inductive BranchFor (address target : Word) : Instr → Instr → Prop where
  | jr (rs : RegNumber) (offset : Half) (leads : address + (4 : Word) + offset.signExtend 32 <<< 2 = target) :
      BranchFor address target (.jr rs) (.beq 0 0 offset)
  | jalr (rs : RegNumber) (offset : Half) (leads : address + (4 : Word) + offset.signExtend 32 <<< 2 = target) :
      BranchFor address target (.jalr 31 rs) (.bgezal 0 offset)

section Substituted

variable (order : Endian) (marks : Marks) (mem mem' : Store)

/-- Two memories with the same words, but for marked jumps that became branches. -/
def Substituted : Prop := ∀ address, aligned address = true → readWord order mem' address = readWord order mem address ∨
  ∃ target i j, (address, target) ∈ marks ∧ decode (readWord order mem address) = some i ∧
    decode (readWord order mem' address) = some j ∧ BranchFor address target i j

/-- What a processor does at a word that is none of the instructions above: registers and memory may change, or it traps. -/
abbrev Others := Word → State → Store → Option (State × Store)

variable (others : Others)

def stepAny (interlocks : Bool) (c : State × Store) : Option (State × Store) :=
  if aligned c.1.pc = true ∧ decode (readWord order c.2 c.1.pc) = none then others (readWord order c.2 c.1.pc) c.1 c.2
  else (step order c.2 interlocks c.1).map fun s => (s, c.2)

def runAny (interlocks : Bool) : Nat → State × Store → Option (State × Store)
  | 0, c => some c
  | n + 1, c => (stepAny order others interlocks c).bind (runAny interlocks n)

/-- The same state, and memories that differ in marked jumps only. -/
def Alike (c c' : State × Store) : Prop := c'.1 = c.1 ∧ Substituted order marks c.2 c'.2

def Instr.reads (s : State) : Instr → Option Word
  | .lw _ base offset => some (s.get base + offset.signExtend 32)
  | _ => none

/-- What the marks promise for the next instruction: the register of a marked jump holds the promised address, the jump
does not lie in the delay slot of another that is taken, and no program looks at its own marked jumps or changes them. -/
structure Promised (s : State) (mem : Store) : Prop where
  jumps : ∀ target i r, (s.pc, target) ∈ marks → decode (readWord order mem s.pc) = some i → i.Through r →
    s.nextPc = s.pc + 4 ∧ s.get r = target
  reads : ∀ i address, decode (readWord order mem s.pc) = some i → i.reads s = some address →
    ∀ target, (address, target) ∉ marks
  others : decode (readWord order mem s.pc) = none → ∀ mem', Substituted order marks mem mem' →
    Option.Rel (Alike order marks) (others (readWord order mem s.pc) s mem) (others (readWord order mem s.pc) s mem')

variable {order marks mem mem' others} {s : State} {interlocks : Bool}

theorem effect_congr {i : Instr} (same : ∀ address, i.reads s = some address → aligned address = true →
    readWord order mem' address = readWord order mem address) : i.effect order mem' s = i.effect order mem s := by
  cases i with
  | lw rt base offset =>
    unfold Instr.effect
    dsimp only
    split
    · next place => rw [same _ rfl place]
    · rfl
  | _ => rfl

theorem branchFor_effect {target : Word} {i j : Instr} (branch : BranchFor s.pc target i j)
    (next : s.nextPc = s.pc + 4) (holds : ∀ r, i.Through r → s.get r = target) :
    j.effect order mem' s = i.effect order mem s := by
  have zero : s.get 0 = 0 := rfl
  cases branch with
  | jr rs offset leads => simp only [Instr.effect, holds rs (.jr rs), State.branch, next, leads, if_true]
  | jalr rs offset leads =>
    have taken : (0 : Int) ≤ (s.get 0).toInt := by rw [zero]; decide
    simp only [Instr.effect, holds rs (.jalr rs), State.branch, next, leads, if_pos taken]

theorem BranchFor.through {address target : Word} {i j : Instr} (branch : BranchFor address target i j) :
    ∃ r, i.Through r := by
  cases branch with
  | jr rs _ _ => exact ⟨rs, .jr rs⟩
  | jalr rs _ _ => exact ⟨rs, .jalr rs⟩

theorem BranchFor.other {address target : Word} {i j : Instr} (branch : BranchFor address target i j)
    {address' target' : Word} {k : Instr} : ¬BranchFor address' target' j k := by
  intro again
  cases branch with
  | jr _ _ _ => cases again
  | jalr _ _ _ => cases again

theorem Substituted.effect (substituted : Substituted order marks mem mem') (promised : Promised order marks others s mem)
    (place : aligned s.pc = true) : (decode (readWord order mem' s.pc)).bind (fun i => i.effect order mem' s) =
      (decode (readWord order mem s.pc)).bind fun i => i.effect order mem s := by
  have loads : ∀ i, decode (readWord order mem s.pc) = some i → i.effect order mem' s = i.effect order mem s := by
    intro i decoded
    refine effect_congr fun address reads here => ?_
    rcases substituted address here with same | ⟨target, _, _, marked, _⟩
    · exact same
    · exact absurd marked (promised.reads i address decoded reads target)
  rcases substituted s.pc place with same | ⟨target, i, j, marked, before, after, branch⟩
  · rw [same]
    cases decoded : decode (readWord order mem s.pc) with
    | none => rw [Option.bind_none, Option.bind_none]
    | some i => rw [Option.bind_some, Option.bind_some, loads i decoded]
  · rw [before, after, Option.bind_some, Option.bind_some]
    obtain ⟨r, jumps⟩ := branch.through
    exact branchFor_effect branch (promised.jumps target i r marked before jumps).1 fun r' through =>
      (promised.jumps target i r' marked before through).2

theorem Substituted.step (substituted : Substituted order marks mem mem') (promised : Promised order marks others s mem) :
    step order mem' interlocks s = step order mem interlocks s := by
  unfold Mips.step
  by_cases place : aligned s.pc = true
  · have same := congrArg (Option.map (apply interlocks s)) (substituted.effect promised place)
    rw [Option.map_bind, Option.map_bind] at same
    rw [if_pos place, if_pos place]
    exact same
  · rw [if_neg place, if_neg place]

theorem Substituted.stepAny (substituted : Substituted order marks mem mem')
    (promised : Promised order marks others s mem) :
    Option.Rel (Alike order marks) (stepAny order others interlocks (s, mem)) (stepAny order others interlocks (s, mem')) := by
  unfold Mips.stepAny
  dsimp only
  by_cases place : aligned s.pc = true
  · cases decoded : decode (readWord order mem s.pc) with
    | none =>
      -- no jump is marked here
      have same : readWord order mem' s.pc = readWord order mem s.pc := by
        rcases substituted s.pc place with same | ⟨_, i, _, _, jump, _⟩
        · exact same
        · rw [decoded] at jump
          cases jump
      rw [same, decoded, if_pos ⟨place, rfl⟩, if_pos ⟨place, rfl⟩]
      exact promised.others decoded mem' substituted
    | some i =>
      have jump : decode (readWord order mem' s.pc) ≠ none := by
        rcases substituted s.pc place with same | ⟨_, _, j, _, _, after, _⟩
        · rw [same, decoded]
          exact Option.some_ne_none i
        · rw [after]
          exact Option.some_ne_none j
      have same : Mips.step order mem' interlocks s = Mips.step order mem interlocks s := substituted.step promised
      rw [if_neg fun both => Option.some_ne_none i both.2, if_neg fun both => jump both.2, same]
      cases Mips.step order mem interlocks s with
      | none => exact .none
      | some next => exact .some ⟨rfl, substituted⟩
  · have off : ∀ d, Mips.step order d interlocks s = none := fun d => if_neg place
    rw [if_neg fun both => place both.1, if_neg fun both => place both.1, off, off]
    exact .none

theorem Substituted.run (substituted : Substituted order marks mem mem') (n : Nat) (s : State)
    (promised : ∀ k < n, ∀ s' d, runAny order others interlocks k (s, mem) = some (s', d) →
      Promised order marks others s' d) :
    Option.Rel (Alike order marks) (runAny order others interlocks n (s, mem))
      (runAny order others interlocks n (s, mem')) := by
  induction n generalizing s mem mem' with
  | zero => exact .some ⟨rfl, substituted⟩
  | succ n ih =>
    have first : Option.Rel (Alike order marks) (Mips.stepAny order others interlocks (s, mem))
        (Mips.stepAny order others interlocks (s, mem')) :=
      substituted.stepAny (promised 0 (Nat.succ_pos n) s mem rfl)
    rw [runAny, runAny]
    cases here : Mips.stepAny order others interlocks (s, mem) with
    | none =>
      rw [here] at first
      cases after : Mips.stepAny order others interlocks (s, mem') with
      | none => exact .none
      | some c' =>
        rw [after] at first
        cases first
    | some c =>
      rw [here] at first
      cases after : Mips.stepAny order others interlocks (s, mem') with
      | none =>
        rw [after] at first
        cases first
      | some c' =>
        rw [after] at first
        obtain ⟨same, alike⟩ : Alike order marks c c' := by
          cases first with
          | some alike => exact alike
        obtain ⟨next, d⟩ := c
        obtain ⟨next', d'⟩ := c'
        obtain rfl : next' = next := same
        refine ih alike _ fun k below s' d'' reached => promised (k + 1) (Nat.succ_lt_succ below) s' d'' ?_
        rw [runAny, here, Option.bind_some, reached]

end Substituted

end Openisa.Library.Mips
