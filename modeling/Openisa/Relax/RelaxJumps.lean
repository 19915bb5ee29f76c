import Openisa.Elf.Reference
import Openisa.Relax.JumpHints

/-! The relaxation of jumps through a register that are marked with an `R_MIPS_JALR` relocation. No size changes. -/

namespace Openisa.Relax

open Openisa.Bfd
open Openisa.Elf
open Openisa.Library
open Openisa.Library.ByteStore
open Openisa.Library.Mips
open Openisa.Stubs

inductive JumpSym where
  | global (h : HashEntry) (forcedLocal : Bool)
  | «local» (stValue : BfdVma) (symSec : Option ElfSection)
  deriving DecidableEq, Repr

structure JumpReloc where
  offset : BfdVma
  type : MipsReloc
  sym : JumpSym
  addend : BfdVma
  deriving DecidableEq, Repr

structure RelaxLink where
  relocatable : Bool
  shared : Bool
  symbolic : Bool
  deriving DecidableEq, Repr

/-- The address of the symbol; none if it is undefined or may be overridden. -/
def JumpSym.symval (link : RelaxLink) : JumpSym → Option BfdVma
  | .global h forcedLocal =>
      if h.type = .defined ∨ h.type = .defweak then
        match h.sec with
        | none => none
        | some symSec =>
            if link.shared && !link.symbolic && !forcedLocal then none
            else some (if symSec.hasOutput then h.value + symSec.base else h.value)
      else none
  | .local stValue symSec => symSec.map fun symSec => stValue + symSec.base

/-- `jalr <reg>` becomes `bgezal $zero, <target>`, and `jr <reg>` becomes `b <target>`. -/
def branchInstruction (symOffset instruction : BfdVma) : Option BfdVma :=
  let field := (symOffset.sshiftRight 2) &&& 0xffff
  if instruction &&& 0xfc1fffff = 0x0000f809 then some (0x04110000 ||| field)
  else if instruction &&& 0xfc1fffff = 0x00000008 then some (0x10000000 ||| field)
  else none

section Relax

variable (order : Endian) (link : RelaxLink) (secStart : BfdVma)

def relaxJump (contents : Store) (irel : JumpReloc) : Store :=
  if irel.type ≠ .rMipsJalr then contents
  else
    match irel.sym.symval link with
    | none => contents
    | some symval =>
        -- from the delay slot of the jump to the branch target
        let symOffset := symval + irel.addend - (secStart + irel.offset + 4)
        if symOffset &&& 3 ≠ 0 then contents
        else if (symOffset.sshiftRight 2).toInt < -0x8000 ∨ (symOffset.sshiftRight 2).toInt ≥ 0x8000 then contents
        else
          match branchInstruction symOffset (bfdGet32 order contents irel.offset.toNat) with
          | none => contents
          | some instruction => bfdPut32 order instruction contents irel.offset.toNat

def bfdMipsRelaxSection (irels : List JumpReloc) (contents : Store) : Store :=
  if link.relocatable then contents else irels.foldl (relaxJump order link secStart) contents

def JumpReloc.mark (irel : JumpReloc) : Option (Word × Word) :=
  if irel.type = .rMipsJalr then
    (irel.sym.symval link).map fun symval =>
      ((secStart + irel.offset).setWidth 32, (symval + irel.addend).setWidth 32)
  else none

def jumpMarks (irels : List JumpReloc) : Marks := irels.filterMap (·.mark link secStart)

end Relax

section Step

variable {order : Endian} {link : RelaxLink} {secStart : BfdVma}

theorem inReach_of_checks {off : BfdVma} (words : off &&& 3 = 0)
    (range : ¬((off.sshiftRight 2).toInt < -0x8000 ∨ (off.sshiftRight 2).toInt ≥ 0x8000)) : InReach off := by
  have low : off.toNat % 4 = 0 := by
    have mask := congrArg BitVec.toNat words
    rw [BitVec.toNat_and] at mask
    exact (Nat.and_two_pow_sub_one_eq_mod off.toNat 2).symm.trans mask
  rw [sshiftRight_two] at range
  exact ⟨low, by omega, by omega⟩

theorem branchInstruction_cases {off instruction branch : BfdVma}
    (found : branchInstruction off instruction = some branch) :
    (∃ rs, decode (instruction.setWidth 32) = some (.jalr 31 rs) ∧
        branch.setWidth 32 = (Instr.bgezal 0 (branchField off)).encode) ∨
      ∃ rs, decode (instruction.setWidth 32) = some (.jr rs) ∧
        branch.setWidth 32 = (Instr.beq 0 0 (branchField off)).encode := by
  have narrow : ∀ m v : BfdVma, instruction &&& m = v → instruction.setWidth 32 &&& m.setWidth 32 = v.setWidth 32 := by
    intro m v masked
    rw [← BitVec.setWidth_and, masked]
  unfold branchInstruction at found
  dsimp only at found
  split at found
  · next masked =>
    cases found
    exact .inl ⟨_, decode_jalr (narrow _ _ masked), link_word off⟩
  · split at found
    · next masked =>
      cases found
      exact .inr ⟨_, decode_jr (narrow _ _ masked), branch_word off⟩
    · cases found

theorem relaxJump_cases (order : Endian) (link : RelaxLink) (secStart : BfdVma) (contents : Store) (irel : JumpReloc) :
    relaxJump order link secStart contents irel = contents ∨ ∃ target i j branch,
      irel.mark link secStart = some ((secStart + irel.offset).setWidth 32, target) ∧
        decode ((bfdGet32 order contents irel.offset.toNat).setWidth 32) = some i ∧
        branch.setWidth 32 = j.encode ∧ BranchFor ((secStart + irel.offset).setWidth 32) target i j ∧
        relaxJump order link secStart contents irel = bfdPut32 order branch contents irel.offset.toNat := by
  unfold relaxJump
  split
  · exact .inl rfl
  · next jalr =>
    have type : irel.type = .rMipsJalr := not_not.mp jalr
    cases value : irel.sym.symval link with
    | none => exact .inl rfl
    | some symval =>
      dsimp only
      split
      · exact .inl rfl
      · next words =>
        split
        · exact .inl rfl
        · next range =>
          cases found : branchInstruction (symval + irel.addend - (secStart + irel.offset + 4))
              (bfdGet32 order contents irel.offset.toNat) with
          | none => exact .inl rfl
          | some branch =>
            right
            have reach := inReach_of_checks (not_not.mp words) range
            have marked : irel.mark link secStart =
                some ((secStart + irel.offset).setWidth 32, (symval + irel.addend).setWidth 32) := by
              rw [JumpReloc.mark, if_pos type, value, Option.map_some]
            have leads := branch_leads reach
            rcases branchInstruction_cases found with ⟨rs, decoded, encoded⟩ | ⟨rs, decoded, encoded⟩
            · exact ⟨_, _, _, branch, marked, decoded, encoded, .jalr rs _ leads, rfl⟩
            · exact ⟨_, _, _, branch, marked, decoded, encoded, .jr rs _ leads, rfl⟩

end Step

section Section

variable {order : Endian} {link : RelaxLink} {secStart : BfdVma} {size : Nat} {marks : Marks} {contents contents' : Store}
  {irel : JumpReloc}

theorem relaxJump_hinted (words : irel.type = .rMipsJalr → irel.offset.toNat % 4 = 0 ∧ irel.offset.toNat + 4 ≤ size)
    (marked : ∀ mark, irel.mark link secStart = some mark → mark ∈ marks)
    (hinted : ∀ offset, offset % 4 = 0 → HintedWord order (secStart.setWidth 32) size marks contents contents' offset)
    {offset : Nat} (word : offset % 4 = 0) : HintedWord order (secStart.setWidth 32) size marks contents
      (relaxJump order link secStart contents' irel) offset := by
  rcases relaxJump_cases order link secStart contents' irel with
    same | ⟨target, i, j, branch, mark, decoded, encoded, becomes, changed⟩
  · rw [same]
    exact hinted offset word
  · have type : irel.type = .rMipsJalr := by
      unfold JumpReloc.mark at mark
      by_contra other
      rw [if_neg other] at mark
      cases mark
    obtain ⟨aligned, inside⟩ := words type
    rw [changed]
    by_cases here : offset = irel.offset.toNat
    · subst here
      right
      -- a jump is relaxed once at most
      have before : bfdGet32 order contents' irel.offset.toNat = bfdGet32 order contents irel.offset.toNat := by
        rcases hinted _ word with kept | ⟨_, _, i', j', _, _, after, earlier⟩
        · exact bfdGet32_congr order kept
        · rw [decoded] at after
          cases after
          exact absurd becomes earlier.other
      refine ⟨inside, target, i, j, ?_, before ▸ decoded, ?_, ?_⟩
      · rw [← place_word]
        exact marked _ mark
      · rw [bfdPut32_get, encoded, decode_encode]
      · rw [← place_word]
        exact becomes
    · have apart : ∀ k, offset ≤ k → k < offset + 4 →
          bfdPut32 order branch contents' irel.offset.toNat k = contents' k := by
        intro k low high
        exact bfdPut32_outside order branch contents' _ k (by omega)
      rcases hinted offset word with kept | ⟨room, target', i', j', listed, was, is, earlier⟩
      · exact .inl fun k low high => (apart k low high).trans (kept k low high)
      · exact .inr ⟨room, target', i', j', listed, was, by rw [bfdGet32_congr order apart, is], earlier⟩

theorem relaxJumps_hinted {irels : List JumpReloc}
    (words : ∀ irel ∈ irels, irel.type = .rMipsJalr → irel.offset.toNat % 4 = 0 ∧ irel.offset.toNat + 4 ≤ size)
    (marked : ∀ irel ∈ irels, ∀ mark, irel.mark link secStart = some mark → mark ∈ marks)
    (hinted : ∀ offset, offset % 4 = 0 → HintedWord order (secStart.setWidth 32) size marks contents contents' offset)
    {offset : Nat} (word : offset % 4 = 0) : HintedWord order (secStart.setWidth 32) size marks contents
      (irels.foldl (relaxJump order link secStart) contents') offset := by
  induction irels generalizing contents' with
  | nil => exact hinted offset word
  | cons irel irels ih =>
    rw [List.forall_mem_cons] at words marked
    rw [List.foldl_cons]
    exact ih words.2 marked.2 fun _ => relaxJump_hinted words.1 marked.1 hinted

/-- The program runs as before, however many jumps were relaxed and whatever its other instructions do, as long as the
marked registers hold what the relocations say. -/
theorem relaxed_jumps_run (order : Endian) (link : RelaxLink) (secStart : BfdVma) (irels : List JumpReloc) {size : Nat}
    (place : aligned (secStart.setWidth 32) = true) (room : (secStart.setWidth 32).toNat + size ≤ 2 ^ 32)
    (words : ∀ irel ∈ irels, irel.type = .rMipsJalr → irel.offset.toNat % 4 = 0 ∧ irel.offset.toNat + 4 ≤ size)
    (contents rest : Store) (others : Others) (interlocks : Bool) (n : Nat) (s : State)
    (promised : ∀ k < n, ∀ s' mem,
      runAny order others interlocks k (s, loadSection (secStart.setWidth 32) size contents rest) = some (s', mem) →
        Promised order (jumpMarks link secStart irels) others s' mem) :
    Option.Rel (Alike order (jumpMarks link secStart irels))
      (runAny order others interlocks n (s, loadSection (secStart.setWidth 32) size contents rest))
      (runAny order others interlocks n
        (s, loadSection (secStart.setWidth 32) size (bfdMipsRelaxSection order link secStart irels contents) rest)) := by
  unfold bfdMipsRelaxSection
  split
  · exact Substituted.run (fun _ _ => .inl rfl) n s promised
  · have hinted : ∀ offset, offset % 4 = 0 → HintedWord order (secStart.setWidth 32) size (jumpMarks link secStart irels)
        contents (irels.foldl (relaxJump order link secStart) contents) offset := fun offset word =>
      relaxJumps_hinted words (fun irel member mark here => List.mem_filterMap.mpr ⟨irel, member, here⟩)
        (fun _ _ => .inl fun _ _ _ => rfl) word
    exact (hinted_section place room hinted rest).run n s promised

def sampleHint : JumpReloc := ⟨0, .rMipsJalr, .local 0x10 (some (keptSection 0x400000 0)), 0⟩

theorem sampleCaller_word : decode (readWord .big (loadSection 0x400000 32 sampleCaller fun _ => 0) 0x400000) =
    some (.jalr 31 25) := by
  decide

theorem sampleHint_marks : jumpMarks ⟨false, false, false⟩ 0x400000 [sampleHint] = [(0x400000, 0x400010)] := by
  decide

theorem relaxed_jumps_run_call :
    bfdGet32 .big (bfdMipsRelaxSection .big ⟨false, false, false⟩ 0x400000 [sampleHint] sampleCaller) 0 = 0x04110003 ∧
      Option.Rel (Alike .big (jumpMarks ⟨false, false, false⟩ 0x400000 [sampleHint]))
        (runAny .big storeWord true 1 (sampleEntered, loadSection 0x400000 32 sampleCaller fun _ => 0))
        (runAny .big storeWord true 1 (sampleEntered, loadSection 0x400000 32
          (bfdMipsRelaxSection .big ⟨false, false, false⟩ 0x400000 [sampleHint] sampleCaller) fun _ => 0)) :=
  ⟨by decide, relaxed_jumps_run .big ⟨false, false, false⟩ 0x400000 [sampleHint] (by decide) (by decide) (by decide)
    sampleCaller (fun _ => 0) storeWord true 1 sampleEntered fun k below s' mem reached => by
      have zero : k = 0 := by omega
      subst zero
      cases reached
      rw [sampleHint_marks]
      exact sampleEntered_promised sampleCaller_word⟩

end Section

end Openisa.Relax
