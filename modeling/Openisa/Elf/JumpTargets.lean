import Openisa.Elf.FinalWord
import Openisa.Elf.Reference

/-! Jumps whose fields cannot tell two targets apart, on both link paths. -/

namespace Openisa.Elf

open Openisa.Bfd
open Openisa.Library
open Openisa.Library.ByteStore

/-- The word of a branch that took the place of a `jal`. -/
def balWord (off : BfdVma) : BfdVma := 0x04110000 ||| ((off.sshiftRight 2) &&& 0xffff)

def BranchReach (off : BfdVma) : Prop := off.toInt ≤ 0x1ffff ∧ off.toInt ≥ -0x20000

instance (off : BfdVma) : Decidable (BranchReach off) :=
  inferInstanceAs (Decidable (off.toInt ≤ 0x1ffff ∧ off.toInt ≥ -0x20000))

/-- What the code takes for the distance of a jump, whose region it reads off the next instruction. -/
def jumpDistance (value addr : BfdVma) : BfdVma := (value <<< 2 ||| (addr >>> 28) <<< 28) - addr

theorem bal_word_opcode (off : BfdVma) : balWord off >>> 26 = 1 := by
  have low : ((off.sshiftRight 2) &&& 0xffff) >>> 26 = 0 := by
    rw [BitVec.ushiftRight_and_distrib]
    exact BitVec.and_zero
  rw [balWord, BitVec.ushiftRight_or_distrib, low]
  rfl

theorem bal_word_field (off : BfdVma) : balWord off &&& 0xffff = (off.sshiftRight 2) &&& 0xffff := by
  rw [balWord, BitVec.and_or_distrib_right, BitVec.and_assoc]
  exact BitVec.zero_or

/-- Within its reach a branch word tells two distances apart that are a multiple of 4 from each other. -/
theorem bal_word_inj (a b : BfdVma) (reachA : BranchReach a) (reachB : BranchReach b)
    (rest : a.toNat % 4 = b.toNat % 4) (same : balWord a = balWord b) : a = b := by
  have fields : ∀ x : BfdVma, ((x.sshiftRight 2) &&& 0xffff).toNat = (x.sshiftRight 2).toNat % 2 ^ 16 :=
    fun x => BitField.and_low_toNat 16 (by decide) _
  have quotient : ∀ x : BfdVma, (x.sshiftRight 2).toInt = x.toInt / 4 := by
    intro x
    rw [BitVec.toInt_sshiftRight, Int.shiftRight_eq_div_pow]
    rfl
  have field := congrArg BitVec.toNat (congrArg (· &&& 0xffff) same)
  simp only [bal_word_field, fields] at field
  have quotientA := quotient a
  have quotientB := quotient b
  apply BitVec.eq_of_toNat_eq
  simp only [BranchReach, BitVec.toInt_eq_toNat_cond] at quotientA quotientB reachA reachB
  omega

theorem jump_distance_toNat (value addr : BfdVma) (short : value.toNat < 2 ^ 20) :
    (jumpDistance value addr).toNat =
      (4 * value.toNat + addr.toNat / 2 ^ 28 * 2 ^ 28 + (2 ^ 64 - addr.toNat)) % 2 ^ 64 := by
  have target : (value <<< 2 ||| (addr >>> 28) <<< 28).toNat = 4 * value.toNat + addr.toNat / 2 ^ 28 * 2 ^ 28 := by
    have whole := addr.isLt
    have below : value.toNat * 2 ^ 2 < 2 ^ 28 := by omega
    have region : addr.toNat / 2 ^ 28 * 2 ^ 28 < 2 ^ 64 := by omega
    rw [BitVec.toNat_or, BitVec.toNat_shiftLeft, BitVec.toNat_shiftLeft, BitVec.toNat_ushiftRight,
      Nat.shiftRight_eq_div_pow, Nat.or_comm, Nat.shiftLeft_eq, Nat.shiftLeft_eq, Nat.mod_eq_of_lt region,
      Nat.mod_eq_of_lt (lt_trans below (by decide)), ← Nat.shiftLeft_eq,
      ← Nat.shiftLeft_add_eq_or_of_lt below, Nat.shiftLeft_eq]
    omega
  rw [jumpDistance, BitVec.toNat_sub, target]
  omega

theorem jump_distance_inj (u v addr : BfdVma) (shortU : u.toNat < 2 ^ 20) (shortV : v.toNat < 2 ^ 20)
    (same : jumpDistance u addr = jumpDistance v addr) : u = v := by
  have distance := congrArg BitVec.toNat same
  rw [jump_distance_toNat u addr shortU, jump_distance_toNat v addr shortV] at distance
  apply BitVec.eq_of_toNat_eq
  omega

theorem convert_to_branch_jump (value addr x : BfdVma) (notReturn : x ≠ 0x03200008) :
    convertToBranch .rMips26 value addr x =
      if BranchReach (jumpDistance value addr) then balWord (jumpDistance value addr) else x := by
  simp only [convertToBranch, if_true, if_neg notReturn]
  rfl

theorem convert_to_branch_inj (u v addr x y : BfdVma) (shortU : u.toNat < 2 ^ 20) (shortV : v.toNat < 2 ^ 20)
    (jumpX : x >>> 26 = 3) (jumpY : y >>> 26 = 3)
    (same : convertToBranch .rMips26 u addr x = convertToBranch .rMips26 v addr y) : x = y ∨ u = v := by
  have jumps : ∀ z : BfdVma, z >>> 26 = 3 → z ≠ 0x03200008 := by
    intro z jump isReturn
    rw [isReturn] at jump
    exact absurd jump (by decide)
  have opcodes : ∀ off z : BfdVma, z >>> 26 = 3 → balWord off ≠ z := by
    intro off z jump isBranch
    rw [← isBranch, bal_word_opcode] at jump
    exact absurd jump (by decide)
  rw [convert_to_branch_jump _ _ _ (jumps x jumpX), convert_to_branch_jump _ _ _ (jumps y jumpY)] at same
  by_cases reachU : BranchReach (jumpDistance u addr)
  · by_cases reachV : BranchReach (jumpDistance v addr)
    · rw [if_pos reachU, if_pos reachV] at same
      have distance := bal_word_inj _ _ reachU reachV (by
        rw [jump_distance_toNat u addr shortU, jump_distance_toNat v addr shortV]
        omega) same
      exact Or.inr (jump_distance_inj u v addr shortU shortV distance)
    · rw [if_pos reachU, if_neg reachV] at same
      exact absurd same (opcodes _ y jumpY)
  · by_cases reachV : BranchReach (jumpDistance v addr)
    · rw [if_neg reachU, if_pos reachV] at same
      exact absurd same.symm (opcodes _ x jumpX)
    · rw [if_neg reachU, if_neg reachV] at same
      exact Or.inl same

theorem stored_opcode (value x : BfdVma) :
    storeField (mipsElf32RtypeToHowto .rMips26) value x >>> 26 = x >>> 26 := by
  apply BitVec.eq_of_getLsbD_eq
  intro i _
  rw [BitVec.getLsbD_ushiftRight, BitVec.getLsbD_ushiftRight]
  by_cases inside : 26 + i < 64
  · have bare : (BitField.mask 64 (mipsElf32RtypeToHowto .rMips26).bitpos
        (mipsElf32RtypeToHowto .rMips26).bitsize).getLsbD (26 + i) = false := by
      have last : (mipsElf32RtypeToHowto .rMips26).bitpos + (mipsElf32RtypeToHowto .rMips26).bitsize = 20 := rfl
      rw [BitField.getLsbD_mask, last]
      simp only [inside, decide_true, Bool.true_and, Bool.and_eq_false_imp, decide_eq_true_eq,
        decide_eq_false_iff_not]
      omega
    rw [storeField, BitField.getLsbD_replace _ _ _ _ inside, bare, if_neg Bool.false_ne_true]
  · rw [BitVec.getLsbD_of_ge _ _ (by omega), BitVec.getLsbD_of_ge _ _ (by omega)]

theorem branch_candidate_jump (link : ElfLink) (value x : BfdVma) :
    branchCandidateP link .rMips26 (storeField (mipsElf32RtypeToHowto .rMips26) value x) =
      (link.jalToBal && x >>> 26 == 3) := by
  have noReturn : (MipsReloc.rMips26 == .rMipsJalr) = false := rfl
  have isJump : (MipsReloc.rMips26 == .rMips26) = true := rfl
  simp only [branchCandidateP, stored_opcode, noReturn, isJump, Bool.and_true, Bool.false_and, Bool.or_false]

theorem bal_word_lt (off : BfdVma) : (balWord off).toNat < 2 ^ 32 := by
  have opcode := congrArg BitVec.toNat (bal_word_opcode off)
  rw [BitVec.toNat_ushiftRight, Nat.shiftRight_eq_div_pow, show (1 : BfdVma).toNat = 1 from rfl] at opcode
  omega

theorem no_candidate (link : ElfLink) (type : MipsReloc) (field : fieldRelocP type = true)
    (noJump : type ≠ .rMips26) (x : BfdVma) : branchCandidateP link type x = false := by
  have noReturn : (type == .rMipsJalr) = false := by
    revert field
    cases type <;> decide
  have other : (type == .rMips26) = false := beq_eq_false_iff_ne.mpr noJump
  simp only [branchCandidateP, other, noReturn, Bool.and_false, Bool.false_and, Bool.or_self]

theorem FieldRel.final_word_eq {link : ElfLink} (r : FieldRel link) (inputSection : ElfSection) (x : BfdVma) :
    let value := (r.value inputSection x).1
    let distance := jumpDistance value (r.place inputSection + 4)
    r.finalWord inputSection x =
      if r.type = .rMips26 ∧ link.jalToBal = true ∧ x >>> 26 = 3 ∧ BranchReach distance then balWord distance
      else storeField r.howto value x := by
  dsimp only
  rw [finalWord]
  by_cases jump : r.type = .rMips26
  · have howto : r.howto = mipsElf32RtypeToHowto .rMips26 := by rw [FieldRel.howto, jump]
    simp only [jump, howto, branch_candidate_jump, true_and]
    by_cases candidate : (link.jalToBal && x >>> 26 == 3) = true
    · obtain ⟨converts, opcode⟩ := Bool.and_eq_true_iff.mp candidate
      have isJump := eq_of_beq opcode
      have noReturn : storeField (mipsElf32RtypeToHowto .rMips26) (r.value inputSection x).1 x ≠
          0x03200008 := by
        intro isReturn
        have opcode' := stored_opcode (r.value inputSection x).1 x
        rw [isReturn, isJump] at opcode'
        exact absurd opcode' (by decide)
      rw [if_pos candidate, convert_to_branch_jump _ _ _ noReturn]
      simp only [converts, isJump, true_and]
    · have absent : ¬ (link.jalToBal = true ∧ x >>> 26 = 3 ∧
          BranchReach (jumpDistance (r.value inputSection x).1 (r.place inputSection + 4))) := by
        intro both
        exact candidate (Bool.and_eq_true_iff.mpr ⟨both.1, beq_iff_eq.mpr both.2.1⟩)
      rw [if_neg candidate, if_neg absent]
  · rw [no_candidate link r.type r.field jump, if_neg Bool.false_ne_true, if_neg (fun all => jump all.1)]

theorem FieldRel.final_word_lt {link : ElfLink} (r : FieldRel link) (inputSection : ElfSection) (x : BfdVma)
    (short : x.toNat < 2 ^ 32) : (r.finalWord inputSection x).toNat < 2 ^ 32 := by
  rw [r.final_word_eq]
  split
  · exact bal_word_lt _
  · exact store_field_lt _ r.word _ _ short

def genericCall (lib : BfdLib) (order : Endian) (entry : Arelent) (inputSection : Asection) (data : DataPtr)
    (s : RelocState) (symbol : Asymbol) : Option BfdVma :=
  let r := bfdMipsElfGenericReloc lib order entry symbol data inputSection false s
  if r.status = .ok then some (bfdGet32 order (r.state.mem data) entry.address.toNat) else none

structure GlobalCall (link : ElfLink) where
  symndx : Nat
  h : HashEntry
  address : BfdVma
  defined : DefinedAt (.global h) address
  ordinary : gottRefP link (.global h) = false

variable {link : ElfLink}

namespace GlobalCall

variable (c : GlobalCall link)

def target : BfdVma := elfTarget link .rMips26 (.global c.h) c.address

def rel (offset : BfdVma) : FieldRel link where
  type := .rMips26
  offset := offset
  symndx := c.symndx
  ref := .global c.h
  address := c.address
  field := rfl
  defined := c.defined
  ordinary := c.ordinary
  static := nofun

end GlobalCall

variable {σ : Type}

def elfCall (lib : ElfLib) (ops : GotOps σ) (inputSection : ElfSection) (offset : BfdVma) (d : Store) (got : σ)
    (reports : List ElfReport) (small : Bool) (c : GlobalCall link) : Option BfdVma :=
  let run := bfdMipsElfRelocateSection lib link ops inputSection 1 [(c.rel offset).rela 0] d got reports small
  if run.1 = .true ∧ run.2.2.reports = reports then
    some (bfdGet32 link.order run.2.2.contents offset.toNat) else none

def AlikeSilently (a b : Option BfdVma) : Prop := ∃ word, a = some word ∧ b = some word

theorem alike_some (u v : BfdVma) : AlikeSilently (some u) (some v) ↔ u = v := by
  constructor
  · rintro ⟨word, first, second⟩
    exact (Option.some.inj first).trans (Option.some.inj second).symm
  · intro same
    exact ⟨u, rfl, congrArg some same.symm⟩

def jumpField (target : BfdVma) : BfdVma := (target >>> 2) &&& 0xfffff

theorem jump_field_toNat (target : BfdVma) : (jumpField target).toNat = target.toNat / 4 % 2 ^ 20 := by
  have low := BitField.and_low_toNat 20 (by decide) (target >>> 2)
  change (jumpField target).toNat = _ at low
  rw [low, BitVec.toNat_ushiftRight, Nat.shiftRight_eq_div_pow]

theorem jump_field_eq_iff (a b : BfdVma) (alignedA : a.toNat % 4 = 0) (alignedB : b.toNat % 4 = 0) :
    jumpField a = jumpField b ↔ a.toNat % 2 ^ 22 = b.toNat % 2 ^ 22 := by
  rw [← BitVec.toNat_inj, jump_field_toNat, jump_field_toNat]
  omega

def InRegion (target next : BfdVma) : Prop := target >>> 28 = next >>> 28

instance (target next : BfdVma) : Decidable (InRegion target next) :=
  inferInstanceAs (Decidable (target >>> 28 = next >>> 28))

namespace GlobalCall

variable (c : GlobalCall link)

theorem value_eq (offset : BfdVma) (inputSection : ElfSection) (x : BfdVma) (empty : x &&& 0xfffff = 0) :
    (c.rel offset).value inputSection x =
      (jumpField c.target, decide (¬ InRegion c.target (inputSection.base + offset + 4))) := by
  have mask : BitField.mask 64 0 20 = (0xfffff : BfdVma) := by decide
  have addend : wordAddend ((c.rel offset).rela 0) (c.rel offset).howto x = 0 := by
    have shifted : wordAddend ((c.rel offset).rela 0) (c.rel offset).howto x =
      (x &&& BitField.mask 64 0 20) <<< 2 := rfl
    rw [shifted, mask, empty]
    rfl
  have extended : mipsElfSignExtend 0 28 = 0 := by decide
  have region : (c.target >>> 2) >>> 26 = c.target >>> 28 := by
    rw [← BitVec.shiftRight_add]
  have unshifted : (0 : BfdVma) + c.target = c.target := BitVec.zero_add _
  have value : (c.rel offset).value inputSection x = fieldValue .rMips26 false c.target
      (wordAddend ((c.rel offset).rela 0) (c.rel offset).howto x) (inputSection.base + offset) := rfl
  rw [value, addend]
  have dst : (mipsElf32RtypeToHowto .rMips26).dstMask = 0xfffff := rfl
  simp only [fieldValue, extended, unshifted, region, dst, Bool.false_eq_true, if_false, Bool.not_false,
    Bool.true_and, jumpField, Prod.mk.injEq, true_and]
  exact decide_eq_decide.mpr Iff.rfl

theorem final_word_eq_iff (a b : GlobalCall link) (offset : BfdVma) (inputSection : ElfSection) (x : BfdVma)
    (empty : x &&& 0xfffff = 0) :
    (a.rel offset).finalWord inputSection x = (b.rel offset).finalWord inputSection x ↔
      jumpField a.target = jumpField b.target := by
  have howto : (b.rel offset).howto = (a.rel offset).howto := rfl
  have type : (b.rel offset).type = .rMips26 := rfl
  have type' : (a.rel offset).type = .rMips26 := rfl
  have place : (b.rel offset).place inputSection = (a.rel offset).place inputSection := rfl
  have short : ∀ target, (jumpField target).toNat < 2 ^ 20 := by
    intro target
    rw [jump_field_toNat]
    exact Nat.mod_lt _ (by decide)
  have stored : storeField (a.rel offset).howto (jumpField a.target) x =
      storeField (a.rel offset).howto (jumpField b.target) x ↔ jumpField a.target = jumpField b.target := by
    have fields : ∀ target, (jumpField target).extractLsb' 0 20 = (jumpField target).setWidth 20 := by
      intro target
      exact (BitVec.setWidth_eq_extractLsb' (by decide)).symm
    have replaced := BitField.replace_eq_iff 0 20 (by decide : 0 + 20 ≤ 64) x (jumpField a.target)
      (jumpField b.target)
    refine Iff.trans replaced ?_
    rw [fields, fields, ← BitVec.toNat_inj, ← BitVec.toNat_inj, BitVec.toNat_setWidth, BitVec.toNat_setWidth,
      Nat.mod_eq_of_lt (short _), Nat.mod_eq_of_lt (short _)]
  have candidates : ∀ value, branchCandidateP link .rMips26 (storeField (a.rel offset).howto value x) =
      (link.jalToBal && x >>> 26 == 3) := fun value => branch_candidate_jump link value x
  simp only [FieldRel.finalWord, value_eq _ _ _ _ empty, howto, type, type', place, candidates]
  by_cases candidate : (link.jalToBal && x >>> 26 == 3) = true
  · rw [if_pos candidate, if_pos candidate]
    obtain ⟨-, jump⟩ := Bool.and_eq_true_iff.mp candidate
    have opcode : ∀ value, storeField (a.rel offset).howto value x >>> 26 = 3 := fun value =>
      (stored_opcode value x).trans (eq_of_beq jump)
    constructor
    · intro same
      rcases convert_to_branch_inj _ _ _ _ _ (short _) (short _) (opcode _) (opcode _) same with words | values
      · exact stored.mp words
      · exact values
    · intro same
      rw [same]
  · rw [if_neg candidate, if_neg candidate]
    exact stored

end GlobalCall

theorem elf_call_eq (lib : ElfLib) (classes : lib.GpRelativeOnly) (final : link.relocatable = false)
    (ops : GotOps σ) (inputSection : ElfSection) (offset : BfdVma) (d : Store) (got : σ)
    (reports : List ElfReport) (small : Bool) (empty : bfdGet32 link.order d offset.toNat &&& 0xfffff = 0)
    (c : GlobalCall link) :
    elfCall lib ops inputSection offset d got reports small c =
      if InRegion c.target (inputSection.base + offset + 4) then
        some ((c.rel offset).finalWord inputSection (bfdGet32 link.order d offset.toNat)) else none := by
  obtain ⟨name, reported, stored⟩ := (c.rel offset).relocate_section ops lib classes inputSection final d got
    reports small
  have place : (c.rel offset).offset = offset := rfl
  rw [place, c.value_eq offset inputSection _ empty] at reported stored
  simp only [elfCall]
  by_cases region : InRegion c.target (inputSection.base + offset + 4)
  · simp only [region, not_true_eq_false, decide_false, Bool.false_eq_true, if_false, List.append_nil, true_or,
      forall_const] at reported stored
    rw [if_pos ⟨stored.1, reported⟩, if_pos region, stored.2, bfdGet32_put32]
    exact (c.rel offset).final_word_lt inputSection _ (bfdGet32_lt _ _ _)
  · simp only [region, not_false_eq_true, decide_true, if_true] at reported
    rw [if_neg region, if_neg]
    rintro ⟨-, unreported⟩
    rw [reported] at unreported
    simp at unreported

/-- A jump on the generic path, in range of its section and without a separate addend. -/
structure JumpEntry (inputSection : Asection) where
  entry : Arelent
  known : entry.howto = mipsElf32RtypeToHowto .rMips26
  inside : ¬ entry.address > inputSection.limit
  addend : entry.addend = 0

theorem generic_call_eq (lib : BfdLib) (order : Endian) (sums : lib.StoresSum) (silence : lib.NeverComplains)
    (inputSection : Asection) (jump : JumpEntry inputSection) (data : DataPtr) (s : RelocState)
    (symbol : Asymbol) :
    genericCall lib order jump.entry inputSection data s symbol =
      some (BitField.addField 0 20 (bfdGet32 order (s.mem data) jump.entry.address.toNat)
        (symbol.address >>> 2)) := by
  have word : (mipsElf32RtypeToHowto .rMips26).WordField := (field_howto _ rfl).1
  have value : fieldAdjustment jump.entry symbol inputSection false + jump.entry.addend = symbol.address := by
    have absolute : (mipsElf32RtypeToHowto .rMips26).pcRelative = false := rfl
    simp [fieldAdjustment, Asymbol.address, jump.known, absolute, jump.addend]
  have result := generic_reloc_final order sums jump.entry symbol data inputSection s jump.inside
    (jump.known ▸ word) (by rw [jump.known]; rfl)
  dsimp only at result
  rw [value, silence _ _ _ _ _ (by rw [jump.known]; rfl)] at result
  rw [genericCall, result, if_pos rfl, RelocState.setData_mem, jump.known, addToWord_word _ word]
  rfl

/-- When a jump can go wrong in silence: on the generic path, as soon as two targets agree below 4 MiB; on
the ELF path, when both lie in the region of the jump as well. -/
theorem jump_targets_told_apart_iff (bfd : BfdLib) (sums : bfd.StoresSum) (silence : bfd.NeverComplains)
    (lib : ElfLib) (classes : lib.GpRelativeOnly) (link : ElfLink) (final : link.relocatable = false)
    (ops : GotOps σ) :
    (∀ (inputSection : Asection) (jump : JumpEntry inputSection) (data : DataPtr) (s : RelocState)
      (a b : Asymbol), a.address.toNat % 4 = 0 → b.address.toNat % 4 = 0 →
        (¬ AlikeSilently (genericCall bfd link.order jump.entry inputSection data s a)
            (genericCall bfd link.order jump.entry inputSection data s b) ↔
          a.address.toNat % 2 ^ 22 ≠ b.address.toNat % 2 ^ 22)) ∧
    ∀ (inputSection : ElfSection) (offset : BfdVma) (d : Store) (got : σ) (reports : List ElfReport)
      (small : Bool) (a b : GlobalCall link), bfdGet32 link.order d offset.toNat &&& 0xfffff = 0 →
        a.target.toNat % 4 = 0 → b.target.toNat % 4 = 0 →
        (¬ AlikeSilently (elfCall lib ops inputSection offset d got reports small a)
            (elfCall lib ops inputSection offset d got reports small b) ↔
          a.target.toNat % 2 ^ 22 ≠ b.target.toNat % 2 ^ 22 ∨
            ¬ InRegion a.target (inputSection.base + offset + 4) ∨
            ¬ InRegion b.target (inputSection.base + offset + 4)) := by
  constructor
  · intro inputSection jump data s a b alignedA alignedB
    rw [generic_call_eq bfd link.order sums silence, generic_call_eq bfd link.order sums silence, alike_some,
      BitField.addField_eq_iff 0 20 (by decide), ← BitVec.toNat_inj, BitVec.toNat_setWidth,
      BitVec.toNat_setWidth, BitVec.toNat_ushiftRight, BitVec.toNat_ushiftRight, Nat.shiftRight_eq_div_pow,
      Nat.shiftRight_eq_div_pow]
    omega
  · intro inputSection offset d got reports small a b empty alignedA alignedB
    have call := elf_call_eq lib classes final ops inputSection offset d got reports small empty
    rw [call a, call b]
    by_cases regionA : InRegion a.target (inputSection.base + offset + 4)
    · by_cases regionB : InRegion b.target (inputSection.base + offset + 4)
      · rw [if_pos regionA, if_pos regionB, alike_some, GlobalCall.final_word_eq_iff a b offset inputSection _ empty,
          jump_field_eq_iff _ _ alignedA alignedB]
        simp only [regionA, regionB, not_true_eq_false, or_self, or_false, ne_eq]
      · rw [if_neg regionB]
        exact ⟨fun _ => Or.inr (Or.inr regionB), fun _ ⟨_, _, never⟩ => nomatch never⟩
    · rw [if_neg regionA]
      exact ⟨fun _ => Or.inr (Or.inl regionA), fun _ ⟨_, never, _⟩ => nomatch never⟩

def callAt (link : ElfLink) (address : BfdVma) (noVxworks : link.isVxworks = false) : GlobalCall link where
  symndx := 1
  h := ⟨1, "f", .defined, address, some (keptSection 0 0), .standard, true, false, none, false, none, none,
    none, false, true, true, false, false, true, true⟩
  address := address + 0 + 0
  defined := .global _ (keptSection 0 0) (Or.inl rfl) rfl rfl rfl rfl rfl rfl
  ordinary := by simp [gottRefP, noVxworks]

def jumpAt (inputSection : Asection) (inside : ¬ (0 : BfdVma) > inputSection.limit) :
    JumpEntry inputSection where
  entry := relocAt .rMips26 0 (symbolAt 0 0)
  known := rfl
  inside := inside
  addend := rfl

theorem jump_targets_told_apart_near :
    ¬ AlikeSilently
      (elfCall referenceElfLib noGot (keptSection 0x1000 0) 0 (fun _ => 0) () [] false
        (callAt (staticLink .big false) 0x2000 rfl))
      (elfCall referenceElfLib noGot (keptSection 0x1000 0) 0 (fun _ => 0) () [] false
        (callAt (staticLink .big false) 0x3000 rfl)) :=
  ((jump_targets_told_apart_iff referenceLib reference_stores_sum reference_never_complains referenceElfLib
    reference_gp_relative_only (staticLink .big false) rfl noGot).2 (keptSection 0x1000 0) 0 (fun _ => 0) () []
    false (callAt (staticLink .big false) 0x2000 rfl) (callAt (staticLink .big false) 0x3000 rfl)
    (by decide) (by decide) (by decide)).mpr (Or.inl (by decide))

theorem jump_targets_confused :
    AlikeSilently
        (genericCall referenceLib .big (jumpAt (sectionAt 0x1000 8) (by decide)).entry (sectionAt 0x1000 8) 0
          (startState fun _ => 0) (symbolAt 0x2000 0))
        (genericCall referenceLib .big (jumpAt (sectionAt 0x1000 8) (by decide)).entry (sectionAt 0x1000 8) 0
          (startState fun _ => 0) (symbolAt 0x402000 0)) ∧
      AlikeSilently
        (elfCall referenceElfLib noGot (keptSection 0x1000 0) 0 (fun _ => 0) () [] false
          (callAt (staticLink .big false) 0x2000 rfl))
        (elfCall referenceElfLib noGot (keptSection 0x1000 0) 0 (fun _ => 0) () [] false
          (callAt (staticLink .big false) 0x402000 rfl)) :=
  ⟨⟨0x800, by decide, by decide⟩, ⟨0x800, by decide, by decide⟩⟩

end Openisa.Elf
