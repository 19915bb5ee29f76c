import Openisa.Elf.JumpTargets
import Mathlib.Data.BitVec
import Mathlib.Tactic.Ring

/-! One relocation on the generic path and on the ELF path: when both leave the same word and give the
same verdict. -/

namespace Openisa.Elf

open Openisa.Bfd
open Openisa.Library
open Openisa.Library.ByteStore

/-- One relocation as both paths see it: the same place, the same symbol, no separate addend. -/
structure SharedRel (link : ElfLink) where
  rel : FieldRel link
  elfSection : ElfSection
  asection : Asection
  sym : Asymbol
  samePlace : asection.outputSection.vma + asection.outputOffset = elfSection.base
  sameSymbol : sym.address = rel.address
  inside : ¬ rel.offset > asection.limit

structure Linked where
  word : BfdVma
  overflow : Bool
  deriving DecidableEq

def ElfReport.overflowP : ElfReport → Bool
  | .relocOverflow .. => true
  | _ => false

def diagnosticOverflowP : Diagnostic → Bool
  | .relocOverflow .. => true
  | _ => false

namespace SharedRel

variable {link : ElfLink} (r : SharedRel link)

def entry : Arelent := ⟨r.rel.offset, 0, mipsElf32RtypeToHowto r.rel.type, r.sym⟩

def wordIn (d : Store) : BfdVma := bfdGet32 link.order d r.rel.offset.toNat

def elfLinked {σ : Type} (lib : ElfLib) (ops : GotOps σ) (d : Store) (got : σ) (small : Bool) : Linked :=
  let run := bfdMipsElfRelocateSection lib link ops r.elfSection 1 [r.rel.rela 0] d got [] small
  ⟨r.wordIn run.2.2.contents, run.2.2.reports.any ElfReport.overflowP⟩

def genericLinked (ctx : LinkContext) (data : DataPtr) (sameFormat : Bool) (gpEntry : Option LinkHashEntry)
    (d : Store) (s : RelocState) : Linked :=
  let run := bfdElfMipsGetRelocatedSectionContents ctx r.asection data false
    ⟨some d, some [r.entry], sameFormat, gpEntry⟩ ⟨s, [], []⟩
  ⟨r.wordIn (run.2.reloc.mem data), run.2.diagnostics.any diagnosticOverflowP⟩

def shift : BfdVma :=
  if r.rel.howto.pcRelative then r.rel.address - r.rel.place r.elfSection else r.rel.address

theorem elf_linked_eq {σ : Type} (lib : ElfLib) (classes : lib.GpRelativeOnly)
    (final : link.relocatable = false) (accepts : ∀ past report, link.callback past report = true)
    (ops : GotOps σ) (d : Store) (got : σ) (small : Bool) :
    r.elfLinked lib ops d got small =
      ⟨r.rel.finalWord r.elfSection (r.wordIn d), (r.rel.value r.elfSection (r.wordIn d)).2⟩ := by
  obtain ⟨name, reported, stored⟩ := r.rel.relocate_section ops lib classes r.elfSection final d got [] small
  have contents := (stored (Or.inr accepts)).2
  have word : r.wordIn (bfdPut32 link.order (r.rel.finalWord r.elfSection (r.wordIn d)) d r.rel.offset.toNat) =
      r.rel.finalWord r.elfSection (r.wordIn d) :=
    bfdGet32_put32 _ _ _ _ (r.rel.final_word_lt r.elfSection _ (bfdGet32_lt _ _ _))
  have isWord : bfdGet32 link.order d r.rel.offset.toNat = r.wordIn d := rfl
  rw [isWord] at reported contents
  rw [elfLinked, contents, reported, word]
  cases (r.rel.value r.elfSection (r.wordIn d)).2 <;> rfl

theorem entry_field : FieldReloc r.asection r.entry where
  known := by
    have type := field_type r.rel.type r.rel.field
    simp only [entry, type]
  field := by
    have type := field_type r.rel.type r.rel.field
    simp only [entry, type, r.rel.field]
  inside := r.inside

theorem final_value_eq : finalValue r.asection r.entry = r.shift := by
  have symbol := r.sameSymbol
  rw [Asymbol.address] at symbol
  by_cases relative : r.rel.howto.pcRelative = true
  · have relative' : r.entry.howto.pcRelative = true := relative
    simp only [finalValue, fieldAdjustment, relative', shift, relative, if_true, Bool.not_false, Bool.true_or,
      Bool.false_eq_true, if_false]
    rw [← symbol, FieldRel.place, ← r.samePlace]
    simp only [entry]
    ring
  · have absolute' : r.entry.howto.pcRelative = false := Bool.eq_false_iff.mpr relative
    simp only [finalValue, fieldAdjustment, absolute', shift, relative, if_false, Bool.not_false, Bool.true_or,
      Bool.false_eq_true, if_true]
    rw [← symbol]
    simp only [entry]
    ring

theorem generic_linked_eq (ctx : LinkContext) (order : ctx.order = link.order) (sums : ctx.lib.StoresSum)
    (verdicts : ctx.lib.OkOrOverflow) (special : ctx.lib.ReturnsSpecial)
    (accepts : ∀ past d, ctx.callbacks past d = true) (data : DataPtr) (sameFormat : Bool)
    (gpEntry : Option LinkHashEntry) (found : lookupGp (if sameFormat then none else gpEntry) ≠ none)
    (d : Store) (s : RelocState) :
    r.genericLinked ctx data sameFormat gpEntry d s =
      ⟨BitField.addField r.rel.howto.bitpos r.rel.howto.bitsize (r.wordIn d) (r.shift >>> r.rel.howto.rightshift),
        (ctx.lib.relocateContents r.rel.howto link.order r.shift d r.rel.offset.toNat).1 == .overflow⟩ := by
  obtain ⟨⟨gpFound, gp⟩, gp'⟩ := Option.ne_none_iff_exists'.mp found
  have fields := r.entry_field
  obtain ⟨goes, turned⟩ := turn_field special sums verdicts accepts
    (show (LinkOrder.mk r.asection data false gpFound gp).relocatable = false from rfl) r.entry fields
    ⟨s.setData data d, [], []⟩
  have run := get_relocated_single r.asection data false r.entry sameFormat gpEntry gpFound gp gp' d ⟨s, [], []⟩
    goes
  have parent := relocate_parent_field special sums verdicts
    (show (LinkOrder.mk r.asection data false gpFound gp).relocatable = false from rfl) r.entry fields
    (s.setData data d)
  rw [r.final_value_eq, RelocState.setData_mem, order] at parent
  rw [genericLinked, run]
  congr 1
  · rw [turned, RelocState.setData_mem, RelocState.setData_mem, order]
    simp only [installFinal, r.final_value_eq]
    exact addToWord_word _ r.rel.word _ _ _
  · have howto : r.entry.howto = r.rel.howto := rfl
    have address : r.entry.address = r.rel.offset := rfl
    rw [howto, address] at parent
    simp only [LinkState.diagnostics, LinkState.turn, parent, List.nil_append, respond]
    rcases verdicts r.rel.howto link.order r.shift d r.rel.offset.toNat with ok | overflow
    · rw [ok]
      rfl
    · rw [overflow]
      rfl

def fieldOf (x : BfdVma) : Nat := (x.extractLsb' r.rel.howto.bitpos r.rel.howto.bitsize).toNat

end SharedRel

/-- The addend of a branch with `bits` bits as the ELF path reads it: only a sign bit that is set has the
bits above it replaced. -/
def branchAddend (bits : Nat) (addend : Nat) : Int :=
  if addend / 2 ^ (bits - 1) % 2 = 1 then (addend % 2 ^ bits : Nat) - (2 ^ bits : Nat) else addend

/-- When a branch at `p` comes out alike: the generic path puts the distance from `p` to `s` over the right
shift into the field, the ELF path leaves the distance to `t` where it stands. -/
def BranchesAgree (h : RelocHowto) (bits f s t p : Nat) : Prop :=
  let value : Int := t + branchAddend bits (f * 2 ^ (h.bitpos + h.rightshift)) - p
  let words : Int := ((s : Int) - p).bmod (2 ^ 32) / 2 ^ h.rightshift
  value / 2 ^ (h.rightshift + h.bitpos) % 2 ^ h.bitsize =
      (f + ((s : Int) - p) / 2 ^ h.rightshift) % 2 ^ h.bitsize ∧
    (FitsSigned bits (value.bmod (2 ^ 64)) ↔
      FitsSigned h.bitsize words ∧ FitsSigned h.bitsize (words + (f : Int).bmod (2 ^ h.bitsize)))

/-- When a jump at `p` comes out alike: it does not become a branch, and a global target, with the addend,
stays in the region of the next instruction. -/
def JumpsAgree (converts isLocal : Bool) (opcode f s t p : Nat) : Prop :=
  let distance : Int := (4 * ((f + t / 4) % 2 ^ 20) : Nat) - ((p + 4) % 2 ^ 28 : Nat)
  t / 4 % 2 ^ 20 = s / 4 % 2 ^ 20 ∧
    ¬ (converts = true ∧ opcode = 3 ∧ -0x20000 ≤ distance ∧ distance ≤ 0x1ffff) ∧
    (isLocal = false → (4 * f + t) % 2 ^ 64 / 2 ^ 28 = (p + 4) % 2 ^ 64 / 2 ^ 28)

/-- When the two paths agree on a relocation that finds the word `x`. -/
def SharedRel.AgreeWhen {link : ElfLink} (r : SharedRel link) (x : BfdVma) : Prop :=
  let f := r.fieldOf x
  let s := r.rel.address.toNat
  let t := r.rel.target.toNat
  let p := (r.rel.place r.elfSection).toNat
  match r.rel.type with
  | .rMips32 => t % 2 ^ 32 = s % 2 ^ 32
  | .rMips26 => JumpsAgree link.jalToBal r.rel.ref.isLocal (x.toNat / 2 ^ 26) f s t p
  | .rMipsHi16 => (f + t + 2 ^ 15) / 2 ^ 16 % 2 ^ 16 = (f + s / 2 ^ 14) % 2 ^ 18
  | .rMicromipsHi16 => (f + t + 2 ^ 15) / 2 ^ 16 % 2 ^ 16 = (f + s / 2 ^ 12) % 2 ^ 20
  | .rMipsLo16 => t / 2 ^ 6 % 2 ^ 14 = s % 2 ^ 14
  | .rMicromipsLo16 => t / 2 ^ 14 % 2 ^ 12 = s % 2 ^ 12
  | .rMipsPc16 => BranchesAgree (mipsElf32RtypeToHowto .rMipsPc16) 18 f s t p
  | .rMicromipsPc16S1 => BranchesAgree (mipsElf32RtypeToHowto .rMicromipsPc16S1) 17 f s t p
  | _ => True

theorem store_eq_add_iff (h : RelocHowto) (word : h.WordField) (v u x : BfdVma) :
    storeField h v x = BitField.addField h.bitpos h.bitsize x u ↔
      v.toNat / 2 ^ h.bitpos % 2 ^ h.bitsize =
        ((x.extractLsb' h.bitpos h.bitsize).toNat + u.toNat) % 2 ^ h.bitsize := by
  have fits : h.bitpos + h.bitsize ≤ 64 := le_trans word.fits (by decide)
  rw [storeField, BitField.addField, BitField.replace_eq_iff _ _ fits, BitField.field_add _ _ fits,
    ← BitVec.toNat_inj, BitField.toNat_field, BitVec.toNat_add, BitVec.toNat_setWidth, Nat.add_mod_mod]

theorem masked_field (h : RelocHowto) (word : h.WordField) (v : BfdVma) :
    (v &&& h.dstMask).toNat / 2 ^ h.bitpos % 2 ^ h.bitsize = v.toNat / 2 ^ h.bitpos % 2 ^ h.bitsize := by
  have fits : h.bitpos + h.bitsize ≤ 64 := le_trans word.fits (by decide)
  rw [word.dst, ← BitField.toNat_field, BitField.field_and_mask _ _ fits, BitField.toNat_field]

theorem sign_extend_toNat (bits : Nat) (wide : 1 ≤ bits) (fits : bits ≤ 64) (v : BfdVma) :
    (mipsElfSignExtend v bits).toNat =
      if v.toNat / 2 ^ (bits - 1) % 2 = 1 then v.toNat % 2 ^ bits + (2 ^ 64 - 2 ^ bits) else v.toNat := by
  have ones : minusOne = BitVec.allOnes 64 := by decide
  have single : BitField.mask 64 (bits - 1) 1 = (1 : BfdVma) <<< (bits - 1) := by
    rw [BitField.mask, show (BitVec.allOnes 1).setWidth 64 = (1 : BfdVma) by decide]
  have bit : v &&& ((1 : BfdVma) <<< (bits - 1)) ≠ 0 ↔ v.toNat / 2 ^ (bits - 1) % 2 = 1 := by
    have value := BitField.and_mask_toNat (bits - 1) 1 (by omega) v
    rw [single, BitField.toNat_field] at value
    have zero : v &&& ((1 : BfdVma) <<< (bits - 1)) = 0 ↔
        v.toNat / 2 ^ (bits - 1) % 2 ^ 1 * 2 ^ (bits - 1) = 0 := by
      rw [← value, ← BitVec.toNat_inj]
      rfl
    have pos := Nat.two_pow_pos (bits - 1)
    rw [ne_eq, zero]
    constructor
    · intro set
      by_contra clear
      have zero : v.toNat / 2 ^ (bits - 1) % 2 ^ 1 = 0 := by omega
      rw [zero] at set
      exact set (Nat.zero_mul _)
    · intro set zero
      rw [Nat.pow_one, set] at zero
      omega
  rw [mipsElfSignExtend]
  by_cases set : v.toNat / 2 ^ (bits - 1) % 2 = 1
  · rw [if_pos (bit.mpr set), if_pos set, ones, BitField.or_high_toNat bits fits]
  · rw [if_neg (fun isSet => set (bit.mp isSet)), if_neg set]

theorem branch_value_toNat (bits : Nat) (wide : 1 ≤ bits) (fits : bits ≤ 64) (target addend p : BfdVma) :
    ((target + mipsElfSignExtend addend bits - p).toNat : Int) =
      (target.toNat + branchAddend bits addend.toNat - p.toNat) % 2 ^ 64 := by
  have extended := sign_extend_toNat bits wide fits addend
  have bounds : 2 ^ bits ≤ 2 ^ 64 := Nat.pow_le_pow_right (by decide) fits
  rw [BitVec.toNat_sub, BitVec.toNat_add, extended, branchAddend]
  split
  · omega
  · omega

theorem overflow_p_iff (v : BfdVma) (bits : Nat) : mipsElfOverflowP v bits = false ↔ FitsSigned bits v.toInt := by
  simp only [mipsElfOverflowP, FitsSigned, Bool.or_eq_false_iff, decide_eq_false_iff_not]
  omega

theorem word_addend_low (rel : InternalRela) (h : RelocHowto)
    (fits : h.rightshift + h.bitpos + h.bitsize ≤ 64) (low : addendIsHighP rel = false) (x : BfdVma) :
    (wordAddend rel h x).toNat = (x.extractLsb' h.bitpos h.bitsize).toNat * 2 ^ (h.bitpos + h.rightshift) := by
  have below := (x.extractLsb' h.bitpos h.bitsize).isLt
  have small : (x.extractLsb' h.bitpos h.bitsize).toNat * 2 ^ (h.bitpos + h.rightshift) < 2 ^ 64 :=
    calc
      _ < 2 ^ h.bitsize * 2 ^ (h.bitpos + h.rightshift) := Nat.mul_lt_mul_of_pos_right below (Nat.two_pow_pos _)
      _ = 2 ^ (h.bitsize + (h.bitpos + h.rightshift)) := (Nat.pow_add ..).symm
      _ ≤ 2 ^ 64 := Nat.pow_le_pow_right (by decide) (by omega)
  simp only [wordAddend, low, Bool.false_eq_true, if_false]
  rw [BitVec.toNat_shiftLeft, BitField.and_mask_toNat _ _ (by omega), Nat.shiftLeft_eq, Nat.mul_assoc,
    ← Nat.pow_add, Nat.mod_eq_of_lt small]

theorem word_addend_high (rel : InternalRela) (h : RelocHowto) (start : h.bitpos = 0) (fits : h.bitsize ≤ 64)
    (high : addendIsHighP rel = true) (x : BfdVma) :
    (wordAddend rel h x).toNat = (x.extractLsb' h.bitpos h.bitsize).toNat := by
  simp only [wordAddend, high, if_true]
  rw [BitField.and_mask_toNat _ _ (by omega), start, Nat.pow_zero, Nat.mul_one]

theorem low_words_agree_iff (type : MipsReloc) (low : type = .rMips32 ∨ type = .rMipsLo16 ∨ type = .rMicromipsLo16)
    (isLocal : Bool) (target address addend p x : BfdVma) (f : Nat)
    (isField : (x.extractLsb' (mipsElf32RtypeToHowto type).bitpos (mipsElf32RtypeToHowto type).bitsize).toNat = f)
    (isAddend : addend.toNat = f * 2 ^ (mipsElf32RtypeToHowto type).bitpos) :
    let h := mipsElf32RtypeToHowto type
    storeField h (fieldValue type isLocal target addend p).1 x =
        BitField.addField h.bitpos h.bitsize x (address >>> h.rightshift) ↔
      target.toNat / 2 ^ h.bitpos % 2 ^ h.bitsize = address.toNat % 2 ^ h.bitsize := by
  dsimp only
  have word : (mipsElf32RtypeToHowto type).WordField := by
    rcases low with rfl | rfl | rfl <;> exact (field_howto _ rfl).1
  have value : (fieldValue type isLocal target addend p).1 =
      (target + addend) &&& (mipsElf32RtypeToHowto type).dstMask := by
    rcases low with rfl | rfl | rfl <;> rfl
  rw [store_eq_add_iff _ word, value, masked_field _ word, BitVec.toNat_add, isAddend, isField,
    BitVec.toNat_ushiftRight]
  rcases low with rfl | rfl | rfl
  · change (_ + f * 2 ^ 0) % 2 ^ 64 / 2 ^ 0 % 2 ^ 32 = (f + address.toNat) % 2 ^ 32 ↔
      _ / 2 ^ 0 % 2 ^ 32 = _ % 2 ^ 32
    omega
  · change (_ + f * 2 ^ 6) % 2 ^ 64 / 2 ^ 6 % 2 ^ 14 = (f + address.toNat) % 2 ^ 14 ↔
      _ / 2 ^ 6 % 2 ^ 14 = _ % 2 ^ 14
    omega
  · change (_ + f * 2 ^ 14) % 2 ^ 64 / 2 ^ 14 % 2 ^ 12 = (f + address.toNat) % 2 ^ 12 ↔
      _ / 2 ^ 14 % 2 ^ 12 = _ % 2 ^ 12
    omega

/-- High halves: one path splits off the bits above the low field, the other rounds at 16 bits. -/
theorem high_words_agree_iff (type : MipsReloc) (high : type = .rMipsHi16 ∨ type = .rMicromipsHi16)
    (isLocal : Bool) (target address addend p x : BfdVma) (f : Nat)
    (isField : (x.extractLsb' (mipsElf32RtypeToHowto type).bitpos (mipsElf32RtypeToHowto type).bitsize).toNat = f)
    (isAddend : addend.toNat = f) :
    let h := mipsElf32RtypeToHowto type
    storeField h (fieldValue type isLocal target addend p).1 x =
        BitField.addField h.bitpos h.bitsize x (address >>> h.rightshift) ↔
      (f + target.toNat + 2 ^ 15) / 2 ^ 16 % 2 ^ 16 = (f + address.toNat / 2 ^ h.rightshift) % 2 ^ h.bitsize := by
  dsimp only
  have word : (mipsElf32RtypeToHowto type).WordField := by
    rcases high with rfl | rfl <;> exact (field_howto _ rfl).1
  have value : (fieldValue type isLocal target addend p).1 =
      mipsElfHigh (addend + target) &&& (mipsElf32RtypeToHowto type).dstMask := by
    rcases high with rfl | rfl <;> rfl
  rw [store_eq_add_iff _ word, value, masked_field _ word, mips_elf_high_toNat, BitVec.toNat_add, isAddend,
    isField, BitVec.toNat_ushiftRight, Nat.shiftRight_eq_div_pow]
  have inner := fun y => SplitSum.mod_pow_div_mod 64 16 16 (by decide) y
  rw [← inner, Nat.mod_add_mod, inner]
  rcases high with rfl | rfl
  · change (f + target.toNat + 2 ^ 15) / 2 ^ 16 % 2 ^ 16 / 2 ^ 0 % 2 ^ 18 =
        (f + address.toNat / 2 ^ 14) % 2 ^ 18 ↔
      (f + target.toNat + 2 ^ 15) / 2 ^ 16 % 2 ^ 16 = (f + address.toNat / 2 ^ 14) % 2 ^ 18
    omega
  · change (f + target.toNat + 2 ^ 15) / 2 ^ 16 % 2 ^ 16 / 2 ^ 0 % 2 ^ 20 =
        (f + address.toNat / 2 ^ 12) % 2 ^ 20 ↔
      (f + target.toNat + 2 ^ 15) / 2 ^ 16 % 2 ^ 16 = (f + address.toNat / 2 ^ 12) % 2 ^ 20
    omega

def branchBits : MipsReloc → Nat
  | .rMipsPc16 => 18
  | _ => 17

theorem branch_words_agree_iff (type : MipsReloc) (branch : type = .rMipsPc16 ∨ type = .rMicromipsPc16S1)
    (isLocal : Bool) (target address addend p x : BfdVma) (f : Nat)
    (isField : (x.extractLsb' (mipsElf32RtypeToHowto type).bitpos (mipsElf32RtypeToHowto type).bitsize).toNat = f)
    (isAddend : addend.toNat = f * 2 ^ ((mipsElf32RtypeToHowto type).bitpos +
      (mipsElf32RtypeToHowto type).rightshift)) :
    let h := mipsElf32RtypeToHowto type
    storeField h (fieldValue type isLocal target addend p).1 x =
        BitField.addField h.bitpos h.bitsize x ((address - p) >>> h.rightshift) ↔
      ((target.toNat + branchAddend (branchBits type) (f * 2 ^ (h.bitpos + h.rightshift)) - p.toNat : Int) /
          2 ^ (h.rightshift + h.bitpos)) % 2 ^ h.bitsize =
        (f + ((address.toNat : Int) - p.toNat) / 2 ^ h.rightshift) % 2 ^ h.bitsize := by
  dsimp only
  have word : (mipsElf32RtypeToHowto type).WordField := by
    rcases branch with rfl | rfl <;> exact (field_howto _ rfl).1
  have value : (fieldValue type isLocal target addend p).1 =
      (target + mipsElfSignExtend addend (branchBits type) - p) >>> (mipsElf32RtypeToHowto type).rightshift &&&
        (mipsElf32RtypeToHowto type).dstMask := by
    rcases branch with rfl | rfl <;> rfl
  have bits : 1 ≤ branchBits type ∧ branchBits type ≤ 64 := by
    rcases branch with rfl | rfl <;> decide
  have distance := branch_value_toNat (branchBits type) bits.1 bits.2 target addend p
  rw [isAddend] at distance
  rw [store_eq_add_iff _ word, value, masked_field _ word, isField, BitVec.toNat_ushiftRight,
    BitVec.toNat_ushiftRight, BitVec.toNat_sub address p, Nat.shiftRight_eq_div_pow, Nat.shiftRight_eq_div_pow]
  generalize branchAddend (branchBits type) _ = extended at distance ⊢
  generalize (target + mipsElfSignExtend addend (branchBits type) - p).toNat = sum at distance ⊢
  have start := p.isLt
  rcases branch with rfl | rfl
  · change sum / 2 ^ 2 / 2 ^ 12 % 2 ^ 14 = (f + (2 ^ 64 - p.toNat + address.toNat) % 2 ^ 64 / 2 ^ 2) % 2 ^ 14 ↔
      ((target.toNat + extended - p.toNat : Int) / 2 ^ 14) % 2 ^ 14 =
        (f + ((address.toNat : Int) - p.toNat) / 2 ^ 2) % 2 ^ 14
    omega
  · change sum / 2 ^ 2 / 2 ^ 0 % 2 ^ 16 = (f + (2 ^ 64 - p.toNat + address.toNat) % 2 ^ 64 / 2 ^ 2) % 2 ^ 16 ↔
      ((target.toNat + extended - p.toNat : Int) / 2 ^ 2) % 2 ^ 16 =
        (f + ((address.toNat : Int) - p.toNat) / 2 ^ 2) % 2 ^ 16
    omega

theorem bmod_of_emod (n : Nat) (x : Int) (y : Nat) (same : (y : Int) = x % n) : (y : Int).bmod n = x.bmod n := by
  rw [same]
  exact Int.emod_bmod x n

theorem signed_address_sub (a b : BfdVma) :
    signedAddress (a - b) = ((a.toNat : Int) - b.toNat).bmod (2 ^ 32) := by
  rw [signedAddress, BitVec.toInt_eq_toNat_bmod]
  apply bmod_of_emod
  have start := b.isLt
  rw [BitVec.toNat_setWidth, BitVec.toNat_sub]
  omega

theorem branch_verdicts_agree_iff (lib : BfdLib) (checks : lib.ChecksSigned) (order : Endian) (type : MipsReloc)
    (branch : type = .rMipsPc16 ∨ type = .rMicromipsPc16S1) (isLocal : Bool)
    (target address addend p : BfdVma) (d : Store) (loc f : Nat)
    (isField : ((bfdGet32 order d loc).extractLsb' (mipsElf32RtypeToHowto type).bitpos
      (mipsElf32RtypeToHowto type).bitsize).toNat = f)
    (isAddend : addend.toNat = f * 2 ^ ((mipsElf32RtypeToHowto type).bitpos +
      (mipsElf32RtypeToHowto type).rightshift)) :
    let h := mipsElf32RtypeToHowto type
    let words : Int := ((address.toNat : Int) - p.toNat).bmod (2 ^ 32) / 2 ^ h.rightshift
    (fieldValue type isLocal target addend p).2 =
        ((lib.relocateContents h order (address - p) d loc).1 == .overflow) ↔
      (FitsSigned (branchBits type) ((target.toNat + branchAddend (branchBits type)
          (f * 2 ^ (h.bitpos + h.rightshift)) - p.toNat : Int).bmod (2 ^ 64)) ↔
        FitsSigned h.bitsize words ∧ FitsSigned h.bitsize (words + (f : Int).bmod (2 ^ h.bitsize))) := by
  dsimp only
  have word : (mipsElf32RtypeToHowto type).WordField := by
    rcases branch with rfl | rfl <;> exact (field_howto _ rfl).1
  have signed : (mipsElf32RtypeToHowto type).complainOnOverflow = .signed := by
    rcases branch with rfl | rfl <;> rfl
  have value : (fieldValue type isLocal target addend p).2 =
      mipsElfOverflowP (target + mipsElfSignExtend addend (branchBits type) - p) (branchBits type) := by
    rcases branch with rfl | rfl <;> rfl
  have bits : 1 ≤ branchBits type ∧ branchBits type ≤ 64 := by
    rcases branch with rfl | rfl <;> decide
  have distance := branch_value_toNat (branchBits type) bits.1 bits.2 target addend p
  rw [isAddend] at distance
  have elf := overflow_p_iff (target + mipsElfSignExtend addend (branchBits type) - p) (branchBits type)
  rw [BitVec.toInt_eq_toNat_bmod, bmod_of_emod _ _ _ distance] at elf
  have generic := checks (mipsElf32RtypeToHowto type) order (address - p) d loc signed word
  rw [signed_address_sub, BitVec.toInt_eq_toNat_bmod, isField] at generic
  rw [value, ← elf, iff_not_comm.mp generic]
  generalize mipsElfOverflowP _ _ = overflows
  generalize (lib.relocateContents _ order _ d loc).1 = status
  by_cases exceeds : status = .overflow
  · rw [exceeds]
    cases overflows <;> decide
  · rw [beq_eq_false_iff_ne.mpr exceeds]
    simp only [exceeds, not_false_eq_true, iff_true]

/-- The sum of a jump's addend and target; a local jump has the region of its place set on top. -/
theorem jump_sum_toNat (isLocal : Bool) (target addend p : BfdVma) (f : Nat) (isAddend : addend.toNat = f * 2 ^ 2)
    (short : f < 2 ^ 20) :
    ∃ region, ((if isLocal then addend ||| ((p + 4) &&& 0xf0000000) else mipsElfSignExtend addend 28) +
        target).toNat = (4 * f + region * 2 ^ 28 + target.toNat) % 2 ^ 64 ∧ (isLocal = false → region = 0) := by
  cases isLocal with
  | true =>
      have mask : BitField.mask 64 28 4 = (0xf0000000 : BfdVma) := by decide
      have region := BitField.and_mask_toNat 28 4 (by decide) (p + 4)
      rw [mask] at region
      refine ⟨((p + 4).extractLsb' 28 4).toNat, ?_, nofun⟩
      rw [if_pos rfl, BitVec.toNat_add, BitVec.toNat_or, region, isAddend, Nat.or_comm, ← Nat.shiftLeft_eq,
        ← Nat.shiftLeft_add_eq_or_of_lt (by omega), Nat.shiftLeft_eq]
      congr 1
      omega
  | false =>
      have extended := sign_extend_toNat 28 (by decide) (by decide) addend
      rw [isAddend, if_neg (by omega)] at extended
      refine ⟨0, ?_, fun _ => rfl⟩
      rw [if_neg Bool.false_ne_true, BitVec.toNat_add, extended]
      congr 1
      omega

theorem jump_value_toNat (isLocal : Bool) (target addend p : BfdVma) (f : Nat) (isAddend : addend.toNat = f * 2 ^ 2)
    (short : f < 2 ^ 20) :
    (fieldValue .rMips26 isLocal target addend p).1.toNat = (f + target.toNat / 4) % 2 ^ 20 := by
  obtain ⟨region, sum, -⟩ := jump_sum_toNat isLocal target addend p f isAddend short
  have low := BitField.and_low_toNat 20 (by decide)
    (((if isLocal then addend ||| ((p + 4) &&& 0xf0000000) else mipsElfSignExtend addend 28) + target) >>> 2)
  rw [BitVec.toNat_ushiftRight, sum, Nat.shiftRight_eq_div_pow] at low
  refine low.trans ?_
  omega

theorem jump_verdict (isLocal : Bool) (target addend p : BfdVma) (f : Nat) (isAddend : addend.toNat = f * 2 ^ 2)
    (short : f < 2 ^ 20) :
    (fieldValue .rMips26 isLocal target addend p).2 = false ↔
      (isLocal = false → (4 * f + target.toNat) % 2 ^ 64 / 2 ^ 28 = (p.toNat + 4) % 2 ^ 64 / 2 ^ 28) := by
  obtain ⟨region, sum, none⟩ := jump_sum_toNat isLocal target addend p f isAddend short
  simp only [fieldValue]
  cases isLocal with
  | true => simp
  | false =>
      rw [none rfl] at sum
      simp only [Bool.false_eq_true, if_false, Bool.not_false, Bool.true_and, decide_eq_false_iff_not, not_not,
        forall_const] at sum ⊢
      rw [← BitVec.toNat_inj, BitVec.toNat_ushiftRight, BitVec.toNat_ushiftRight, BitVec.toNat_ushiftRight, sum,
        BitVec.toNat_add, Nat.shiftRight_eq_div_pow, Nat.shiftRight_eq_div_pow, Nat.shiftRight_eq_div_pow,
        Nat.div_div_eq_div_mul, Nat.zero_mul, Nat.add_zero]
      exact Iff.rfl

theorem jump_reach_iff (value addr : BfdVma) (short : value.toNat < 2 ^ 20) :
    BranchReach (jumpDistance value addr) ↔
      -0x20000 ≤ ((4 * value.toNat : Nat) : Int) - (addr.toNat % 2 ^ 28 : Nat) ∧
        ((4 * value.toNat : Nat) : Int) - (addr.toNat % 2 ^ 28 : Nat) ≤ 0x1ffff := by
  have distance := jump_distance_toNat value addr short
  have bound := addr.isLt
  rw [BranchReach, BitVec.toInt_eq_toNat_cond, distance]
  split <;> omega

theorem jump_words_agree_iff (isLocal : Bool) (target address addend p x : BfdVma) (f : Nat)
    (isField : (x.extractLsb' 0 20).toNat = f) (isAddend : addend.toNat = f * 2 ^ 2) :
    storeField (mipsElf32RtypeToHowto .rMips26) (fieldValue .rMips26 isLocal target addend p).1 x =
        BitField.addField 0 20 x (address >>> 2) ↔
      target.toNat / 4 % 2 ^ 20 = address.toNat / 4 % 2 ^ 20 := by
  have short : f < 2 ^ 20 := isField ▸ (x.extractLsb' 0 20).isLt
  have stored := store_eq_add_iff (mipsElf32RtypeToHowto .rMips26) (field_howto _ rfl).1
    (fieldValue .rMips26 isLocal target addend p).1 (address >>> 2) x
  refine stored.trans ?_
  rw [jump_value_toNat isLocal target addend p f isAddend short, BitVec.toNat_ushiftRight,
    Nat.shiftRight_eq_div_pow]
  change (f + target.toNat / 4) % 2 ^ 20 / 2 ^ 0 % 2 ^ 20 =
    ((x.extractLsb' 0 20).toNat + address.toNat / 2 ^ 2) % 2 ^ 20 ↔ _
  rw [isField]
  omega

/-- The two runs agree when the word and the verdict of the ELF path are those of the generic path. -/
def SharedRel.SameWord {link : ElfLink} (r : SharedRel link) (x : BfdVma) : Prop :=
  r.rel.finalWord r.elfSection x =
    BitField.addField r.rel.howto.bitpos r.rel.howto.bitsize x (r.shift >>> r.rel.howto.rightshift)

theorem SharedRel.same_word_stored {link : ElfLink} (r : SharedRel link) (x : BfdVma)
    (noJump : r.rel.type ≠ .rMips26) :
    r.SameWord x ↔ storeField r.rel.howto (r.rel.value r.elfSection x).1 x =
      BitField.addField r.rel.howto.bitpos r.rel.howto.bitsize x (r.shift >>> r.rel.howto.rightshift) := by
  rw [SameWord, r.rel.final_word_eq, if_neg (fun all => noJump all.1)]

theorem SharedRel.same_word_jump {link : ElfLink} (r : SharedRel link) (x : BfdVma)
    (jump : r.rel.type = .rMips26) :
    r.SameWord x ↔
      ¬ (link.jalToBal = true ∧ x >>> 26 = 3 ∧
          BranchReach (jumpDistance (r.rel.value r.elfSection x).1 (r.rel.place r.elfSection + 4))) ∧
        storeField r.rel.howto (r.rel.value r.elfSection x).1 x =
          BitField.addField r.rel.howto.bitpos r.rel.howto.bitsize x (r.shift >>> r.rel.howto.rightshift) := by
  have howto : r.rel.howto = mipsElf32RtypeToHowto .rMips26 := by rw [FieldRel.howto, jump]
  rw [SameWord, r.rel.final_word_eq]
  simp only [jump, true_and]
  split
  · rename_i converts
    constructor
    · intro same
      have opcode := stored_opcode ((x &&& BitField.mask 64 0 20) + (r.shift >>> 2) <<< 0) x
      have kept : BitField.addField r.rel.howto.bitpos r.rel.howto.bitsize x
          (r.shift >>> r.rel.howto.rightshift) >>> 26 = x >>> 26 := by
        rw [howto]
        exact opcode
      rw [← same, bal_word_opcode, converts.2.1] at kept
      exact absurd kept (by decide)
    · intro both
      exact absurd converts both.1
  · rename_i stays
    exact ⟨fun same => ⟨stays, same⟩, fun both => both.2⟩

theorem SharedRel.shift_absolute {link : ElfLink} (r : SharedRel link) (absolute : r.rel.howto.pcRelative = false) :
    r.shift = r.rel.address := by
  rw [shift, absolute, if_neg Bool.false_ne_true]

theorem quiet_verdict (lib : BfdLib) (silence : lib.NeverComplains) (h : RelocHowto)
    (dont : h.complainOnOverflow = .dont) (order : Endian) (v : BfdVma) (d : Store) (loc : Nat) :
    ((lib.relocateContents h order v d loc).1 == .overflow) = false := by
  rw [silence h order v d loc dont]
  rfl

namespace SharedRel

variable {link : ElfLink} (r : SharedRel link) (lib : BfdLib)

def Agrees (d : Store) : Prop :=
  r.SameWord (r.wordIn d) ∧ (r.rel.value r.elfSection (r.wordIn d)).2 =
    ((lib.relocateContents r.rel.howto link.order r.shift d r.rel.offset.toNat).1 == .overflow)

theorem low_addend (low : addendIsHighP (r.rel.rela 0) = false) (x : BfdVma) :
    (wordAddend (r.rel.rela 0) r.rel.howto x).toNat =
      r.fieldOf x * 2 ^ (r.rel.howto.bitpos + r.rel.howto.rightshift) :=
  word_addend_low (r.rel.rela 0) r.rel.howto (field_fits r.rel.type r.rel.field) low x

theorem low_agree_iff (silence : lib.NeverComplains)
    (low : r.rel.type = .rMips32 ∨ r.rel.type = .rMipsLo16 ∨ r.rel.type = .rMicromipsLo16) (d : Store) :
    r.Agrees lib d ↔ r.rel.target.toNat / 2 ^ r.rel.howto.bitpos % 2 ^ r.rel.howto.bitsize =
      r.rel.address.toNat % 2 ^ r.rel.howto.bitsize := by
  have facts : r.rel.type ≠ .rMips26 ∧ addendIsHighP (r.rel.rela 0) = false ∧
      r.rel.howto.pcRelative = false ∧ r.rel.howto.complainOnOverflow = .dont ∧
      r.rel.howto.rightshift = 0 ∧ ∀ a p, (fieldValue r.rel.type r.rel.ref.isLocal r.rel.target a p).2 = false := by
    rw [FieldRel.howto, addendIsHighP, FieldRel.rela]
    rcases low with type | type | type <;> rw [type] <;>
      exact ⟨by decide, rfl, rfl, rfl, rfl, fun _ _ => rfl⟩
  obtain ⟨noJump, isLow, absolute, dont, unshifted, silent⟩ := facts
  have addend := r.low_addend isLow (r.wordIn d)
  rw [unshifted, Nat.add_zero] at addend
  have words := low_words_agree_iff r.rel.type low r.rel.ref.isLocal r.rel.target r.rel.address
    (wordAddend (r.rel.rela 0) r.rel.howto (r.wordIn d)) (r.rel.place r.elfSection) (r.wordIn d) _ rfl addend
  rw [Agrees, r.same_word_stored _ noJump, r.shift_absolute absolute, quiet_verdict lib silence _ dont,
    FieldRel.value, silent]
  exact (and_iff_left rfl).trans words

theorem high_agree_iff (silence : lib.NeverComplains)
    (high : r.rel.type = .rMipsHi16 ∨ r.rel.type = .rMicromipsHi16) (d : Store) :
    r.Agrees lib d ↔ (r.fieldOf (r.wordIn d) + r.rel.target.toNat + 2 ^ 15) / 2 ^ 16 % 2 ^ 16 =
      (r.fieldOf (r.wordIn d) + r.rel.address.toNat / 2 ^ r.rel.howto.rightshift) % 2 ^ r.rel.howto.bitsize := by
  have facts : r.rel.type ≠ .rMips26 ∧ addendIsHighP (r.rel.rela 0) = true ∧
      r.rel.howto.pcRelative = false ∧ r.rel.howto.complainOnOverflow = .dont ∧ r.rel.howto.bitpos = 0 ∧
      ∀ a p, (fieldValue r.rel.type r.rel.ref.isLocal r.rel.target a p).2 = false := by
    rw [FieldRel.howto, addendIsHighP, FieldRel.rela]
    rcases high with type | type <;> rw [type] <;> exact ⟨by decide, rfl, rfl, rfl, rfl, fun _ _ => rfl⟩
  obtain ⟨noJump, isHigh, absolute, dont, start, silent⟩ := facts
  have addend := word_addend_high (r.rel.rela 0) r.rel.howto start
    (le_trans (Nat.le_add_left _ _) (le_trans r.rel.word.fits (by decide))) isHigh (r.wordIn d)
  have words := high_words_agree_iff r.rel.type high r.rel.ref.isLocal r.rel.target r.rel.address
    (wordAddend (r.rel.rela 0) r.rel.howto (r.wordIn d)) (r.rel.place r.elfSection) (r.wordIn d) _ rfl addend
  rw [Agrees, r.same_word_stored _ noJump, r.shift_absolute absolute, quiet_verdict lib silence _ dont,
    FieldRel.value, silent]
  exact (and_iff_left rfl).trans words

theorem branch_agree_iff (checks : lib.ChecksSigned)
    (branch : r.rel.type = .rMipsPc16 ∨ r.rel.type = .rMicromipsPc16S1) (d : Store) :
    r.Agrees lib d ↔ BranchesAgree r.rel.howto (branchBits r.rel.type) (r.fieldOf (r.wordIn d))
      r.rel.address.toNat r.rel.target.toNat (r.rel.place r.elfSection).toNat := by
  have facts : r.rel.type ≠ .rMips26 ∧ addendIsHighP (r.rel.rela 0) = false ∧
      r.rel.howto.pcRelative = true := by
    rw [FieldRel.howto, addendIsHighP, FieldRel.rela]
    rcases branch with type | type <;> rw [type] <;> exact ⟨by decide, rfl, rfl⟩
  obtain ⟨noJump, isLow, relative⟩ := facts
  have addend := r.low_addend isLow (r.wordIn d)
  have words := branch_words_agree_iff r.rel.type branch r.rel.ref.isLocal r.rel.target r.rel.address
    (wordAddend (r.rel.rela 0) r.rel.howto (r.wordIn d)) (r.rel.place r.elfSection) (r.wordIn d) _ rfl addend
  have verdicts := branch_verdicts_agree_iff lib checks link.order r.rel.type branch r.rel.ref.isLocal
    r.rel.target r.rel.address (wordAddend (r.rel.rela 0) r.rel.howto (r.wordIn d)) (r.rel.place r.elfSection)
    d r.rel.offset.toNat _ rfl addend
  rw [Agrees, r.same_word_stored _ noJump, shift, relative, if_pos rfl, FieldRel.value]
  exact and_congr words verdicts

theorem jump_agree_iff (silence : lib.NeverComplains) (jump : r.rel.type = .rMips26) (d : Store) :
    r.Agrees lib d ↔ JumpsAgree link.jalToBal r.rel.ref.isLocal ((r.wordIn d).toNat / 2 ^ 26)
      (r.fieldOf (r.wordIn d)) r.rel.address.toNat r.rel.target.toNat (r.rel.place r.elfSection).toNat := by
  have howto : r.rel.howto = mipsElf32RtypeToHowto .rMips26 := by rw [FieldRel.howto, jump]
  have isLow : addendIsHighP (r.rel.rela 0) = false := by
    rw [addendIsHighP, FieldRel.rela, jump]
    rfl
  have field : ((r.wordIn d).extractLsb' 0 20).toNat = r.fieldOf (r.wordIn d) := by
    rw [fieldOf, howto]
    rfl
  have short : r.fieldOf (r.wordIn d) < 2 ^ 20 := field ▸ ((r.wordIn d).extractLsb' 0 20).isLt
  have addend := r.low_addend isLow (r.wordIn d)
  rw [howto] at addend
  have value : r.rel.value r.elfSection (r.wordIn d) = fieldValue .rMips26 r.rel.ref.isLocal r.rel.target
      (wordAddend (r.rel.rela 0) (mipsElf32RtypeToHowto .rMips26) (r.wordIn d)) (r.rel.place r.elfSection) := by
    rw [FieldRel.value, jump, howto]
  have words := jump_words_agree_iff r.rel.ref.isLocal r.rel.target r.rel.address _
    (r.rel.place r.elfSection) (r.wordIn d) _ field addend
  have verdict := jump_verdict r.rel.ref.isLocal r.rel.target _ (r.rel.place r.elfSection) _ addend short
  have stored := jump_value_toNat r.rel.ref.isLocal r.rel.target _ (r.rel.place r.elfSection) _ addend short
  have reach := jump_reach_iff (r.rel.value r.elfSection (r.wordIn d)).1 (r.rel.place r.elfSection + 4) (by
    rw [value, stored]
    exact Nat.mod_lt _ (by decide))
  have next : (r.rel.place r.elfSection + 4).toNat % 2 ^ 28 = ((r.rel.place r.elfSection).toNat + 4) % 2 ^ 28 := by
    rw [BitVec.toNat_add]
    change ((r.rel.place r.elfSection).toNat + 4) % 2 ^ 64 % 2 ^ 28 = _
    omega
  have opcode : r.wordIn d >>> 26 = 3 ↔ (r.wordIn d).toNat / 2 ^ 26 = 3 := by
    rw [← BitVec.toNat_inj, BitVec.toNat_ushiftRight, Nat.shiftRight_eq_div_pow]
    rfl
  rw [next, value, stored] at reach
  rw [Agrees, r.same_word_jump _ jump, r.shift_absolute (by rw [howto]; rfl),
    quiet_verdict lib silence _ (by rw [howto]; rfl), value, verdict, reach, opcode, howto, JumpsAgree]
  constructor
  · intro both
    exact ⟨words.mp both.1.2, both.1.1, both.2⟩
  · intro all
    exact ⟨⟨all.2.1, words.mpr all.1⟩, all.2.2⟩

theorem agrees_iff (silence : lib.NeverComplains) (checks : lib.ChecksSigned) (d : Store) :
    r.Agrees lib d ↔ r.AgreeWhen (r.wordIn d) := by
  rw [AgreeWhen]
  have howto : r.rel.howto = mipsElf32RtypeToHowto r.rel.type := rfl
  rcases field_cases r.rel.type r.rel.field with type | type | type | type | type | type | type | type
  · rw [r.low_agree_iff lib silence (Or.inl type), howto, type]
    change _ / 2 ^ 0 % 2 ^ 32 = _ % 2 ^ 32 ↔ _
    rw [Nat.pow_zero, Nat.div_one]
  · rw [r.jump_agree_iff lib silence type, type]
  · rw [r.high_agree_iff lib silence (Or.inl type), howto, type]
    rfl
  · rw [r.low_agree_iff lib silence (Or.inr (Or.inl type)), howto, type]
    rfl
  · rw [r.branch_agree_iff lib checks (Or.inl type), howto, type]
    rfl
  · rw [r.high_agree_iff lib silence (Or.inr type), howto, type]
    rfl
  · rw [r.low_agree_iff lib silence (Or.inr (Or.inr type)), howto, type]
    rfl
  · rw [r.branch_agree_iff lib checks (Or.inr type), howto, type]
    rfl

end SharedRel

/-- Both paths leave the same word and the same verdict exactly when `AgreeWhen` holds of the word that
the relocation finds. -/
theorem link_paths_agree_iff {σ : Type} (lib : ElfLib) (classes : lib.GpRelativeOnly) (link : ElfLink)
    (final : link.relocatable = false) (elfAccepts : ∀ past report, link.callback past report = true)
    (ops : GotOps σ) (ctx : LinkContext) (order : ctx.order = link.order) (sums : ctx.lib.StoresSum)
    (verdicts : ctx.lib.OkOrOverflow) (silence : ctx.lib.NeverComplains) (checks : ctx.lib.ChecksSigned)
    (special : ctx.lib.ReturnsSpecial) (accepts : ∀ past d, ctx.callbacks past d = true) (r : SharedRel link)
    (data : DataPtr) (sameFormat : Bool) (gpEntry : Option LinkHashEntry)
    (found : lookupGp (if sameFormat then none else gpEntry) ≠ none) (d : Store) (got : σ) (small : Bool)
    (s : RelocState) :
    r.elfLinked lib ops d got small = r.genericLinked ctx data sameFormat gpEntry d s ↔
      r.AgreeWhen (r.wordIn d) := by
  rw [r.elf_linked_eq lib classes final elfAccepts,
    r.generic_linked_eq ctx order sums verdicts special accepts data sameFormat gpEntry found,
    Linked.mk.injEq, ← r.agrees_iff ctx.lib silence checks]
  rfl

/-- A relocation at the start of a section at 0x1000, against a local symbol at `value`. -/
def sharedAt (type : MipsReloc) (field : fieldRelocP type = true) (value : BfdVma) :
    SharedRel (staticLink .big false) where
  rel :=
    { type := type
      offset := 0
      symndx := 1
      ref := .local ⟨"f", value, false, .standard⟩ (keptSection 0 0) none none
      address := (keptSection 0 0).base + value
      field := field
      defined := .local _ _ _ rfl rfl rfl rfl
      ordinary := rfl
      static := fun _ => ⟨rfl, rfl⟩ }
  elfSection := keptSection 0x1000 0
  asection := sectionAt 0x1000 8
  sym := symbolAt 0 value
  samePlace := rfl
  sameSymbol := rfl
  inside := by simp [sectionAt]

theorem link_paths_agree_word :
    (sharedAt .rMips32 rfl 0x2000).elfLinked referenceElfLib noGot (fun _ => 0) () false =
      (sharedAt .rMips32 rfl 0x2000).genericLinked referenceContext 0 true none (fun _ => 0)
        (startState fun _ => 0) :=
  (link_paths_agree_iff referenceElfLib reference_gp_relative_only (staticLink .big false) rfl (fun _ _ => rfl)
    noGot referenceContext rfl reference_stores_sum reference_ok_or_overflow reference_never_complains
    reference_checks_signed reference_returns_special (fun _ _ => rfl)
    (sharedAt .rMips32 rfl 0x2000) 0 true none (by decide) (fun _ => 0) () false
    (startState fun _ => 0)).mpr rfl

/-- The low half of 0x2000: the generic path writes the field 0x2000, the ELF path 0x80. -/
theorem link_paths_differ :
    (sharedAt .rMipsLo16 rfl 0x2000).elfLinked referenceElfLib noGot (fun _ => 0) () false ≠
      (sharedAt .rMipsLo16 rfl 0x2000).genericLinked referenceContext 0 true none (fun _ => 0)
        (startState fun _ => 0) := by
  intro same
  have word := congrArg Linked.word same
  revert word
  decide

end Openisa.Elf
