import Openisa.Elf.CalculateRelocation

/-! Reading the field of a REL relocation, and storing the relocated one. -/

namespace Openisa.Elf

open Openisa.Bfd
open Openisa.Library
open Openisa.Library.ByteStore

def mipsElfObtainContents (order : Endian) (howto : RelocHowto) (rel : InternalRela) (d : Store) : BfdVma :=
  bfdGet order (bfdGetRelocSize howto) d rel.offset.toNat

def mipsElfReadRelAddend (order : Endian) (rel : InternalRela) (howto : RelocHowto) (d : Store) :
    BfdVma × Store :=
  let location := rel.offset.toNat
  let d := bfdMipsElfRelocUnshuffle order rel.type false d location
  let addend := mipsElfObtainContents order howto rel d
  (addend &&& howto.srcMask, bfdMipsElfRelocShuffle order rel.type false d location)

/-- The opcode that turns a jump of this type into one between ISA modes, if it is a jump that can. -/
def jalxOpcode (rType : MipsReloc) (opcode : BfdVma) : Option BfdVma :=
  match rType with
  | .rMips16_26 => if opcode = 0x6 ∨ opcode = 0x7 then some 0x7 else none
  | .rMicromips26S1 => if opcode = 0x3d ∨ opcode = 0x3c then some 0x3c else none
  | _ => if opcode = 0x3 ∨ opcode = 0x1d then some 0x1d else none

def branchCandidateP (link : ElfLink) (rType : MipsReloc) (x : BfdVma) : Bool :=
  (link.jalToBal && rType == .rMips26 && x >>> 26 == 0x3) ||
    (rType == .rMipsJalr && x == 0x0320f809) || (rType == .rMipsJalr && x == 0x03200008)

def convertToBranch (rType : MipsReloc) (value addr x : BfdVma) : BfdVma :=
  let dest := if rType = .rMips26 then value <<< 2 ||| (addr >>> 28) <<< 28 else value
  let off := dest - addr
  if off.toInt ≤ 0x1ffff ∧ off.toInt ≥ -0x20000 then
    let field := (off.sshiftRight 2) &&& 0xffff
    if x = 0x03200008 then 0x10000000 ||| field else 0x04110000 ||| field
  else x

structure PerformResult where
  done : Bool
  contents : Store
  report : Option ElfReport

-- on failure the contents stay unshuffled
def mipsElfPerformRelocation (link : ElfLink) (howto : RelocHowto) (rel : InternalRela) (value : BfdVma)
    (inputSection : ElfSection) (d : Store) (crossModeJump : Bool) : PerformResult :=
  let location := rel.offset.toNat
  let d := bfdMipsElfRelocUnshuffle link.order rel.type false d location
  let x := mipsElfObtainContents link.order howto rel d
  let x := (x &&& ~~~howto.dstMask) ||| (value &&& howto.dstMask)
  let converted : Option BfdVma :=
    if crossModeJump && rel.type.jalRelocP then
      (jalxOpcode rel.type (x >>> 26)).map fun opcode : BfdVma =>
        (x &&& 0x03ffffff) ||| opcode <<< 26
    else some x
  match converted with
  | none => ⟨false, d, some (.error "Unsupported jump between ISA modes")⟩
  | some x =>
      let addr := inputSection.base + rel.offset + 4
      let x :=
        if !link.relocatable && !crossModeJump && branchCandidateP link rel.type x then
          convertToBranch rel.type value addr x
        else x
      let d := bfdPut link.order (bfdGetRelocSize howto) x d location
      ⟨true, bfdMipsElfRelocShuffle link.order rel.type (!link.relocatable) d location, none⟩

def storeField (howto : RelocHowto) (value x : BfdVma) : BfdVma :=
  BitField.replace (BitField.mask 64 howto.bitpos howto.bitsize) x value

theorem store_field_field (howto : RelocHowto) (word : howto.WordField) (value x : BfdVma) :
    (storeField howto value x).extractLsb' howto.bitpos howto.bitsize =
      value.extractLsb' howto.bitpos howto.bitsize :=
  BitField.field_replace _ _ (le_trans word.fits (by decide)) _ _

theorem store_field_outside (howto : RelocHowto) (word : howto.WordField) (value x : BfdVma) :
    storeField howto value x &&& ~~~howto.dstMask = x &&& ~~~howto.dstMask := by
  rw [word.dst]
  exact BitField.replace_outside _ _ _

theorem store_field_lt (howto : RelocHowto) (word : howto.WordField) (value x : BfdVma)
    (short : x.toNat < 2 ^ 32) : (storeField howto value x).toNat < 2 ^ 32 :=
  BitField.replace_lt _ _ 32 word.fits _ _ short

theorem read_rel_addend_plain (order : Endian) (rel : InternalRela) (howto : RelocHowto)
    (word : howto.WordField) (plain : plainOrderP rel.type = true) (d : Store) :
    mipsElfReadRelAddend order rel howto d =
      (bfdGet32 order d rel.offset.toNat &&& BitField.mask 64 howto.bitpos howto.bitsize, d) := by
  have four : bfdGetRelocSize howto = 4 := by simp only [bfdGetRelocSize, word.size]
  simp only [mipsElfReadRelAddend, unshuffle_plain _ _ _ _ _ plain, shuffle_plain _ _ _ _ _ plain,
    mipsElfObtainContents, four, word.src]

theorem perform_relocation_word (link : ElfLink) (howto : RelocHowto) (word : howto.WordField)
    (rel : InternalRela) (plain : plainOrderP rel.type = true) (value : BfdVma) (inputSection : ElfSection)
    (d : Store) :
    let stored := storeField howto value (bfdGet32 link.order d rel.offset.toNat)
    mipsElfPerformRelocation link howto rel value inputSection d false =
      ⟨true, bfdPut32 link.order
        (if !link.relocatable && branchCandidateP link rel.type stored then
          convertToBranch rel.type value (inputSection.base + rel.offset + 4) stored else stored) d
        rel.offset.toNat, none⟩ := by
  have four : bfdGetRelocSize howto = 4 := by simp only [bfdGetRelocSize, word.size]
  simp only [mipsElfPerformRelocation, unshuffle_plain _ _ _ _ _ plain, shuffle_plain _ _ _ _ _ plain,
    mipsElfObtainContents, four, word.dst, Bool.false_and, Bool.false_eq_true, if_false, Bool.not_false,
    Bool.and_true]
  rfl

theorem perform_relocation_partial (link : ElfLink) (howto : RelocHowto) (word : howto.WordField)
    (rel : InternalRela) (plain : plainOrderP rel.type = true) (value : BfdVma) (inputSection : ElfSection)
    (d : Store) (isPartial : link.relocatable = true) :
    mipsElfPerformRelocation link howto rel value inputSection d false =
      ⟨true, bfdPut32 link.order (storeField howto value (bfdGet32 link.order d rel.offset.toNat)) d
        rel.offset.toNat, none⟩ := by
  rw [perform_relocation_word link howto word rel plain, isPartial]
  rfl

end Openisa.Elf
