import Openisa.Bfd.FinalLink
import Openisa.Library.SplitSum

/-! The two halves of an address, in the fields of an `ldihi` and an `ldi`, and the address that a
final link leaves in them. -/

namespace Openisa.Bfd

open Openisa.Library
open Openisa.Library.ByteStore

inductive HiLoPair where
  | mips | micromips
  deriving DecidableEq, Repr

namespace HiLoPair

def hi : HiLoPair → MipsReloc
  | mips => .rMipsHi16
  | micromips => .rMicromipsHi16

def lo : HiLoPair → MipsReloc
  | mips => .rMipsLo16
  | micromips => .rMicromipsLo16

def shift : HiLoPair → Nat
  | mips => 14
  | micromips => 12

theorem hi_field (pair : HiLoPair) : fieldRelocP pair.hi = true := by cases pair <;> rfl

theorem lo_field (pair : HiLoPair) : fieldRelocP pair.lo = true := by cases pair <;> rfl

theorem hi_layout (pair : HiLoPair) : (mipsElf32RtypeToHowto pair.hi).rightshift = pair.shift ∧
    (mipsElf32RtypeToHowto pair.hi).bitsize = 32 - pair.shift ∧
    (mipsElf32RtypeToHowto pair.hi).pcRelative = false := by
  cases pair <;> exact ⟨rfl, rfl, rfl⟩

theorem lo_layout (pair : HiLoPair) : (mipsElf32RtypeToHowto pair.lo).rightshift = 0 ∧
    (mipsElf32RtypeToHowto pair.lo).bitsize = pair.shift ∧
    (mipsElf32RtypeToHowto pair.lo).pcRelative = false := by
  cases pair <;> exact ⟨rfl, rfl, rfl⟩

theorem shift_high (pair : HiLoPair) : 2 ^ pair.shift * 2 ^ (32 - pair.shift) = 2 ^ 32 := by
  cases pair <;> rfl

theorem wide_high (pair : HiLoPair) : 1 < 2 ^ (32 - pair.shift) := by cases pair <;> decide

end HiLoPair

/-- Two words of one section that together hold an address, without separate addends. -/
structure PairSite where
  pair : HiLoPair
  inputSection : Asection
  hi : Arelent
  lo : Arelent
  hiHowto : hi.howto = mipsElf32RtypeToHowto pair.hi
  loHowto : lo.howto = mipsElf32RtypeToHowto pair.lo
  hiInside : ¬ hi.address > inputSection.limit
  loInside : ¬ lo.address > inputSection.limit
  hiAddend : hi.addend = 0
  loAddend : lo.addend = 0
  apart : hi.address.toNat + 4 ≤ lo.address.toNat ∨ lo.address.toNat + 4 ≤ hi.address.toNat

namespace PairSite

variable (site : PairSite)

def hiPart (order : Endian) (d : Store) : Nat :=
  wordField order (mipsElf32RtypeToHowto site.pair.hi) d site.hi.address.toNat

def loPart (order : Endian) (d : Store) : Nat :=
  wordField order (mipsElf32RtypeToHowto site.pair.lo) d site.lo.address.toNat

def joined (order : Endian) (d : Store) : Nat :=
  site.hiPart order d <<< site.pair.shift ||| site.loPart order d

def link (lib : BfdLib) (order : Endian) (symbol : Asymbol) (relocatable : Bool) (data : DataPtr)
    (s : RelocState) : SpecialResult × SpecialResult :=
  let first := bfdMipsElfGenericReloc lib order site.hi symbol data site.inputSection relocatable s
  (first, bfdMipsElfGenericReloc lib order site.lo symbol data site.inputSection relocatable first.state)

/-- The bytes after `u` is added to the high and `v` to the low part. -/
def add (order : Endian) (u v : BfdVma) (d : Store) : Store :=
  addToWord order (mipsElf32RtypeToHowto site.pair.lo) v
    (addToWord order (mipsElf32RtypeToHowto site.pair.hi) u d site.hi.address.toNat) site.lo.address.toNat

/-- Neither word changes outside its `dst_mask`. -/
structure OutsideSame (order : Endian) (d d' : Store) : Prop where
  hi : bfdGet32 order d' site.hi.address.toNat &&& ~~~(mipsElf32RtypeToHowto site.pair.hi).dstMask =
    bfdGet32 order d site.hi.address.toNat &&& ~~~(mipsElf32RtypeToHowto site.pair.hi).dstMask
  lo : bfdGet32 order d' site.lo.address.toNat &&& ~~~(mipsElf32RtypeToHowto site.pair.lo).dstMask =
    bfdGet32 order d site.lo.address.toNat &&& ~~~(mipsElf32RtypeToHowto site.pair.lo).dstMask

/-- The words hold the sum of the symbol's address and the addend they held before. -/
structure AddressLaw (order : Endian) (symbol : Asymbol) (d d' : Store) : Prop where
  address : site.joined order d' = (symbol.address.toNat + site.joined order d) % 2 ^ 32
  outside : site.OutsideSame order d d'

theorem hiWord : (mipsElf32RtypeToHowto site.pair.hi).WordField := (field_howto _ site.pair.hi_field).1

theorem loWord : (mipsElf32RtypeToHowto site.pair.lo).WordField := (field_howto _ site.pair.lo_field).1

theorem loPart_lt (order : Endian) (d : Store) : site.loPart order d < 2 ^ site.pair.shift := by
  have below := wordField_lt order (mipsElf32RtypeToHowto site.pair.lo) d site.lo.address.toNat
  rw [site.pair.lo_layout.2.1] at below
  exact below

theorem joined_eq (order : Endian) (d : Store) :
    site.joined order d = site.hiPart order d * 2 ^ site.pair.shift + site.loPart order d := by
  rw [joined, ← Nat.shiftLeft_eq]
  exact (Nat.shiftLeft_add_eq_or_of_lt (site.loPart_lt order d) _).symm

theorem add_hiPart (order : Endian) (u v : BfdVma) (d : Store) :
    site.hiPart order (site.add order u v d) =
      (site.hiPart order d + u.toNat / 2 ^ site.pair.shift) % 2 ^ (32 - site.pair.shift) := by
  have alone : site.hiPart order (site.add order u v d) =
      site.hiPart order (addToWord order (mipsElf32RtypeToHowto site.pair.hi) u d site.hi.address.toNat) := by
    rw [hiPart, hiPart, wordField, wordField, add, addToWord_apart _ _ _ _ _ site.apart]
  rw [alone, hiPart, addToWord_wordField _ site.hiWord, site.pair.hi_layout.1, site.pair.hi_layout.2.1]
  rfl

theorem add_loPart (order : Endian) (u v : BfdVma) (d : Store) :
    site.loPart order (site.add order u v d) = (site.loPart order d + v.toNat) % 2 ^ site.pair.shift := by
  have other : ∀ d', wordField order (mipsElf32RtypeToHowto site.pair.lo)
      (addToWord order (mipsElf32RtypeToHowto site.pair.hi) u d' site.hi.address.toNat)
      site.lo.address.toNat = site.loPart order d' := by
    intro d'
    rw [wordField, addToWord_apart _ _ _ _ _ site.apart.symm]
    rfl
  rw [loPart, add, addToWord_wordField _ site.loWord, site.pair.lo_layout.1, site.pair.lo_layout.2.1,
    other, Nat.pow_zero, Nat.div_one]

theorem add_outside (order : Endian) (u v : BfdVma) (d : Store) :
    site.OutsideSame order d (site.add order u v d) where
  hi := by rw [add, addToWord_apart _ _ _ _ _ site.apart, addToWord_outside _ site.hiWord]
  lo := by rw [add, addToWord_outside _ site.loWord, addToWord_apart _ _ _ _ _ site.apart.symm]

/-- Adding to both parts adds to the number they hold exactly when the low part does not carry. -/
theorem add_joined_iff (order : Endian) (u : BfdVma) (d : Store) :
    site.joined order (site.add order u u d) = (u.toNat + site.joined order d) % 2 ^ 32 ↔
      u.toNat % 2 ^ site.pair.shift + site.loPart order d < 2 ^ site.pair.shift := by
  rw [joined_eq, joined_eq, add_hiPart, add_loPart, ← site.pair.shift_high, Nat.add_comm u.toNat]
  exact SplitSum.add_parts_iff (Nat.two_pow_pos _) site.pair.wide_high _ _ _ (site.loPart_lt order d)

variable {lib : BfdLib} {order : Endian}

theorem link_final (sums : lib.StoresSum) (symbol : Asymbol) (data : DataPtr) (s : RelocState) :
    (site.link lib order symbol false data s).2.state =
      s.setData data (site.add order symbol.address symbol.address (s.mem data)) := by
  have hiType := (field_howto _ site.pair.hi_field)
  have loType := (field_howto _ site.pair.lo_field)
  have hiValue : fieldAdjustment site.hi symbol site.inputSection false + site.hi.addend = symbol.address := by
    simp [fieldAdjustment, Asymbol.address, site.hiHowto, site.pair.hi_layout.2.2, site.hiAddend]
  have loValue : fieldAdjustment site.lo symbol site.inputSection false + site.lo.addend = symbol.address := by
    simp [fieldAdjustment, Asymbol.address, site.loHowto, site.pair.lo_layout.2.2, site.loAddend]
  have first := generic_reloc_final order sums site.hi symbol data site.inputSection s
    site.hiInside (site.hiHowto ▸ hiType.1) (site.hiHowto ▸ hiType.2.1)
  have second := fun s => generic_reloc_final order sums site.lo symbol data site.inputSection s
    site.loInside (site.loHowto ▸ loType.1) (site.loHowto ▸ loType.2.1)
  simp only [link, first, second, hiValue, loValue, RelocState.setData_setData, RelocState.setData_mem,
    site.hiHowto, site.loHowto]
  rfl

end PairSite

/-- A final link of the two words gives the address law exactly when the low parts of the address and
of the addend do not carry. -/
theorem hi_lo_address_law {lib : BfdLib} {order : Endian} (sums : lib.StoresSum) (site : PairSite)
    (symbol : Asymbol) (data : DataPtr) (s : RelocState) :
    site.AddressLaw order symbol (s.mem data)
        ((site.link lib order symbol false data s).2.state.mem data) ↔
      symbol.address.toNat % 2 ^ site.pair.shift + site.loPart order (s.mem data) < 2 ^ site.pair.shift := by
  rw [site.link_final sums, RelocState.setData_mem, ← site.add_joined_iff order symbol.address]
  constructor
  · intro law
    exact law.address
  · intro address
    exact ⟨address, site.add_outside order _ _ _⟩

def samplePair (pair : HiLoPair) (inputSection : Asection) (inside : ¬ 4 > inputSection.limit) : PairSite where
  pair := pair
  inputSection := inputSection
  hi := relocAt pair.hi 0 (symbolAt 0 0)
  lo := relocAt pair.lo 4 (symbolAt 0 0)
  hiHowto := rfl
  loHowto := rfl
  hiInside := BitVec.not_lt_zero
  loInside := inside
  hiAddend := rfl
  loAddend := rfl
  apart := Or.inl (Nat.le_refl 4)

/-- The word at address 4 holds the addend 1 in the low field of an `ldi`. -/
def addendOne : Store := fun i => if i = 7 then 0x40 else 0

theorem hi_lo_address_law_aligned :
    let site := samplePair .mips (sectionAt 0x1000 8) (by decide)
    site.AddressLaw .big (symbolAt 0x8000 0) addendOne
      ((site.link referenceLib .big (symbolAt 0x8000 0) false 0 (startState addendOne)).2.state.mem 0) :=
  (hi_lo_address_law reference_stores_sum (samplePair .mips (sectionAt 0x1000 8) (by decide))
    (symbolAt 0x8000 0) 0 (startState addendOne)).mpr (by decide)

theorem hi_lo_address_carry_lost :
    let site := samplePair .mips (sectionAt 0x1000 8) (by decide)
    ¬ site.AddressLaw .big (symbolAt 0 0x3fff) addendOne
      ((site.link referenceLib .big (symbolAt 0 0x3fff) false 0 (startState addendOne)).2.state.mem 0) := by
  intro site law
  have loaded : site.joined .big
      ((site.link referenceLib .big (symbolAt 0 0x3fff) false 0 (startState addendOne)).2.state.mem 0) = 0 := by
    decide
  have wanted := law.address
  rw [loaded] at wanted
  revert wanted
  decide

end Openisa.Bfd
