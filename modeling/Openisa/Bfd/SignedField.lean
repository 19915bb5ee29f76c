import Openisa.Bfd.GenericReloc

/-! Fields that hold a signed number and are checked for it. -/

namespace Openisa.Bfd

open Openisa.Library
open Openisa.Library.ByteStore

theorem shifted_address_field (v : BfdVma) (k width : Nat) (fits : width + k ≤ 32) :
    (v >>> k).setWidth width = BitVec.ofInt width (signedAddress v / 2 ^ k) := by
  have quotient : signedAddress v / 2 ^ k = ((v.setWidth 32).sshiftRight k).toInt := by
    rw [BitVec.toInt_sshiftRight, Int.shiftRight_eq_div_pow, signedAddress]
    norm_cast
  rw [quotient]
  change _ = ((v.setWidth 32).sshiftRight k).signExtend width
  rw [BitVec.signExtend_eq_setWidth_of_le _ (by omega)]
  apply BitVec.eq_of_getLsbD_eq
  intro i below
  simp only [BitVec.getLsbD_setWidth, BitVec.getLsbD_ushiftRight, BitVec.getLsbD_sshiftRight]
  simp [below, show k + i < 32 by omega, show ¬ 32 ≤ i by omega]

theorem signed_sum_field (width : Nat) (wide : 1 ≤ width) (f : BitVec width) (x : Int)
    (fits : FitsSigned width (x + f.toInt)) : (f + BitVec.ofInt width x).toInt = x + f.toInt := by
  rw [Int.add_comm] at fits
  calc
    _ = (BitVec.ofInt width (f.toInt + x)).toInt := by rw [BitVec.ofInt_add, BitVec.ofInt_toInt]
    _ = f.toInt + x := BitVec.toInt_ofInt_eq_self (by omega) fits.1 fits.2
    _ = x + f.toInt := Int.add_comm _ _

def signedField (order : Endian) (h : RelocHowto) (d : Store) (loc : Nat) : Int :=
  ((bfdGet32 order d loc).extractLsb' h.bitpos h.bitsize).toInt

/-- A howto of a word field that holds a signed number and complains about larger ones. -/
structure RelocHowto.SignedField (h : RelocHowto) : Prop where
  word : h.WordField
  signed : h.complainOnOverflow = .signed
  wide : 1 ≤ h.bitsize
  below : h.bitsize + h.rightshift ≤ 32

instance (h : RelocHowto) : Decidable h.SignedField :=
  decidable_of_iff (h.WordField ∧ h.complainOnOverflow = .signed ∧ 1 ≤ h.bitsize ∧ h.bitsize + h.rightshift ≤ 32)
    ⟨fun ⟨word, signed, wide, below⟩ => ⟨word, signed, wide, below⟩,
      fun ⟨word, signed, wide, below⟩ => ⟨word, signed, wide, below⟩⟩

def HasRoom (order : Endian) (h : RelocHowto) (val : BfdVma) (d : Store) (loc : Nat) : Prop :=
  FitsSigned h.bitsize (signedAddress val / 2 ^ h.rightshift) ∧
    FitsSigned h.bitsize (signedAddress val / 2 ^ h.rightshift + signedField order h d loc)

instance (order : Endian) (h : RelocHowto) (val : BfdVma) (d : Store) (loc : Nat) :
    Decidable (HasRoom order h val d loc) := inferInstanceAs (Decidable (_ ∧ _))

variable {lib : BfdLib} (order : Endian)

theorem signed_verdict (checks : lib.ChecksSigned) (verdicts : lib.OkOrOverflow) (h : RelocHowto)
    (field : h.SignedField) (val : BfdVma) (d : Store) (loc : Nat) :
    (lib.relocateContents h order val d loc).1 = .ok ↔ HasRoom order h val d loc := by
  have verdict := checks h order val d loc field.signed field.word
  constructor
  · intro ok
    by_contra beyond
    have overflow := verdict.mpr beyond
    rw [ok] at overflow
    cases overflow
  · intro room
    rcases verdicts h order val d loc with ok | overflow
    · exact ok
    · exact absurd room (verdict.mp overflow)

theorem signed_field_sum (h : RelocHowto) (field : h.SignedField) (val : BfdVma) (d : Store) (loc : Nat)
    (room : HasRoom order h val d loc) :
    signedField order h (addToWord order h val d loc) loc =
      signedAddress val / 2 ^ h.rightshift + signedField order h d loc := by
  rw [signedField, addToWord_field h field.word, shifted_address_field val _ _ field.below]
  exact signed_sum_field _ field.wide _ _ room.2

end Openisa.Bfd
