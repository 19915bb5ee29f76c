import Openisa.Bfd.FinalLink
import Openisa.Bfd.SignedField

/-! The distance that a branch field holds after a final link through the generic special function. -/

namespace Openisa.Bfd

open Openisa.Library
open Openisa.Library.ByteStore

/-- A branch on a word of its section, whose addend stands in the word. -/
structure BranchSite where
  inputSection : Asection
  entry : Arelent
  branch : branchP entry.howto.type = true
  known : entry.howto = mipsElf32RtypeToHowto entry.howto.type
  inside : ¬ entry.address > inputSection.limit
  addend : entry.addend = 0
  aligned : (relocPlace inputSection entry).toNat % 4 = 0

theorem branch_howto (type : MipsReloc) (branch : branchP type = true) :
    fieldRelocP type = true ∧ (mipsElf32RtypeToHowto type).rightshift = 2 ∧
      (mipsElf32RtypeToHowto type).pcRelative = true ∧ (mipsElf32RtypeToHowto type).SignedField := by
  revert branch
  cases type <;> decide

namespace BranchSite

variable (site : BranchSite)

def distance (symbol : Asymbol) : Int := signedAddress (symbol.address - relocPlace site.inputSection site.entry)

def words (order : Endian) (d : Store) : Int :=
  signedField order site.entry.howto d site.entry.address.toNat

/-- The field holds the distance beside the addend, and no other bit changes. -/
structure Exact (order : Endian) (symbol : Asymbol) (d d' : Store) : Prop where
  field : 4 * site.words order d' = site.distance symbol + 4 * site.words order d
  outside : bfdGet32 order d' site.entry.address.toNat &&& ~~~site.entry.howto.dstMask =
    bfdGet32 order d site.entry.address.toNat &&& ~~~site.entry.howto.dstMask
  elsewhere : ∀ i, i < site.entry.address.toNat ∨ site.entry.address.toNat + 4 ≤ i → d' i = d i

/-- The field has room for the distance, and for the distance with the addend. -/
def Reaches (order : Endian) (symbol : Asymbol) (d : Store) : Prop :=
  FitsSigned site.entry.howto.bitsize (site.distance symbol / 4) ∧
    FitsSigned site.entry.howto.bitsize (site.distance symbol / 4 + site.words order d)

theorem distance_aligned (symbol : Asymbol) (aligned : symbol.address.toNat % 4 = 0) :
    site.distance symbol % 4 = 0 := by
  have start := site.aligned
  rw [distance, signedAddress, BitVec.toInt_eq_toNat_bmod, BitVec.toNat_setWidth, BitVec.toNat_sub,
    Int.bmod_def]
  omega

theorem value_eq (symbol : Asymbol) :
    fieldAdjustment site.entry symbol site.inputSection false + site.entry.addend =
      symbol.address - relocPlace site.inputSection site.entry := by
  have relative : site.entry.howto.pcRelative = true := by
    rw [site.known]
    exact (branch_howto _ site.branch).2.2.1
  simp only [fieldAdjustment, relative, site.addend, Asymbol.address, relocPlace]
  simp
  ring

end BranchSite

/-- A branch relocation that succeeds leaves the exact distance in the field, and every distance that
the field has room for succeeds. -/
theorem branch_displacement_exact {lib : BfdLib} (order : Endian) (sums : lib.StoresSum)
    (checks : lib.ChecksSigned) (verdicts : lib.OkOrOverflow) (site : BranchSite) (symbol : Asymbol)
    (aligned : symbol.address.toNat % 4 = 0) (data : DataPtr) (s : RelocState) :
    let r := bfdMipsElfGenericReloc lib order site.entry symbol data site.inputSection false s
    (r.status = .ok → site.Exact order symbol (s.mem data) (r.state.mem data)) ∧
      (site.Reaches order symbol (s.mem data) → r.status = .ok) := by
  have layout := branch_howto _ site.branch
  have fields := field_howto _ layout.1
  rw [← site.known] at layout fields
  rcases layout with ⟨_, shift, _, signed⟩
  have result := generic_reloc_final order sums site.entry symbol data site.inputSection s site.inside
    fields.1 fields.2.1
  rw [site.value_eq] at result
  have reached := signed_verdict order checks verdicts site.entry.howto signed
    (symbol.address - relocPlace site.inputSection site.entry) (s.mem data) site.entry.address.toNat
  have whole := site.distance_aligned symbol aligned
  dsimp only
  rw [result]
  constructor
  · intro ok
    have sum := signed_field_sum order site.entry.howto signed _ _ _ (reached.mp ok)
    refine ⟨?_, ?_, ?_⟩
    · rw [RelocState.setData_mem, BranchSite.words, sum, shift]
      change 4 * (site.distance symbol / 4 + site.words order (s.mem data)) = _
      omega
    · rw [RelocState.setData_mem]
      exact addToWord_outside _ fields.1 _ _ _
    · intro i outside
      rw [RelocState.setData_mem]
      exact addToWord_byte _ _ _ _ _ outside
  · intro reaches
    apply reached.mpr
    rw [HasRoom, shift]
    exact reaches

def sampleBranch : BranchSite where
  inputSection := sectionAt 0x1000 4
  entry := relocAt .rMipsPc16 0 (symbolAt 0 0)
  branch := rfl
  known := rfl
  inside := by decide
  addend := rfl
  aligned := by decide

theorem branch_displacement_backwards :
    let r := bfdMipsElfGenericReloc referenceLib .big sampleBranch.entry (symbolAt 0x800 0) 0
      sampleBranch.inputSection false (startState fun _ => 0)
    r.status = .ok ∧ sampleBranch.Exact .big (symbolAt 0x800 0) (fun _ => 0) (r.state.mem 0) := by
  intro r
  have exact_or_overflow := branch_displacement_exact .big reference_stores_sum reference_checks_signed
    reference_ok_or_overflow sampleBranch (symbolAt 0x800 0) (by decide) 0 (startState fun _ => 0)
  have ok := exact_or_overflow.2 ⟨by decide, by decide⟩
  exact ⟨ok, exact_or_overflow.1 ok⟩

end Openisa.Bfd
