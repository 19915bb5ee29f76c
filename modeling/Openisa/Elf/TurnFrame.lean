import Openisa.Bfd.ShuffledWord
import Openisa.Elf.RelocateSection

/-! A turn of the loop over the relocations of a section changes the field of its own relocation only. -/

namespace Openisa.Elf

open Openisa.Bfd
open Openisa.Library
open Openisa.Library.ByteStore

/-- The bytes of the field; a type whose howto is for less has its instruction halves shuffled. -/
def fieldSize (type : MipsReloc) : Nat := max 4 (bfdGetRelocSize (mipsElf32RtypeToHowto type))

def InternalRela.Outside (rel : InternalRela) (i : Nat) : Prop :=
  i < rel.offset.toNat ∨ rel.offset.toNat + fieldSize rel.type ≤ i

/-- The fields of two relocations do not overlap. -/
def FieldsApart (a b : InternalRela) : Prop :=
  a.offset.toNat + fieldSize a.type ≤ b.offset.toNat ∨ b.offset.toNat + fieldSize b.type ≤ a.offset.toNat

/-- Clearing a relocation changes the bits of its field only. -/
def ElfLib.ClearsField (lib : ElfLib) : Prop := ∀ type (d : Store) (loc : BfdVma) (i : Nat),
  (i < loc.toNat ∨ loc.toNat + fieldSize type ≤ i) ∨ (mipsElf32RtypeToHowto type).dstMask = 0 →
    lib.clearContents (mipsElf32RtypeToHowto type) d loc i = d i

theorem fieldSize_word (type : MipsReloc) : 4 ≤ fieldSize type := le_max_left _ _

theorem bfdPut_outside (order : Endian) (n : Nat) (x : BfdVma) (d : Store) {loc i : Nat}
    (outside : i < loc ∨ loc + n ≤ i) : bfdPut order n x d loc i = d i :=
  store_outside order n _ d loc i outside

section Frame

variable {σ : Type} {lib : ElfLib} {link : ElfLink} {ops : GotOps σ} {inputSection : ElfSection} {i : Nat}

theorem perform_outside (rel : InternalRela) (outside : rel.Outside i) (value : BfdVma) (d : Store)
    (crossModeJump : Bool) : (mipsElfPerformRelocation link (mipsElf32RtypeToHowto rel.type) rel value inputSection d
      crossModeJump).contents i = d i := by
  have word := fieldSize_word rel.type
  have field : bfdGetRelocSize (mipsElf32RtypeToHowto rel.type) ≤ fieldSize rel.type := le_max_right _ _
  unfold InternalRela.Outside at outside
  have unshuffled : ∀ jal, bfdMipsElfRelocUnshuffle link.order rel.type jal d rel.offset.toNat i = d i := fun jal =>
    unshuffle_outside link.order rel.type jal d rel.offset.toNat i (by omega)
  unfold mipsElfPerformRelocation
  dsimp only
  split
  · exact unshuffled false
  · dsimp only
    rw [shuffle_outside _ _ _ _ _ i (by omega), bfdPut_outside _ _ _ _ (by omega)]
    exact unshuffled false

theorem putSignExtended_outside (order : Endian) (value : BfdVma) (d : Store) {loc : Nat}
    (outside : i < loc ∨ loc + 8 ≤ i) : putSignExtended order value d loc i = d i := by
  unfold putSignExtended
  dsimp only
  rw [bfdPut32, bfdPut_outside _ _ _ _ (by omega), bfdPut32, bfdPut_outside _ _ _ _ (by omega)]

theorem readRelAddend_outside (rel : InternalRela) (howto : RelocHowto) (d : Store)
    (outside : i < rel.offset.toNat ∨ rel.offset.toNat + 4 ≤ i) :
    (mipsElfReadRelAddend link.order rel howto d).2 i = d i := by
  unfold mipsElfReadRelAddend
  dsimp only
  rw [shuffle_outside _ _ _ _ _ i outside, unshuffle_outside _ _ _ _ _ i outside]

/-- Where the value of a relocation goes in the end, from the place that the turn works with. -/
def storePlace (order : Endian) (rel : InternalRela) : BfdVma :=
  if rel.type = .rMips64 ∧ order = .big then rel.offset - 4 else rel.offset

theorem storeValue_outside (howto : RelocHowto) (rel : InternalRela) (value : BfdVma) (crossModeJump : Bool)
    (s : SectionState σ) (own : rel.type ≠ .rMips64 → howto = mipsElf32RtypeToHowto rel.type)
    (outside : i < (storePlace link.order rel).toNat ∨ (storePlace link.order rel).toNat + fieldSize rel.type ≤ i) :
    (storeValue link inputSection howto rel value crossModeJump s).2.2.contents i = s.contents i := by
  unfold storeValue
  unfold storePlace at outside
  split
  · rfl
  · split
    · next type =>
      have eight : fieldSize rel.type = 8 := by rw [type]; rfl
      rw [eight] at outside
      by_cases big : link.order = .big
      · simp only [type, big, and_self, if_true] at outside ⊢
        exact putSignExtended_outside _ _ _ outside
      · simp only [type, big, and_false, if_false] at outside ⊢
        exact putSignExtended_outside _ _ _ outside
    · next other =>
      have plain : ¬(rel.type = .rMips64 ∧ link.order = .big) := fun both => other both.1
      rw [if_neg plain] at outside
      rw [own other]
      exact perform_outside rel outside value s.contents crossModeJump

theorem finalStep_outside (howto : RelocHowto) (rel : InternalRela) (next : Option InternalRela) (s : SectionState σ)
    (own : rel.type ≠ .rMips64 → howto = mipsElf32RtypeToHowto rel.type)
    (outside : i < (storePlace link.order rel).toNat ∨ (storePlace link.order rel).toNat + fieldSize rel.type ≤ i) :
    (finalStep lib link ops inputSection howto rel next s).2.2.contents i = s.contents i := by
  have stores : ∀ value cross t, t.contents = s.contents →
      (storeValue (σ := σ) link inputSection howto rel value cross t).2.2.contents i = s.contents i := by
    intro value cross t same
    rw [storeValue_outside howto rel value cross t own outside, same]
  unfold finalStep
  dsimp only
  split
  · rfl
  · rfl
  · rfl
  · split
    · exact stores _ _ _ rfl
    · split
      · next reported =>
        exact stores _ _ _ (congrArg (fun r => SectionState.contents r.2) reported).symm
      · next reported =>
        exact congrArg (· i) (congrArg (fun r => SectionState.contents r.2) reported).symm
  · exact stores _ _ _ rfl
  · split
    · rfl
    · rfl
  · rfl

theorem adjustAddend_place (lib : ElfLib) (link : ElfLink) (rel : InternalRela) :
    (mipsElfAdjustAddend lib link rel).offset = rel.offset ∧ (mipsElfAdjustAddend lib link rel).type = rel.type := by
  unfold mipsElfAdjustAddend
  split
  · exact ⟨rfl, rfl⟩
  · exact ⟨rfl, rfl⟩

theorem readAddend_outside (lib : ElfLib) (link : ElfLink) (isRel : Bool) (howto : RelocHowto) (rel : InternalRela)
    (s : SectionState σ) (outside : rel.type ≠ .rMips64 → i < rel.offset.toNat ∨ rel.offset.toNat + 4 ≤ i) :
    (readAddend lib link isRel howto rel s).2.contents i = s.contents i ∧
      (readAddend lib link isRel howto rel s).1.offset = rel.offset ∧
      (readAddend lib link isRel howto rel s).1.type = rel.type := by
  have read : (mipsElfReadRelAddend link.order rel howto s.contents).2 i = s.contents i := by
    by_cases type : rel.type = .rMips64
    · have plain : plainOrderP rel.type = true := by rw [type]; rfl
      simp only [mipsElfReadRelAddend, unshuffle_plain _ _ _ _ _ plain, shuffle_plain _ _ _ _ _ plain]
    · exact readRelAddend_outside rel howto s.contents (outside type)
  unfold readAddend
  split
  · exact ⟨rfl, rfl, rfl⟩
  · cases isRel with
    | true => exact ⟨read, adjustAddend_place lib link rel⟩
    | false => exact ⟨rfl, adjustAddend_place lib link rel⟩

theorem relocateRel_outside (final : link.relocatable = false) (clears : lib.ClearsField) (isRel : Bool)
    (rel : InternalRela) (next : Option InternalRela) (s : SectionState σ) (outside : rel.Outside i) :
    (relocateRel lib link ops inputSection isRel rel next s).2.2.contents i = s.contents i := by
  have word := fieldSize_word rel.type
  unfold InternalRela.Outside at outside
  unfold relocateRel
  split
  · exact clears rel.type s.contents rel.offset i (.inl outside)
  · rw [final]
    dsimp only
    rw [if_neg Bool.false_ne_true]
    by_cases type : rel.type = .rMips64
    · have working : (workingReloc link.order rel).2.type = rel.type ∧
          storePlace link.order (workingReloc link.order rel).2 = rel.offset := by
        rw [workingReloc, if_pos type, storePlace]
        by_cases big : link.order = .big
        · simp only [big, type, if_true, and_self, true_and]
          exact BitVec.add_sub_cancel _ _
        · simp [big]
      obtain ⟨contents, place, sameType⟩ := readAddend_outside (i := i) lib link isRel
        (workingReloc link.order rel).1 (workingReloc link.order rel).2 s fun other => absurd (working.1.trans type) other
      rw [finalStep_outside, contents]
      · intro other
        exact absurd (sameType.trans (working.1.trans type)) other
      · rw [storePlace, place, sameType, ← storePlace, working.1, working.2]
        exact outside
    · rw [working_reloc_word _ _ type]
      obtain ⟨contents, place, sameType⟩ := readAddend_outside (i := i) lib link isRel
        (mipsElf32RtypeToHowto rel.type) rel s fun _ => by omega
      rw [finalStep_outside, contents]
      · intro _
        rw [sameType]
      · rw [storePlace, place, sameType, if_neg (fun both => type both.1)]
        exact outside

end Frame

end Openisa.Elf
