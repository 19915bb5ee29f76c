import Openisa.Bfd.ShuffledWord
import Openisa.Elf.PerformRelocation
import Openisa.Elf.Reference

/-! Reading the field of a relocation after it was stored by a partial link. -/

namespace Openisa.Elf

open Openisa.Bfd
open Openisa.Library
open Openisa.Library.ByteStore

def AgreeOff (m d d' : Store) : Prop := ∀ i, d i &&& ~~~m i = d' i &&& ~~~m i

theorem AgreeOff.refl (m d : Store) : AgreeOff m d d := fun _ => rfl

theorem AgreeOff.outside {m d d' : Store} (agree : AgreeOff m d d') {i : Nat} (bare : m i = 0) : d i = d' i := by
  have byte := agree i
  have all : ~~~(0 : BitVec 8) = BitVec.allOnes 8 := by decide
  rwa [bare, all, BitVec.and_allOnes, BitVec.and_allOnes] at byte

theorem byte_bit (x : BfdVma) (k j : Nat) (short : j < 8) :
    (BitVec.ofNat 8 (x.toNat / 256 ^ k)).getLsbD j = x.getLsbD (8 * k + j) := by
  have weight : 256 ^ k = 2 ^ (8 * k) := by rw [Nat.pow_mul]
  rw [BitVec.getLsbD_ofNat, weight, Nat.testBit_div_two_pow, Nat.add_comm j]
  simp only [short, decide_true, Bool.true_and, BitVec.testBit_toNat]

theorem put_agree (order : Endian) (n : Nat) (loc : Nat) {m x y : BfdVma} {z d d' : Store}
    (words : x &&& ~~~m = y &&& ~~~m) (rest : AgreeOff z d d') :
    AgreeOff (bfdPut order n m z loc) (bfdPut order n x d loc) (bfdPut order n y d' loc) := by
  intro i
  unfold bfdPut store
  split
  · apply BitVec.eq_of_getLsbD_eq
    intro j short
    rw [BitVec.getLsbD_and, BitVec.getLsbD_and, BitVec.getLsbD_not, byte_bit _ _ _ short, byte_bit _ _ _ short,
      byte_bit _ _ _ short]
    have bit := congrArg (fun w => w.getLsbD (8 * order.offset n (i - loc) + j)) words
    simp only [BitVec.getLsbD_and, BitVec.getLsbD_not] at bit
    by_cases inside : 8 * order.offset n (i - loc) + j < 64
    · simpa [short, inside] using bit
    · rw [BitVec.getLsbD_of_ge x _ (by omega), BitVec.getLsbD_of_ge y _ (by omega)]
  · exact rest i

section Halves

variable (rType : MipsReloc) (jalShuffle : Bool)

theorem split_halves_bits (i : Nat) :
    (∃ k, ∀ val, (splitHalves rType jalShuffle val).1.getLsbD i = val.getLsbD k) ∧
      ∃ k, ∀ val, (splitHalves rType jalShuffle val).2.getLsbD i = val.getLsbD k := by
  -- bit 64 stands for none
  have beyond : ∀ val : BfdVma, val.getLsbD 64 = false := fun val => BitVec.getLsbD_of_ge val 64 (by decide)
  unfold splitHalves
  split
  · constructor
    · exact ⟨16 + i, fun val => BitVec.getLsbD_ushiftRight val 16 i⟩
    · refine ⟨if i < 16 then i else 64, fun val => ?_⟩
      simp only [mask_ffff, BitVec.getLsbD_and, BitField.getLsbD_mask]
      split <;> grind
  · split
    · constructor
      · refine ⟨if i < 5 then 11 + i else if i < 11 then i else if i < 16 then 16 + i else 64, fun val => ?_⟩
        simp only [mask_f800, mask_1f, mask_7e0, BitVec.getLsbD_or, BitVec.getLsbD_and,
          BitVec.getLsbD_ushiftRight, BitField.getLsbD_mask]
        grind
      · refine ⟨if i < 5 then i else if i < 16 then 11 + i else 64, fun val => ?_⟩
        simp only [mask_ffe0, mask_1f, BitVec.getLsbD_or, BitVec.getLsbD_and, BitVec.getLsbD_ushiftRight,
          BitField.getLsbD_mask]
        grind
    · constructor
      · refine ⟨if i < 5 then 21 + i else if i < 10 then 11 + i else if i < 16 then 16 + i else 64, fun val => ?_⟩
        simp only [mask_fc00, mask_1f, mask_3e0, BitVec.getLsbD_or, BitVec.getLsbD_and,
          BitVec.getLsbD_ushiftRight, BitField.getLsbD_mask]
        grind
      · refine ⟨if i < 16 then i else 64, fun val => ?_⟩
        simp only [mask_ffff, BitVec.getLsbD_and, BitField.getLsbD_mask]
        split <;> grind

theorem split_halves_agree {m x y : BfdVma} (words : x &&& ~~~m = y &&& ~~~m) :
    (splitHalves rType jalShuffle x).1 &&& ~~~(splitHalves rType jalShuffle m).1 =
        (splitHalves rType jalShuffle y).1 &&& ~~~(splitHalves rType jalShuffle m).1 ∧
      (splitHalves rType jalShuffle x).2 &&& ~~~(splitHalves rType jalShuffle m).2 =
        (splitHalves rType jalShuffle y).2 &&& ~~~(splitHalves rType jalShuffle m).2 := by
  have bits : ∀ k, (x.getLsbD k && !m.getLsbD k) = (y.getLsbD k && !m.getLsbD k) := by
    intro k
    have bit := congrArg (fun w => w.getLsbD k) words
    simp only [BitVec.getLsbD_and, BitVec.getLsbD_not] at bit
    by_cases inside : k < 64
    · simpa [inside] using bit
    · rw [BitVec.getLsbD_of_ge x _ (by omega), BitVec.getLsbD_of_ge y _ (by omega)]
  constructor
  · apply BitVec.eq_of_getLsbD_eq
    intro i inside
    obtain ⟨k, source⟩ := (split_halves_bits rType jalShuffle i).1
    simp only [BitVec.getLsbD_and, BitVec.getLsbD_not, inside, decide_true, Bool.true_and, source]
    exact bits k
  · apply BitVec.eq_of_getLsbD_eq
    intro i inside
    obtain ⟨k, source⟩ := (split_halves_bits rType jalShuffle i).2
    simp only [BitVec.getLsbD_and, BitVec.getLsbD_not, inside, decide_true, Bool.true_and, source]
    exact bits k

theorem split_join_halves {first second : BfdVma} (half : first.toNat < 2 ^ 16) (half' : second.toNat < 2 ^ 16) :
    splitHalves rType jalShuffle (joinHalves rType jalShuffle first second) = (first, second) := by
  have word := join_halves_lt rType jalShuffle half half'
  have halves := split_halves_lt rType jalShuffle word
  have above : ∀ k, 16 ≤ k → first.getLsbD k = false := fun k => high_bit_false half
  have above' : ∀ k, 16 ≤ k → second.getLsbD k = false := fun k => high_bit_false half'
  apply Prod.ext
  · apply BitVec.eq_of_getLsbD_eq
    intro i inside
    by_cases low : i < 16
    · have short : ∀ k (inside : k < 64), 16 ≤ k → second[k] = false := fun k inside high => by
        rw [← BitVec.getLsbD_eq_getElem inside, above' k high]
      unfold splitHalves joinHalves
      split
      · rw [BitVec.getLsbD_ushiftRight, BitVec.getLsbD_or, BitVec.getLsbD_shiftLeft, above' _ (Nat.le_add_right 16 i),
          Nat.add_sub_cancel_left]
        have upper : 16 + i < 64 := by omega
        simp [upper]
      · split <;>
        · simp only [mask_f800, mask_ffe0, mask_1f, mask_7e0, mask_fc00, mask_3e0, BitVec.getLsbD_or,
            BitVec.getLsbD_and, BitVec.getLsbD_shiftLeft, BitVec.getLsbD_ushiftRight, BitField.getLsbD_mask]
          interval_cases i <;> simp [short]
    · rw [above i (Nat.le_of_not_lt low), high_bit_false halves.1 (Nat.le_of_not_lt low)]
  · apply BitVec.eq_of_getLsbD_eq
    intro i inside
    by_cases low : i < 16
    · unfold splitHalves joinHalves
      split
      · simp only [mask_ffff, BitVec.getLsbD_or, BitVec.getLsbD_and, BitVec.getLsbD_shiftLeft,
          BitField.getLsbD_mask]
        interval_cases i <;> simp
      · split <;>
        · simp only [mask_f800, mask_ffe0, mask_1f, mask_7e0, mask_fc00, mask_3e0, mask_ffff, BitVec.getLsbD_or,
            BitVec.getLsbD_and, BitVec.getLsbD_shiftLeft, BitVec.getLsbD_ushiftRight, BitField.getLsbD_mask]
          interval_cases i <;> simp
    · rw [above' i (Nat.le_of_not_lt low), high_bit_false halves.2 (Nat.le_of_not_lt low)]

end Halves

theorem bfdPut16_get16 (order : Endian) (d : Store) (loc : Nat) :
    bfdPut16 order (bfdGet16 order d loc) d loc = d := by
  have half := load_lt order 2 d loc
  simp only [bfdGet, bfdPut, BitVec.toNat_ofNat]
  rw [Nat.mod_eq_of_lt (by omega), store_load]

theorem shuffle_unshuffle (order : Endian) (rType : MipsReloc) (jalShuffle : Bool) (d : Store) (loc : Nat) :
    bfdMipsElfRelocShuffle order rType jalShuffle (bfdMipsElfRelocUnshuffle order rType jalShuffle d loc) loc =
      d := by
  by_cases plain : plainOrderP rType = true
  · rw [unshuffle_plain _ _ _ _ _ plain, shuffle_plain _ _ _ _ _ plain]
  · have half := bfdGet16_lt order d loc
    have half' := bfdGet16_lt order d (loc + 2)
    rw [unshuffle_halves _ _ _ _ _ plain, shuffle_halves _ _ _ _ _ plain,
      bfdGet32_put32 _ _ _ _ (join_halves_lt rType jalShuffle half half'),
      split_join_halves rType jalShuffle half half']
    funext i
    by_cases first : loc ≤ i ∧ i < loc + 2
    · have stored := congrFun (bfdPut16_get16 order d loc) i
      rw [← stored]
      exact store_inside order 2 _ _ _ loc i first
    · rw [bfdPut16, bfdPut, store_outside order 2 _ _ _ _ (by omega)]
      by_cases second : loc + 2 ≤ i ∧ i < loc + 2 + 2
      · have stored := congrFun (bfdPut16_get16 order d (loc + 2)) i
        rw [← stored]
        exact store_inside order 2 _ _ _ (loc + 2) i second
      · rw [bfdPut16, bfdPut, store_outside order 2 _ _ _ _ (by omega), bfdPut32, bfdPut,
          store_outside order 4 _ _ _ _ (by omega)]

theorem shuffle_agree (order : Endian) (rType : MipsReloc) (loc : Nat) {m x y : BfdVma} {z d d' : Store}
    (short : m.toNat < 2 ^ 32) (short' : x.toNat < 2 ^ 32) (short'' : y.toNat < 2 ^ 32)
    (words : x &&& ~~~m = y &&& ~~~m) (rest : AgreeOff z d d') :
    AgreeOff (bfdMipsElfRelocShuffle order rType false (bfdPut32 order m z loc) loc)
      (bfdMipsElfRelocShuffle order rType false (bfdPut32 order x d loc) loc)
      (bfdMipsElfRelocShuffle order rType false (bfdPut32 order y d' loc) loc) := by
  have stored : AgreeOff (bfdPut32 order m z loc) (bfdPut32 order x d loc) (bfdPut32 order y d' loc) :=
    put_agree order 4 loc words rest
  by_cases plain : plainOrderP rType = true
  · rw [shuffle_plain _ _ _ _ _ plain, shuffle_plain _ _ _ _ _ plain, shuffle_plain _ _ _ _ _ plain]
    exact stored
  · have halves := split_halves_agree rType false words
    rw [shuffle_halves _ _ _ _ _ plain, shuffle_halves _ _ _ _ _ plain, shuffle_halves _ _ _ _ _ plain,
      bfdGet32_put32 _ _ _ _ short, bfdGet32_put32 _ _ _ _ short', bfdGet32_put32 _ _ _ _ short'']
    apply put_agree order 2 loc halves.1
    exact put_agree order 2 (loc + 2) halves.2 stored

/-- The bits of the section that hold the bits `mask` of the unshuffled instruction. -/
def fieldBytes (order : Endian) (rType : MipsReloc) (mask : BfdVma) (loc : Nat) : Store :=
  bfdMipsElfRelocShuffle order rType false (bfdPut32 order mask (fun _ => 0) loc) loc

theorem field_bytes_outside (order : Endian) (rType : MipsReloc) (mask : BfdVma) (loc i : Nat)
    (outside : i < loc ∨ loc + 4 ≤ i) : fieldBytes order rType mask loc i = 0 := by
  rw [fieldBytes, shuffle_outside _ _ _ _ _ _ outside]
  exact store_outside order 4 _ _ loc i outside

theorem dst_mask_lt (type : MipsReloc) (size : (mipsElf32RtypeToHowto type).size = 2) :
    (mipsElf32RtypeToHowto type).dstMask.toNat < 2 ^ 32 := by
  revert size
  cases type <;> decide

variable (link : ElfLink) (rel : InternalRela) (value : BfdVma) (sec : ElfSection) (d : Store)

theorem perform_relocation_relocatable (howto : RelocHowto) (size : howto.size = 2)
    (isPartial : link.relocatable = true) :
    mipsElfPerformRelocation link howto rel value sec d false =
      ⟨true, bfdMipsElfRelocShuffle link.order rel.type false
        (bfdPut32 link.order
          (BitField.replace howto.dstMask (instructionWord link.order rel.type d rel.offset.toNat) value)
          (bfdMipsElfRelocUnshuffle link.order rel.type false d rel.offset.toNat) rel.offset.toNat)
        rel.offset.toNat, none⟩ := by
  have four : bfdGetRelocSize howto = 4 := by simp only [bfdGetRelocSize, size]
  simp only [mipsElfPerformRelocation, mipsElfObtainContents, four, isPartial, Bool.false_and,
    Bool.false_eq_true, if_false, Bool.not_true]
  rfl

theorem read_rel_addend_word (order : Endian) (howto : RelocHowto) (size : howto.size = 2) :
    mipsElfReadRelAddend order rel howto d =
      (instructionWord order rel.type d rel.offset.toNat &&& howto.srcMask, d) := by
  have four : bfdGetRelocSize howto = 4 := by simp only [bfdGetRelocSize, size]
  simp only [mipsElfReadRelAddend, mipsElfObtainContents, four, shuffle_unshuffle]
  rfl

theorem replace_word_lt {m x y : BfdVma} (short : m.toNat < 2 ^ 32) (short' : x.toNat < 2 ^ 32) :
    (BitField.replace m x y).toNat < 2 ^ 32 := by
  apply lt_of_high_bits
  intro i above
  by_cases inside : i < 64
  · rw [BitField.getLsbD_replace _ _ _ _ inside, high_bit_false short above, high_bit_false short' above]
    rfl
  · exact BitVec.getLsbD_of_ge _ _ (by omega)

theorem replace_and_mask (m x y : BfdVma) : BitField.replace m x y &&& m = y &&& m := by
  apply BitVec.eq_of_getLsbD_eq
  intro i inside
  rw [BitVec.getLsbD_and, BitVec.getLsbD_and, BitField.getLsbD_replace _ _ _ _ inside]
  cases m.getLsbD i <;> simp

/-- After a partial link the field reads back the value that was stored in it, no other bit of the section
has changed, and reading it changes none. -/
theorem field_round_trip (size : (mipsElf32RtypeToHowto rel.type).size = 2)
    (sameMask : (mipsElf32RtypeToHowto rel.type).srcMask = (mipsElf32RtypeToHowto rel.type).dstMask)
    (isPartial : link.relocatable = true) :
    let howto := mipsElf32RtypeToHowto rel.type
    let loc := rel.offset.toNat
    let performed := mipsElfPerformRelocation link howto rel value sec d false
    performed.done = true ∧
      mipsElfReadRelAddend link.order rel howto performed.contents =
        (value &&& howto.dstMask, performed.contents) ∧
      instructionWord link.order rel.type performed.contents loc &&& ~~~howto.dstMask =
        instructionWord link.order rel.type d loc &&& ~~~howto.dstMask ∧
      AgreeOff (fieldBytes link.order rel.type howto.dstMask loc) performed.contents d ∧
      (∀ i, i < loc ∨ loc + 4 ≤ i → performed.contents i = d i) ∧
      (mipsElfReadRelAddend link.order rel howto d).2 = d ∧
      ∀ jalShuffle, bfdMipsElfRelocShuffle link.order rel.type jalShuffle
        (bfdMipsElfRelocUnshuffle link.order rel.type jalShuffle d loc) loc = d := by
  intro howto loc performed
  have word := instruction_word_lt link.order rel.type d loc
  have mask : howto.dstMask.toNat < 2 ^ 32 := dst_mask_lt rel.type size
  have stored := replace_word_lt (y := value) mask word
  have run : performed = _ := perform_relocation_relocatable link rel value sec d howto size isPartial
  have contents : performed.contents = bfdMipsElfRelocShuffle link.order rel.type false
      (bfdPut32 link.order (BitField.replace howto.dstMask (instructionWord link.order rel.type d loc) value)
        (bfdMipsElfRelocUnshuffle link.order rel.type false d loc) loc) loc := by
    rw [run]
  have written : instructionWord link.order rel.type performed.contents loc =
      BitField.replace howto.dstMask (instructionWord link.order rel.type d loc) value := by
    rw [contents, instruction_word_shuffle, bfdGet32_put32 _ _ _ _ stored]
  -- the section before is its own unshuffled word, stored and shuffled back
  have before : d = bfdMipsElfRelocShuffle link.order rel.type false
      (bfdPut32 link.order (instructionWord link.order rel.type d loc)
        (bfdMipsElfRelocUnshuffle link.order rel.type false d loc) loc) loc := by
    rw [instructionWord, bfdPut32_get32, shuffle_unshuffle]
  have agree : AgreeOff (fieldBytes link.order rel.type howto.dstMask loc) performed.contents d := by
    have bits := shuffle_agree link.order rel.type loc mask stored word
      (BitField.replace_outside howto.dstMask (instructionWord link.order rel.type d loc) value)
      (AgreeOff.refl (fun _ => 0) (bfdMipsElfRelocUnshuffle link.order rel.type false d loc))
    rw [← before, ← contents] at bits
    exact bits
  refine ⟨by rw [run], ?_, ?_, agree, ?_, ?_, ?_⟩
  · rw [read_rel_addend_word rel _ _ _ size, written, sameMask]
    exact congrArg (·, performed.contents) (replace_and_mask _ _ _)
  · rw [written]
    exact BitField.replace_outside _ _ _
  · exact fun i outside => agree.outside (field_bytes_outside _ _ _ _ _ outside)
  · rw [read_rel_addend_word rel _ _ _ size]
  · exact fun jalShuffle => shuffle_unshuffle link.order rel.type jalShuffle d loc

def mips16Jump : InternalRela := ⟨4, .rMips16_26, 1, .local sectionSym (keptSection 0 0) none none, 0⟩

theorem mips16_jump_round_trip :
    (mipsElfReadRelAddend .big mips16Jump (mipsElf32RtypeToHowto .rMips16_26)
      (mipsElfPerformRelocation (staticLink .big true) (mipsElf32RtypeToHowto .rMips16_26) mips16Jump 0x5123456
        (keptSection 0 0) (fun i => if i = 4 then 0x18 else 0) false).contents).1 = 0x1123456 :=
  congrArg Prod.fst (field_round_trip (staticLink .big true) mips16Jump 0x5123456 (keptSection 0 0)
    (fun i => if i = 4 then 0x18 else 0) (by decide) (by decide) rfl).2.1

end Openisa.Elf
