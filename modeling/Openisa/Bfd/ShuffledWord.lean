import Openisa.Bfd.GenericReloc
import Mathlib.Tactic.IntervalCases

/-! The field of an instruction whose halves the shuffles permute, and what relocating it does. -/

namespace Openisa.Bfd

open Openisa.Library
open Openisa.Library.ByteStore

def joinHalves (rType : MipsReloc) (jalShuffle : Bool) (first second : BfdVma) : BfdVma :=
  if rType.micromipsRelocP || (rType == .rMips16_26 && !jalShuffle) then
    first <<< 16 ||| second
  else if rType != .rMips16_26 then
    (first &&& 0xf800) <<< 16 ||| (second &&& 0xffe0) <<< 11 ||| (first &&& 0x1f) <<< 11 |||
      (first &&& 0x7e0) ||| (second &&& 0x1f)
  else
    (first &&& 0xfc00) <<< 16 ||| (first &&& 0x3e0) <<< 11 ||| (first &&& 0x1f) <<< 21 ||| second

def splitHalves (rType : MipsReloc) (jalShuffle : Bool) (val : BfdVma) : BfdVma × BfdVma :=
  if rType.micromipsRelocP || (rType == .rMips16_26 && !jalShuffle) then
    (val >>> 16, val &&& 0xffff)
  else if rType != .rMips16_26 then
    (((val >>> 16) &&& (0xf800 : BfdVma)) ||| ((val >>> 11) &&& (0x1f : BfdVma)) ||| (val &&& 0x7e0),
      ((val >>> 11) &&& (0xffe0 : BfdVma)) ||| (val &&& 0x1f))
  else
    (((val >>> 16) &&& (0xfc00 : BfdVma)) ||| ((val >>> 11) &&& (0x3e0 : BfdVma)) |||
        ((val >>> 21) &&& (0x1f : BfdVma)),
      val &&& 0xffff)

theorem unshuffle_halves (order : Endian) (rType : MipsReloc) (jalShuffle : Bool) (d : Store) (loc : Nat)
    (shuffled : ¬ plainOrderP rType = true) :
    bfdMipsElfRelocUnshuffle order rType jalShuffle d loc =
      bfdPut32 order (joinHalves rType jalShuffle (bfdGet16 order d loc) (bfdGet16 order d (loc + 2))) d loc := by
  rw [bfdMipsElfRelocUnshuffle, if_neg shuffled]
  rfl

theorem shuffle_halves (order : Endian) (rType : MipsReloc) (jalShuffle : Bool) (d : Store) (loc : Nat)
    (shuffled : ¬ plainOrderP rType = true) :
    bfdMipsElfRelocShuffle order rType jalShuffle d loc =
      bfdPut16 order (splitHalves rType jalShuffle (bfdGet32 order d loc)).1
        (bfdPut16 order (splitHalves rType jalShuffle (bfdGet32 order d loc)).2 d (loc + 2)) loc := by
  rw [bfdMipsElfRelocShuffle, if_neg shuffled]
  rfl

theorem high_bit_false {x : BfdVma} {w i : Nat} (below : x.toNat < 2 ^ w) (above : w ≤ i) :
    x.getLsbD i = false :=
  Nat.testBit_lt_two_pow (lt_of_lt_of_le below (Nat.pow_le_pow_right (by decide) above))

theorem lt_of_high_bits {x : BfdVma} {w : Nat} (high : ∀ i, w ≤ i → x.getLsbD i = false) :
    x.toNat < 2 ^ w := by
  apply Nat.lt_pow_two_of_testBit
  exact fun i above => high i above

theorem mask_f800 : (0xf800 : BfdVma) = BitField.mask 64 11 5 := by decide
theorem mask_ffe0 : (0xffe0 : BfdVma) = BitField.mask 64 5 11 := by decide
theorem mask_1f : (0x1f : BfdVma) = BitField.mask 64 0 5 := by decide
theorem mask_7e0 : (0x7e0 : BfdVma) = BitField.mask 64 5 6 := by decide
theorem mask_fc00 : (0xfc00 : BfdVma) = BitField.mask 64 10 6 := by decide
theorem mask_3e0 : (0x3e0 : BfdVma) = BitField.mask 64 5 5 := by decide
theorem mask_ffff : (0xffff : BfdVma) = BitField.mask 64 0 16 := by decide

theorem split_halves_lt (rType : MipsReloc) (jalShuffle : Bool) {val : BfdVma} (word : val.toNat < 2 ^ 32) :
    (splitHalves rType jalShuffle val).1.toNat < 2 ^ 16 ∧ (splitHalves rType jalShuffle val).2.toNat < 2 ^ 16 := by
  constructor
  · apply lt_of_high_bits
    intro i above
    have high : val.getLsbD (16 + i) = false := high_bit_false word (by omega)
    rw [splitHalves]
    split
    · rw [BitVec.getLsbD_ushiftRight, high]
    · split <;>
      · simp only [mask_f800, mask_1f, mask_7e0, mask_fc00, mask_3e0, BitVec.getLsbD_or,
          BitVec.getLsbD_and, BitField.getLsbD_mask]
        grind
  · apply lt_of_high_bits
    intro i above
    rw [splitHalves]
    split
    · simp only [mask_ffff, BitVec.getLsbD_and, BitField.getLsbD_mask]
      grind
    · split <;>
      · simp only [mask_ffe0, mask_1f, mask_ffff, BitVec.getLsbD_or, BitVec.getLsbD_and,
          BitField.getLsbD_mask]
        grind

theorem join_halves_lt (rType : MipsReloc) (jalShuffle : Bool) {first second : BfdVma}
    (half : first.toNat < 2 ^ 16) (half' : second.toNat < 2 ^ 16) :
    (joinHalves rType jalShuffle first second).toNat < 2 ^ 32 := by
  apply lt_of_high_bits
  intro i above
  have high : first.getLsbD (i - 16) = false := high_bit_false half (by omega)
  have low : second.getLsbD i = false := high_bit_false half' (by omega)
  rw [joinHalves]
  split
  · simp only [BitVec.getLsbD_or, BitVec.getLsbD_shiftLeft, high, low, Bool.and_false, Bool.or_false]
  · split <;>
    · simp only [mask_f800, mask_ffe0, mask_1f, mask_7e0, mask_fc00, mask_3e0, BitVec.getLsbD_or,
        BitVec.getLsbD_and, BitVec.getLsbD_shiftLeft, BitField.getLsbD_mask, high, low]
      grind

theorem join_split_halves (rType : MipsReloc) (jalShuffle : Bool) {val : BfdVma} (word : val.toNat < 2 ^ 32) :
    joinHalves rType jalShuffle (splitHalves rType jalShuffle val).1 (splitHalves rType jalShuffle val).2 =
      val := by
  have halves := split_halves_lt rType jalShuffle word
  have joined := join_halves_lt rType jalShuffle halves.1 halves.2
  apply BitVec.eq_of_getLsbD_eq
  intro i inside
  by_cases low : i < 32
  · rw [joinHalves, splitHalves]
    split
    · simp only [mask_ffff, BitVec.getLsbD_or, BitVec.getLsbD_and, BitVec.getLsbD_shiftLeft,
        BitVec.getLsbD_ushiftRight, BitField.getLsbD_mask]
      interval_cases i <;> simp
    · split <;>
      · simp only [mask_f800, mask_ffe0, mask_1f, mask_7e0, mask_fc00, mask_3e0, mask_ffff,
          BitVec.getLsbD_or, BitVec.getLsbD_and, BitVec.getLsbD_shiftLeft, BitVec.getLsbD_ushiftRight,
          BitField.getLsbD_mask]
        interval_cases i <;> simp
  · have above : 32 ≤ i := Nat.le_of_not_lt low
    rw [high_bit_false joined above, high_bit_false word above]

variable (order : Endian) (rType : MipsReloc) (jalShuffle : Bool) (d : Store) (loc : Nat)

theorem bfdGet16_lt : (bfdGet16 order d loc).toNat < 2 ^ 16 := by
  have half := load_lt order 2 d loc
  simp only [bfdGet, BitVec.toNat_ofNat]
  omega

theorem bfdGet16_put16 (x : BfdVma) (half : x.toNat < 2 ^ 16) :
    bfdGet16 order (bfdPut16 order x d loc) loc = x := by
  apply BitVec.eq_of_toNat_eq
  simp only [bfdGet, bfdPut, load_store, BitVec.toNat_ofNat]
  omega

theorem unshuffle_shuffle :
    bfdGet32 order (bfdMipsElfRelocUnshuffle order rType jalShuffle
      (bfdMipsElfRelocShuffle order rType jalShuffle d loc) loc) loc = bfdGet32 order d loc := by
  by_cases plain : plainOrderP rType = true
  · rw [shuffle_plain _ _ _ _ _ plain, unshuffle_plain _ _ _ _ _ plain]
  · have word := bfdGet32_lt order d loc
    have halves := split_halves_lt rType jalShuffle word
    have first : ∀ x y, x.toNat < 2 ^ 16 →
        bfdGet16 order (bfdPut16 order x (bfdPut16 order y d (loc + 2)) loc) loc = x :=
      fun x _ half => bfdGet16_put16 order _ loc x half
    have second : ∀ x y, y.toNat < 2 ^ 16 →
        bfdGet16 order (bfdPut16 order x (bfdPut16 order y d (loc + 2)) loc) (loc + 2) = y := by
      intro x y half
      rw [bfdGet16, bfdGet, bfdPut16, bfdPut, load_store_disjoint order 2 2 _ _ _ _ (by omega)]
      exact bfdGet16_put16 order d (loc + 2) y half
    rw [unshuffle_halves _ _ _ _ _ plain, shuffle_halves _ _ _ _ _ plain, first _ _ halves.1,
      second _ _ halves.2, join_split_halves rType jalShuffle word, bfdGet32_put32 _ _ _ _ word]

theorem unshuffle_outside (i : Nat) (outside : i < loc ∨ loc + 4 ≤ i) :
    bfdMipsElfRelocUnshuffle order rType jalShuffle d loc i = d i := by
  by_cases plain : plainOrderP rType = true
  · rw [unshuffle_plain _ _ _ _ _ plain]
  · rw [unshuffle_halves _ _ _ _ _ plain]
    exact store_outside order 4 _ d loc i outside

theorem shuffle_outside (i : Nat) (outside : i < loc ∨ loc + 4 ≤ i) :
    bfdMipsElfRelocShuffle order rType jalShuffle d loc i = d i := by
  by_cases plain : plainOrderP rType = true
  · rw [shuffle_plain _ _ _ _ _ plain]
  · rw [shuffle_halves _ _ _ _ _ plain, bfdPut16, bfdPut, store_outside order 2 _ _ _ _ (by omega),
      bfdPut16, bfdPut, store_outside order 2 _ _ _ _ (by omega)]

def instructionWord : BfdVma := bfdGet32 order (bfdMipsElfRelocUnshuffle order rType false d loc) loc

theorem instruction_word_lt : (instructionWord order rType d loc).toNat < 2 ^ 32 := bfdGet32_lt order _ loc

theorem instruction_word_plain (plain : plainOrderP rType = true) :
    instructionWord order rType d loc = bfdGet32 order d loc := by
  rw [instructionWord, unshuffle_plain _ _ _ _ _ plain]

theorem instruction_word_shuffle : instructionWord order rType (bfdMipsElfRelocShuffle order rType false d loc) loc =
    bfdGet32 order d loc := unshuffle_shuffle order rType false d loc

theorem instruction_word_congr {d d' : Store} (same : ∀ i, loc ≤ i → i < loc + 4 → d i = d' i) :
    instructionWord order rType d loc = instructionWord order rType d' loc := by
  by_cases plain : plainOrderP rType = true
  · rw [instruction_word_plain _ _ _ _ plain, instruction_word_plain _ _ _ _ plain]
    exact congrArg (BitVec.ofNat 64) (load_congr order 4 d d' loc same)
  · have first : bfdGet16 order d loc = bfdGet16 order d' loc :=
      congrArg (BitVec.ofNat 64) (load_congr order 2 d d' loc fun i above below => same i above (by omega))
    have second : bfdGet16 order d (loc + 2) = bfdGet16 order d' (loc + 2) :=
      congrArg (BitVec.ofNat 64) (load_congr order 2 d d' (loc + 2) fun i above below =>
        same i (by omega) (by omega))
    have half : ∀ b l, (bfdGet16 order b l).toNat < 2 ^ 16 := bfdGet16_lt order
    rw [instructionWord, instructionWord, unshuffle_halves _ _ _ _ _ plain, unshuffle_halves _ _ _ _ _ plain,
      bfdGet32_put32 _ _ _ _ (join_halves_lt rType false (half d loc) (half d (loc + 2))),
      bfdGet32_put32 _ _ _ _ (join_halves_lt rType false (half d' loc) (half d' (loc + 2))), first, second]

variable {lib : BfdLib}

theorem relocate_field_word (sums : lib.StoresSum) (h : RelocHowto) (word : h.WordField) (val : BfdVma) :
    instructionWord order h.type (relocateField lib order h val d loc).2 loc =
        BitField.addField h.bitpos h.bitsize (instructionWord order h.type d loc) (val >>> h.rightshift) ∧
      ∀ i, i < loc ∨ loc + 4 ≤ i → (relocateField lib order h val d loc).2 i = d i := by
  have contents : (lib.relocateContents h order val (bfdMipsElfRelocUnshuffle order h.type false d loc) loc).2 =
      addToWord order h val (bfdMipsElfRelocUnshuffle order h.type false d loc) loc :=
    relocate_contents_word sums h word val _ loc
  have stored : (relocateField lib order h val d loc).2 = bfdMipsElfRelocShuffle order h.type false
      (addToWord order h val (bfdMipsElfRelocUnshuffle order h.type false d loc) loc) loc := by
    rw [← contents]
    rfl
  rw [stored]
  constructor
  · rw [instruction_word_shuffle, addToWord_word h word]
    rfl
  · intro i outside
    rw [shuffle_outside _ _ _ _ _ _ outside, addToWord_byte _ _ _ _ _ outside, unshuffle_outside _ _ _ _ _ _ outside]

end Openisa.Bfd
