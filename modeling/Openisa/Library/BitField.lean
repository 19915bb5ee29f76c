import Mathlib.Data.Nat.Bitwise
import Mathlib.Tactic.Ring

/-! Bit fields of machine words: masks, replacement under a mask, and addition in place. -/

namespace Openisa.Library.BitField

variable {n : Nat}

/-- The `width` bits that start at bit `pos`, as a mask of an `n`-bit word. -/
def mask (n pos width : Nat) : BitVec n :=
  (BitVec.allOnes width).setWidth n <<< pos

/-- The bits of `x` outside the mask together with the bits of `y` under it. -/
def replace (m x y : BitVec n) : BitVec n :=
  (x &&& ~~~m) ||| (y &&& m)

theorem getLsbD_mask (pos width i : Nat) :
    (mask n pos width).getLsbD i = (decide (i < n) && decide (pos ≤ i) && decide (i < pos + width)) := by
  simp only [mask, BitVec.getLsbD_shiftLeft, BitVec.getLsbD_setWidth, BitVec.getLsbD_allOnes]
  by_cases inside : i < n <;> by_cases above : pos ≤ i <;> by_cases below : i < pos + width <;>
    simp [inside, above, below] <;> omega

theorem getLsbD_replace (m x y : BitVec n) (i : Nat) (inside : i < n) :
    (replace m x y).getLsbD i = if m.getLsbD i then y.getLsbD i else x.getLsbD i := by
  simp only [replace, BitVec.getLsbD_or, BitVec.getLsbD_and, BitVec.getLsbD_not, inside, decide_true,
    Bool.true_and]
  cases m.getLsbD i <;> simp

theorem replace_outside (m x y : BitVec n) : replace m x y &&& ~~~m = x &&& ~~~m := by
  apply BitVec.eq_of_getLsbD_eq
  intro i inside
  simp only [BitVec.getLsbD_and, getLsbD_replace _ _ _ _ inside, BitVec.getLsbD_not, inside,
    decide_true, Bool.true_and]
  cases m.getLsbD i <;> simp

theorem field_replace (pos width : Nat) (fits : pos + width ≤ n) (x y : BitVec n) :
    (replace (mask n pos width) x y).extractLsb' pos width = y.extractLsb' pos width := by
  apply BitVec.eq_of_getLsbD_eq
  intro i below
  have inside : pos + i < n := by omega
  simp only [BitVec.getLsbD_extractLsb', getLsbD_replace _ _ _ _ inside, getLsbD_mask]
  simp [below, inside]

theorem field_and_mask (pos width : Nat) (fits : pos + width ≤ n) (x : BitVec n) :
    (x &&& mask n pos width).extractLsb' pos width = x.extractLsb' pos width := by
  have replaced := field_replace pos width fits 0#n x
  simpa only [replace, BitVec.zero_and, BitVec.zero_or] using replaced

theorem eq_of_field_eq (pos width : Nat) (x y : BitVec n)
    (field : x.extractLsb' pos width = y.extractLsb' pos width)
    (outside : x &&& ~~~mask n pos width = y &&& ~~~mask n pos width) : x = y := by
  apply BitVec.eq_of_getLsbD_eq
  intro i inside
  by_cases under : pos ≤ i ∧ i < pos + width
  · have bit := congrArg (fun z => z.getLsbD (i - pos)) field
    simp only [BitVec.getLsbD_extractLsb'] at bit
    have short : i - pos < width := by omega
    have index : pos + (i - pos) = i := by omega
    simpa [short, index] using bit
  · have bit := congrArg (fun z => z.getLsbD i) outside
    have bare : (mask n pos width).getLsbD i = false := by
      rw [getLsbD_mask]
      simp only [inside, decide_true, Bool.true_and, Bool.and_eq_false_imp, decide_eq_true_eq,
        decide_eq_false_iff_not]
      omega
    simp only [BitVec.getLsbD_and, BitVec.getLsbD_not, inside, bare, decide_true, Bool.not_false,
      Bool.and_true] at bit
    exact bit

theorem replace_eq_iff (pos width : Nat) (fits : pos + width ≤ n) (x y z : BitVec n) :
    replace (mask n pos width) x y = replace (mask n pos width) x z ↔
      y.extractLsb' pos width = z.extractLsb' pos width := by
  constructor
  · intro same
    have fields := congrArg (BitVec.extractLsb' pos width) same
    rwa [field_replace pos width fits, field_replace pos width fits] at fields
  · intro fields
    apply eq_of_field_eq pos width
    · rw [field_replace pos width fits, field_replace pos width fits, fields]
    · rw [replace_outside, replace_outside]

theorem and_mask_toNat (pos width : Nat) (fits : pos + width ≤ n) (x : BitVec n) :
    (x &&& mask n pos width).toNat = (x.extractLsb' pos width).toNat * 2 ^ pos := by
  apply Nat.eq_of_testBit_eq
  intro i
  rw [← Nat.shiftLeft_eq, Nat.testBit_shiftLeft, BitVec.testBit_toNat, BitVec.testBit_toNat,
    BitVec.getLsbD_and, getLsbD_mask, BitVec.getLsbD_extractLsb']
  by_cases above : pos ≤ i
  · have index : pos + (i - pos) = i := by omega
    by_cases below : i < pos + width
    · have short : i - pos < width := by omega
      have inside : i < n := by omega
      simp [above, below, short, inside, index]
    · have long : ¬ i - pos < width := by omega
      simp [below, long]
  · simp [above]

theorem field_add (pos width : Nat) (fits : pos + width ≤ n) (x u : BitVec n) :
    ((x &&& mask n pos width) + u <<< pos).extractLsb' pos width =
      x.extractLsb' pos width + u.setWidth width := by
  apply BitVec.eq_of_toNat_eq
  rw [BitVec.extractLsb'_toNat, BitVec.toNat_add, and_mask_toNat pos width fits,
    BitVec.toNat_shiftLeft, BitVec.toNat_add, BitVec.toNat_setWidth, Nat.shiftRight_eq_div_pow,
    Nat.shiftLeft_eq, Nat.add_mod_mod, Nat.add_mod_mod, ← Nat.add_mul]
  have split : 2 ^ n = 2 ^ pos * 2 ^ (n - pos) := by
    rw [← Nat.pow_add]
    congr 1
    omega
  rw [split, Nat.mul_comm _ (2 ^ pos), Nat.mul_mod_mul_left,
    Nat.mul_div_cancel_left _ (Nat.two_pow_pos pos)]
  exact Nat.mod_mod_of_dvd _ (Nat.pow_dvd_pow 2 (by omega))

/-- Adding `u` to the field of `x`, modulo the field; the other bits stay. -/
def addField (pos width : Nat) (x u : BitVec n) : BitVec n :=
  replace (mask n pos width) x ((x &&& mask n pos width) + u <<< pos)

theorem addField_outside (pos width : Nat) (x u : BitVec n) :
    addField pos width x u &&& ~~~mask n pos width = x &&& ~~~mask n pos width :=
  replace_outside _ _ _

theorem field_addField (pos width : Nat) (fits : pos + width ≤ n) (x u : BitVec n) :
    (addField pos width x u).extractLsb' pos width = x.extractLsb' pos width + u.setWidth width := by
  rw [addField, field_replace pos width fits, field_add pos width fits]

theorem addField_addField (pos width : Nat) (fits : pos + width ≤ n) (x u v : BitVec n) :
    addField pos width (addField pos width x u) v = addField pos width x (u + v) := by
  apply eq_of_field_eq pos width
  · rw [field_addField pos width fits, field_addField pos width fits, field_addField pos width fits,
      BitVec.setWidth_add _ _ (by omega), BitVec.add_assoc]
  · rw [addField_outside, addField_outside, addField_outside]

theorem addField_eq_iff (pos width : Nat) (fits : pos + width ≤ n) (x u v : BitVec n) :
    addField pos width x u = addField pos width x v ↔ u.setWidth width = v.setWidth width := by
  rw [addField, addField, replace_eq_iff pos width fits, field_add pos width fits,
    field_add pos width fits]
  exact BitVec.add_right_inj _

theorem replace_lt (pos width bits : Nat) (fits : pos + width ≤ bits) (x y : BitVec n)
    (short : x.toNat < 2 ^ bits) : (replace (mask n pos width) x y).toNat < 2 ^ bits := by
  apply Nat.lt_pow_two_of_testBit
  intro i high
  rw [BitVec.testBit_toNat]
  by_cases inside : i < n
  · have bare : (mask n pos width).getLsbD i = false := by
      rw [getLsbD_mask]
      simp only [inside, decide_true, Bool.true_and, Bool.and_eq_false_imp, decide_eq_true_eq,
        decide_eq_false_iff_not]
      omega
    rw [getLsbD_replace _ _ _ _ inside, bare, ← BitVec.testBit_toNat]
    exact Nat.testBit_lt_two_pow (lt_of_lt_of_le short (Nat.pow_le_pow_right (by decide) high))
  · exact BitVec.getLsbD_of_ge _ _ (by omega)

theorem addField_lt (pos width bits : Nat) (fits : pos + width ≤ bits) (x u : BitVec n)
    (short : x.toNat < 2 ^ bits) : (addField pos width x u).toNat < 2 ^ bits :=
  replace_lt pos width bits fits x _ short

theorem and_low_toNat (width : Nat) (fits : width ≤ n) (x : BitVec n) :
    (x &&& mask n 0 width).toNat = x.toNat % 2 ^ width := by
  rw [and_mask_toNat 0 width (by omega), BitVec.extractLsb'_toNat, Nat.shiftRight_zero, Nat.pow_zero,
    Nat.mul_one]

theorem or_high_toNat (k : Nat) (fits : k ≤ n) (x : BitVec n) :
    (x ||| (BitVec.allOnes n <<< k)).toNat = x.toNat % 2 ^ k + (2 ^ n - 2 ^ k) := by
  have weight : 2 ^ n = 2 ^ (n - k) * 2 ^ k := by
    rw [← Nat.pow_add, Nat.sub_add_cancel fits]
  have high : 2 ^ n - 2 ^ k = (2 ^ (n - k) - 1) <<< k := by
    rw [weight, Nat.shiftLeft_eq, Nat.sub_mul, Nat.one_mul]
  rw [high, Nat.add_comm, Nat.shiftLeft_add_eq_or_of_lt (Nat.mod_lt _ (Nat.two_pow_pos k))]
  apply Nat.eq_of_testBit_eq
  intro i
  rw [BitVec.testBit_toNat, BitVec.getLsbD_or, BitVec.getLsbD_shiftLeft, BitVec.getLsbD_allOnes,
    Nat.testBit_or, Nat.testBit_shiftLeft, Nat.testBit_two_pow_sub_one, Nat.testBit_mod_two_pow,
    BitVec.testBit_toNat]
  by_cases inside : i < n
  · by_cases below : i < k
    · simp [inside, below]
    · have long : i - k < n - k := by omega
      have short : i - k < n := by omega
      have above : k ≤ i := by omega
      simp [inside, below, long, short, above]
  · have beyond : ¬ i - k < n - k ∨ i < k := by omega
    have outside := BitVec.getLsbD_of_ge x i (by omega)
    rcases beyond with long | below
    · simp [inside, long, outside]
    · omega

theorem toNat_field (pos width : Nat) (x : BitVec n) :
    (x.extractLsb' pos width).toNat = x.toNat / 2 ^ pos % 2 ^ width := by
  rw [BitVec.extractLsb'_toNat, Nat.shiftRight_eq_div_pow]

end Openisa.Library.BitField
