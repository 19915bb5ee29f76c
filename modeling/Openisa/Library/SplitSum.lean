import Mathlib.Data.Int.ModEq
import Mathlib.Data.Nat.ModEq
import Mathlib.Tactic.Ring

/-! Sums of numbers that are kept in two parts, a multiple of a base and a rest. -/

namespace Openisa.Library.SplitSum

variable {b c : Nat}

theorem div_add_carry (pos : 0 < b) (x y : Nat) :
    (x + y) / b = x / b + y / b + if x % b + y % b < b then 0 else 1 := by
  rw [Nat.add_div pos]
  split <;> split <;> first | rfl | omega

theorem mod_succ_ne (wide : 1 < c) (x : Nat) : (x + 1) % c ≠ x % c := by
  intro same
  have step : x + 1 ≡ x + 0 [MOD c] := by simpa [Nat.ModEq] using same
  have one := Nat.ModEq.add_left_cancel' x step
  rw [Nat.ModEq, Nat.mod_eq_of_lt wide, Nat.zero_mod] at one
  omega

theorem add_div_mod_iff (pos : 0 < b) (wide : 1 < c) (h x y : Nat) :
    (h + x / b + y / b) % c = (h + (x + y) / b) % c ↔ x % b + y % b < b := by
  rw [div_add_carry pos x y]
  constructor
  · intro same
    by_contra carried
    rw [if_neg carried, show h + (x / b + y / b + 1) = h + x / b + y / b + 1 by ring] at same
    exact mod_succ_ne wide _ same.symm
  · intro low
    rw [if_pos low, Nat.add_zero, Nat.add_assoc]

theorem join_mod (x : Nat) : x / b % c * b + x % b = x % (b * c) := by
  rw [Nat.mod_mul, Nat.mul_comm, Nat.add_comm]

theorem join_inj (pos : 0 < b) (x y r : Nat) : x * b + r = y * b + r ↔ x = y := by
  constructor
  · intro same
    exact Nat.eq_of_mul_eq_mul_right pos (Nat.add_right_cancel same)
  · intro same
    rw [same]

/-- A number `h * b + l`, kept as `h` modulo `c` and `l` below `b`, to which `s` is added part by part
holds the sum exactly when the low parts do not carry. -/
theorem add_parts_iff (pos : 0 < b) (wide : 1 < c) (h l s : Nat) (low : l < b) :
    (h + s / b) % c * b + (l + s) % b = (h * b + l + s) % (b * c) ↔ s % b + l < b := by
  have quotient : (h * b + l + s) / b = h + (l + s) / b := by
    rw [Nat.add_assoc, Nat.mul_comm, Nat.mul_add_div pos]
  have rest : (h * b + l + s) % b = (l + s) % b := by
    rw [Nat.add_assoc, Nat.mul_comm, Nat.mul_add_mod]
  rw [← join_mod, quotient, rest, join_inj pos]
  have carry := add_div_mod_iff pos wide h l s
  rw [Nat.div_eq_of_lt low, Nat.add_zero, Nat.mod_eq_of_lt low, Nat.add_comm l (s % b)] at carry
  exact carry

theorem mod_pow_div_mod (n k w : Nat) (fits : k + w ≤ n) (x : Nat) :
    x % 2 ^ n / 2 ^ k % 2 ^ w = x / 2 ^ k % 2 ^ w := by
  have split : 2 ^ n = 2 ^ k * 2 ^ (n - k) := by
    rw [← Nat.pow_add, Nat.add_sub_cancel' (by omega)]
  rw [split, Nat.mod_mul_right_div_self]
  exact Nat.mod_mod_of_dvd _ (Nat.pow_dvd_pow 2 (by omega))

theorem join_eq_iff (h h' l l' : Nat) (low : l < b) (low' : l' < b) :
    h * b + l = h' * b + l' ↔ h = h' ∧ l = l' := by
  have pos : 0 < b := Nat.zero_lt_of_lt low
  constructor
  · intro same
    have quotient := congrArg (· / b) same
    have rest := congrArg (· % b) same
    simp only [Nat.mul_comm _ b, Nat.mul_add_div pos, Nat.div_eq_of_lt low, Nat.div_eq_of_lt low',
      Nat.mul_add_mod, Nat.mod_eq_of_lt low, Nat.mod_eq_of_lt low', Nat.add_zero] at quotient rest
    exact ⟨quotient, rest⟩
  · rintro ⟨rfl, rfl⟩
    rfl

/-- Adding `s` part by part to `h * b + l`, with `l` a signed remainder, gives the sum modulo `b * c`
exactly when the low parts stay below half of the base. -/
theorem add_signed_parts_iff (m c : Nat) (wide : 1 < c) (h l s : Int) (low : -m ≤ l) (high : l < m) :
    (h + s / (2 * m : Nat)) * (2 * m : Nat) + (l + s).bmod (2 * m) ≡
        s + (h * (2 * m : Nat) + l) [ZMOD (2 * m : Nat) * c] ↔ s % (2 * m : Nat) + l < m := by
  have pos : 0 < m := by omega
  have rest : (l + s).bmod (2 * m) = (s % (2 * m : Nat) + l).bmod (2 * m) := by
    rw [Int.emod_add_bmod, Int.add_comm]
  have whole : (h + s / (2 * m : Nat)) * (2 * m : Nat) + (s % (2 * m : Nat) + l) =
      s + (h * (2 * m : Nat) + l) := by
    calc
      _ = ((2 * m : Nat) * (s / (2 * m : Nat)) + s % (2 * m : Nat)) + (h * (2 * m : Nat) + l) := by ring
      _ = _ := by rw [Int.mul_ediv_add_emod]
  have above := Int.emod_nonneg s (show ((2 * m : Nat) : Int) ≠ 0 by omega)
  have below := Int.emod_lt_of_pos s (show (0 : Int) < (2 * m : Nat) by omega)
  rw [rest, ← whole]
  generalize s % (2 * m : Nat) = r at *
  constructor
  · intro same
    by_contra carried
    have wrapped : (r + l).bmod (2 * m) = r + l - (2 * m : Nat) := by
      rw [← Int.sub_bmod_right]
      exact Int.bmod_eq_of_le_mul_two (by omega) (by omega)
    rw [wrapped] at same
    have divides := Int.modEq_iff_dvd.mp (Int.ModEq.add_left_cancel' _ same)
    rw [sub_sub_cancel, ← Int.natCast_mul, Int.natCast_dvd_natCast] at divides
    have bound := Nat.le_of_dvd (by omega) divides
    exact absurd bound (Nat.not_le.mpr (Nat.lt_mul_iff_one_lt_right (by omega) |>.mpr wide))
  · intro fits
    rw [Int.bmod_eq_of_le_mul_two (by omega) (by omega)]

end Openisa.Library.SplitSum
