import Openisa.Library.ByteStore

/-! Deleting a range of bytes: what lies behind it moves down, what lies before it stays. -/

namespace Openisa.Library.ByteDeletion

open ByteStore

/-- `memmove (d + dst, d + dst + count, n)`. -/
def moveDown (dst count n : Nat) (d : Store) : Store :=
  fun i => if dst ≤ i ∧ i < dst + n then d (i + count) else d i

/-- The place of a byte after `count` bytes from `addr` on were deleted. -/
def moved (addr count p : Nat) : Nat := if addr < p then p - count else p

/-- The bytes from `loc` on, `n` of them, are not among the deleted ones. -/
def Spared (addr count loc n : Nat) : Prop := loc + n ≤ addr ∨ addr + count ≤ loc

instance (addr count loc n : Nat) : Decidable (Spared addr count loc n) :=
  inferInstanceAs (Decidable (_ ∨ _))

variable {addr count loc n m : Nat} {d : Store}

theorem moved_before (before : loc ≤ addr) : moved addr count loc = loc := if_neg (Nat.not_lt.mpr before)

theorem moved_behind (behind : addr < loc) : moved addr count loc = loc - count := if_pos behind

theorem moveDown_before {i : Nat} (before : i < addr) : moveDown addr count m d i = d i := by
  rw [moveDown, if_neg (by omega)]

theorem moveDown_behind {i : Nat} (behind : addr + count ≤ i) (inside : i < addr + count + m) :
    moveDown addr count m d (i - count) = d i := by
  rw [moveDown, if_pos (by omega), Nat.sub_add_cancel (by omega)]

theorem load_moveDown (order : Endian) (positive : 0 < count) (spared : Spared addr count loc n)
    (inside : loc + n ≤ addr + count + m) :
    load order n (moveDown addr count m d) (moved addr count loc) = load order n d loc := by
  rcases spared with before | behind
  · rw [moved_before (by omega)]
    apply load_congr
    intro i _ below
    exact moveDown_before (by omega)
  · rw [moved_behind (by omega)]
    apply digits_congr
    intro k below
    have place := order.offset_lt n k below
    have index : loc - count + order.offset n k = loc + order.offset n k - count := by omega
    rw [index, moveDown_behind (by omega) (by omega)]

end Openisa.Library.ByteDeletion
