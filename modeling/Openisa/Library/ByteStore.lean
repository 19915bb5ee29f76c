import Mathlib.Data.Nat.ModEq
import Mathlib.Tactic.Positivity
import Mathlib.Tactic.Ring

/-! Byte-addressed stores that hold multi-byte numbers in either byte order. -/

namespace Openisa.Library.ByteStore

inductive Endian where
  | little
  | big
  deriving DecidableEq, Repr

abbrev Store := Nat → BitVec 8

/-- Where the byte of weight `256 ^ k` of an `n`-byte number lies, relative to its first byte. -/
def Endian.offset (order : Endian) (n k : Nat) : Nat :=
  match order with
  | .little => k
  | .big => n - 1 - k

/-- The number whose byte of weight `256 ^ k` is `f k`, for `k < n`. -/
def digits (f : Nat → BitVec 8) : Nat → Nat
  | 0 => 0
  | n + 1 => digits f n + (f n).toNat * 256 ^ n

def load (order : Endian) (n : Nat) (d : Store) (loc : Nat) : Nat :=
  digits (fun k => d (loc + order.offset n k)) n

def store (order : Endian) (n value : Nat) (d : Store) (loc : Nat) : Store :=
  fun i => if loc ≤ i ∧ i < loc + n then
    BitVec.ofNat 8 (value / 256 ^ order.offset n (i - loc)) else d i

theorem digits_congr (f g : Nat → BitVec 8) (n : Nat) (same : ∀ k < n, f k = g k) :
    digits f n = digits g n := by
  induction n with
  | zero => rfl
  | succ n ih => simp only [digits, same n (by omega), ih (fun k below => same k (by omega))]

theorem digits_lt (f : Nat → BitVec 8) (n : Nat) : digits f n < 256 ^ n := by
  induction n with
  | zero => simp [digits]
  | succ n ih =>
      have byte : (f n).toNat * 256 ^ n ≤ 255 * 256 ^ n :=
        Nat.mul_le_mul_right _ (Nat.le_of_lt_succ (f n).isLt)
      simp only [digits, Nat.pow_succ]
      omega

theorem digits_digit (f : Nat → BitVec 8) (n k : Nat) (below : k < n) :
    digits f n / 256 ^ k % 256 = (f k).toNat := by
  induction n with
  | zero => omega
  | succ n ih =>
      have byte : (f n).toNat < 256 := (f n).isLt
      by_cases last : k = n
      · subst last
        simp only [digits]
        rw [Nat.add_mul_div_right _ _ (by positivity), Nat.div_eq_of_lt (digits_lt f k), Nat.zero_add,
          Nat.mod_eq_of_lt byte]
      · have low : k < n := by omega
        have weight : 256 ^ n = 256 ^ k * (256 * 256 ^ (n - k - 1)) := by
          rw [← Nat.pow_succ', ← Nat.pow_add]
          congr 1
          omega
        simp only [digits]
        rw [weight, show (f n).toNat * (256 ^ k * (256 * 256 ^ (n - k - 1))) =
            256 ^ k * (256 * ((f n).toNat * 256 ^ (n - k - 1))) by ring,
          Nat.add_mul_div_left _ _ (by positivity), Nat.add_mul_mod_self_left, ih low]

theorem digits_of_number (value n : Nat) :
    digits (fun k => BitVec.ofNat 8 (value / 256 ^ k)) n = value % 256 ^ n := by
  induction n with
  | zero => simp [digits, Nat.mod_one]
  | succ n ih =>
      simp only [digits, ih, BitVec.toNat_ofNat, Nat.mod_pow_succ, Nat.reducePow]
      rw [Nat.mul_comm]

theorem Endian.offset_lt (order : Endian) (n k : Nat) (below : k < n) : order.offset n k < n := by
  cases order with
  | little => exact below
  | big =>
      simp only [Endian.offset]
      omega

theorem Endian.offset_offset (order : Endian) (n k : Nat) (below : k < n) :
    order.offset n (order.offset n k) = k := by
  cases order with
  | little => rfl
  | big =>
      simp only [Endian.offset]
      omega

theorem load_lt (order : Endian) (n : Nat) (d : Store) (loc : Nat) : load order n d loc < 256 ^ n :=
  digits_lt _ n

theorem load_congr (order : Endian) (n : Nat) (d d' : Store) (loc : Nat)
    (same : ∀ i, loc ≤ i → i < loc + n → d i = d' i) : load order n d loc = load order n d' loc := by
  apply digits_congr
  intro k below
  have inside := order.offset_lt n k below
  exact same _ (by omega) (by omega)

theorem store_outside (order : Endian) (n value : Nat) (d : Store) (loc i : Nat)
    (outside : i < loc ∨ loc + n ≤ i) : store order n value d loc i = d i := by
  simp only [store]
  rw [if_neg (by omega)]

theorem store_inside (order : Endian) (n value : Nat) (d d' : Store) (loc i : Nat)
    (inside : loc ≤ i ∧ i < loc + n) : store order n value d loc i = store order n value d' loc i := by
  simp only [store]
  rw [if_pos inside, if_pos inside]

theorem load_store (order : Endian) (n value : Nat) (d : Store) (loc : Nat) :
    load order n (store order n value d loc) loc = value % 256 ^ n := by
  rw [← digits_of_number value n]
  apply digits_congr
  intro k below
  have inside := order.offset_lt n k below
  have index : loc + order.offset n k - loc = order.offset n k := by omega
  simp only [store]
  rw [if_pos (by omega), index, order.offset_offset n k below]

theorem load_store_disjoint (order : Endian) (n m value : Nat) (d : Store) (loc loc' : Nat)
    (apart : loc' + m ≤ loc ∨ loc + n ≤ loc') :
    load order m (store order n value d loc) loc' = load order m d loc' := by
  apply load_congr
  intro i low high
  exact store_outside order n value d loc i (by omega)

theorem store_load (order : Endian) (n : Nat) (d : Store) (loc : Nat) :
    store order n (load order n d loc) d loc = d := by
  funext i
  simp only [store]
  split
  · rename_i inside
    have below : i - loc < n := by omega
    have weight := order.offset_lt n (i - loc) below
    apply BitVec.eq_of_toNat_eq
    rw [BitVec.toNat_ofNat, load, digits_digit _ n _ weight, order.offset_offset n _ below]
    congr 2
    omega
  · rfl

theorem store_store (order : Endian) (n value value' : Nat) (d : Store) (loc : Nat) :
    store order n value' (store order n value d loc) loc = store order n value' d loc := by
  funext i
  simp only [store]
  split <;> rfl

theorem store_comm (order : Endian) (n m value value' : Nat) (d : Store) (loc loc' : Nat)
    (apart : loc' + m ≤ loc ∨ loc + n ≤ loc') :
    store order m value' (store order n value d loc) loc' =
      store order n value (store order m value' d loc') loc := by
  funext i
  simp only [store]
  split <;> split <;> first | rfl | omega

/-- Storing two numbers at one place gives the same store exactly when the stored bytes agree. -/
theorem store_eq_iff (order : Endian) (n value value' : Nat) (d : Store) (loc : Nat) :
    store order n value d loc = store order n value' d loc ↔ value % 256 ^ n = value' % 256 ^ n := by
  constructor
  · intro same
    rw [← load_store order n value d loc, same, load_store]
  · intro same
    have reload := store_load order n (store order n value d loc) loc
    have reload' := store_load order n (store order n value' d loc) loc
    rw [load_store, store_store] at reload reload'
    rw [← reload, ← reload', same]

/-- The bytes `d` from `base` on, above the bytes of `b`. -/
def place (base : Nat) (d b : Store) : Store :=
  fun i => if base ≤ i then d (i - base) else b i

theorem place_base (base : Nat) (d b : Store) (i : Nat) : place base d b (base + i) = d i := by
  rw [place, if_pos (Nat.le_add_right base i), Nat.add_sub_cancel_left]

theorem place_below (base : Nat) (d b : Store) (i : Nat) (below : i < base) : place base d b i = b i := by
  rw [place, if_neg (by omega)]

theorem load_place (order : Endian) (n : Nat) (d b : Store) (base loc : Nat) :
    load order n (place base d b) (base + loc) = load order n d loc := by
  apply digits_congr
  intro k _
  rw [Nat.add_assoc, place_base]

theorem store_place (order : Endian) (n value : Nat) (d b : Store) (base loc : Nat) :
    store order n value (place base d b) (base + loc) = place base (store order n value d loc) b := by
  funext i
  by_cases above : base ≤ i
  · obtain ⟨j, rfl⟩ := Nat.exists_eq_add_of_le above
    rw [place_base]
    simp only [store, Nat.add_le_add_iff_left, Nat.add_assoc, Nat.add_lt_add_iff_left,
      Nat.add_sub_add_left, place_base]
  · have below : i < base := by omega
    rw [store_outside _ _ _ _ _ _ (by omega), place_below _ _ _ _ below, place_below _ _ _ _ below]

end Openisa.Library.ByteStore
