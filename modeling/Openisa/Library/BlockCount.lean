import Mathlib.Algebra.BigOperators.Group.List.Basic
import Mathlib.Algebra.Order.Ring.Nat
import Mathlib.Data.Finset.Card
import Mathlib.Data.Finset.Union
import Mathlib.Data.Int.Interval
import Mathlib.Tactic.Ring

/-! The aligned blocks of `n` numbers that a set of numbers meets, wherever the first block starts. -/

namespace Openisa.Library.BlockCount

/-- The most blocks that the numbers from `lo` to `hi` can meet. -/
def blocksFor (n lo hi : Int) : Int := (hi - lo + (2 * n - 1)) / n

theorem blocks_pos {n lo hi : Int} (pos : 0 < n) (some : lo ≤ hi) : 1 ≤ blocksFor n lo hi := by
  rw [blocksFor]
  exact (Int.le_ediv_iff_mul_le pos).mpr (by omega)

theorem block_distance_le {n : Int} (pos : 0 < n) (lo hi shift : Int) :
    (shift + hi) / n - (shift + lo) / n + 1 ≤ blocksFor n lo hi := by
  rw [blocksFor]
  apply (Int.le_ediv_iff_mul_le pos).mpr
  have top := Int.ediv_mul_le (shift + hi) (ne_of_gt pos)
  have bottom := Int.lt_ediv_add_one_mul_self (shift + lo) pos
  have split : ((shift + hi) / n - (shift + lo) / n + 1) * n =
      (shift + hi) / n * n - ((shift + lo) / n + 1) * n + 2 * n := by ring
  rw [split]
  omega

theorem card_blocks_le {n : Int} (pos : 0 < n) (lo hi shift : Int) (some : lo ≤ hi) (points : Finset Int)
    (inside : ∀ x ∈ points, lo ≤ x ∧ x ≤ hi) :
    ((points.image fun x => (shift + x) / n).card : Int) ≤ blocksFor n lo hi := by
  have within : points.image (fun x => (shift + x) / n) ⊆
      Finset.Icc ((shift + lo) / n) ((shift + hi) / n) := by
    intro block member
    rcases Finset.mem_image.mp member with ⟨x, isPoint, rfl⟩
    rw [Finset.mem_Icc]
    exact ⟨Int.ediv_le_ediv pos (by have := inside x isPoint; omega),
      Int.ediv_le_ediv pos (by have := inside x isPoint; omega)⟩
  have card := Finset.card_le_card within
  rw [Int.card_Icc] at card
  have distance := block_distance_le pos lo hi shift
  have positive := blocks_pos pos some
  omega

theorem card_blocks_cover_le {n : Int} (pos : 0 < n) (shift : Int) (intervals : List (Int × Int))
    (some : ∀ r ∈ intervals, r.1 ≤ r.2) (points : Finset Int)
    (covered : ∀ x ∈ points, ∃ r ∈ intervals, r.1 ≤ x ∧ x ≤ r.2) :
    ((points.image fun x => (shift + x) / n).card : Int) ≤
      (intervals.map fun r => blocksFor n r.1 r.2).sum := by
  induction intervals generalizing points with
  | nil =>
      have none : points = ∅ := by
        apply Finset.eq_empty_of_forall_notMem
        intro x member
        rcases covered x member with ⟨r, isInterval, _⟩
        exact absurd isInterval List.not_mem_nil
      simp [none]
  | cons r rest ih =>
      let first := points.filter fun x => r.1 ≤ x ∧ x ≤ r.2
      let others := points.filter fun x => ¬ (r.1 ≤ x ∧ x ≤ r.2)
      have parts : points = first ∪ others := (Finset.filter_union_filter_not_eq _ _).symm
      have own := card_blocks_le pos r.1 r.2 shift (some r List.mem_cons_self) first
        fun x member => (Finset.mem_filter.mp member).2
      have later := ih (fun r' member => some r' (List.mem_cons_of_mem _ member)) others (by
        intro x member
        rcases Finset.mem_filter.mp member with ⟨isPoint, outside⟩
        rcases covered x isPoint with ⟨r', isInterval, within⟩
        rcases List.mem_cons.mp isInterval with rfl | isLater
        · exact absurd within outside
        · exact ⟨r', isLater, within⟩)
      have union := Finset.card_union_le (first.image fun x => (shift + x) / n)
        (others.image fun x => (shift + x) / n)
      rw [← Finset.image_union, ← parts] at union
      rw [List.map_cons, List.sum_cons]
      omega

end Openisa.Library.BlockCount
