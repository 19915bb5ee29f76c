import Openisa.Bfd.Shuffle

/-! Words written into the contents of a section one after another, and read back. -/

namespace Openisa.Bfd

open Openisa.Library.ByteStore

theorem bfdGet32_congr (order : Endian) {d d' : Store} {loc : Nat} (same : ∀ k, loc ≤ k → k < loc + 4 → d' k = d k) :
    bfdGet32 order d' loc = bfdGet32 order d loc := by
  have kept : load order 4 d' loc = load order 4 d loc := load_congr order 4 _ _ _ same
  rw [bfdGet32, bfdGet, kept]
  rfl

def putWords (put : BfdVma → Store → Nat → Store) : List BfdVma → Store → Nat → Store
  | [], d, _ => d
  | word :: words, d, loc => putWords put words (put word d loc) (loc + 4)

theorem putWords_outside {put : BfdVma → Store → Nat → Store}
    (own : ∀ word d loc k, k < loc ∨ loc + 4 ≤ k → put word d loc k = d k) (words : List BfdVma) (d : Store) {loc k : Nat}
    (outside : k < loc ∨ loc + 4 * words.length ≤ k) : putWords put words d loc k = d k := by
  induction words generalizing d loc with
  | nil => rfl
  | cons word words ih =>
    rw [List.length_cons] at outside
    rw [putWords, ih _ (by omega)]
    exact own word d loc k (by omega)

variable (order : Endian)

theorem bfdPut32_outside (word : BfdVma) (d : Store) (loc k : Nat) (outside : k < loc ∨ loc + 4 ≤ k) :
    bfdPut32 order word d loc k = d k :=
  store_outside order 4 _ d loc k outside

theorem putWords_get (words : List BfdVma) (d : Store) (loc : Nat) {i : Nat} {word : BfdVma}
    (present : words[i]? = some word) :
    (bfdGet32 order (putWords (bfdPut32 order) words d loc) (loc + 4 * i)).setWidth 32 = word.setWidth 32 := by
  induction words generalizing d loc i with
  | nil => simp at present
  | cons first words ih =>
    rw [putWords]
    cases i with
    | zero =>
      have same : first = word := by simpa using present
      have kept : load order 4 (putWords (bfdPut32 order) words (bfdPut32 order first d loc) (loc + 4)) loc =
          load order 4 (bfdPut32 order first d loc) loc :=
        load_congr order 4 _ _ loc fun k low high => putWords_outside (bfdPut32_outside order) words _ (Or.inl (by omega))
      have read := kept.trans (load_store order 4 first.toNat d loc)
      apply BitVec.eq_of_toNat_eq
      simp only [Nat.mul_zero, Nat.add_zero, bfdGet32, bfdGet, read, BitVec.toNat_setWidth, BitVec.toNat_ofNat, ← same]
      omega
    | succ i =>
      have next : loc + 4 * (i + 1) = loc + 4 + 4 * i := by omega
      rw [next]
      exact ih _ (loc + 4) (by simpa using present)

def WordsAt (contents : Store) (offset : Nat) (words : List BfdVma) : Prop :=
  ∀ i word, words[i]? = some word → (bfdGet32 order contents (offset + 4 * i)).setWidth 32 = word.setWidth 32

theorem putWords_at (words : List BfdVma) (d : Store) (loc : Nat) :
    WordsAt order (putWords (bfdPut32 order) words d loc) loc words :=
  fun _ _ present => putWords_get order words d loc present

theorem WordsAt.congr {order : Endian} {contents contents' : Store} {offset : Nat} {words : List BfdVma}
    (coded : WordsAt order contents offset words)
    (same : ∀ k, offset ≤ k → k < offset + 4 * words.length → contents' k = contents k) :
    WordsAt order contents' offset words := by
  intro i word present
  have inside := (List.getElem?_eq_some_iff.mp present).1
  have kept : load order 4 contents' (offset + 4 * i) = load order 4 contents (offset + 4 * i) :=
    load_congr order 4 _ _ _ fun k low high => same k (by omega) (by omega)
  rw [← coded i word present, bfdGet32, bfdGet, kept]
  rfl

theorem bfdPut32_get (order : Endian) (value : BfdVma) (d : Store) (loc : Nat) :
    (bfdGet32 order (bfdPut32 order value d loc) loc).setWidth 32 = value.setWidth 32 := by
  have one : ([value] : List BfdVma)[0]? = some value := rfl
  have read := putWords_get order [value] d loc one
  rwa [putWords, putWords, Nat.mul_zero, Nat.add_zero] at read

end Openisa.Bfd
