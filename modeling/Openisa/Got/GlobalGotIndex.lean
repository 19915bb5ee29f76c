import Openisa.Got.DynamicSymbols
import Openisa.Got.LocalStore

/-! The dynamic symbols after the sort, and the words of the global ones in the table. -/

namespace Openisa.Got

open Openisa.Bfd
open Openisa.Library

variable {β η : Type} [DecidableEq β] [DecidableEq η]

def inGot (area : η → GlobalGotArea) (dynindx : η → Int) (h : η) : Bool :=
  decide (dynindx h ≠ -1) && decide (area h ≠ .none)

section Symbols

variable {area : η → GlobalGotArea} {dynindx : η → Int} {h : η}

omit [DecidableEq η] in
theorem in_got_iff : inGot area dynindx h = true ↔ dynindx h ≠ -1 ∧ area h ≠ .none := by
  simp [inGot]

omit [DecidableEq η] in
theorem count_in_got (area : η → GlobalGotArea) (dynindx : η → Int) (order : List η) :
    order.countP (inGot area dynindx) =
      order.countP (inArea area dynindx .normal) + order.countP (inArea area dynindx .relocOnly) := by
  induction order with
  | nil => rfl
  | cons h rest ih =>
      rw [List.countP_cons, List.countP_cons, List.countP_cons, ih]
      by_cases dynamic : dynindx h = -1
      · simp [inGot, inArea, dynamic]
      · cases inside : area h <;> simp [inGot, inArea, dynamic, inside] <;> omega

/-- The areas in the order in which their symbols stand. -/
def GlobalGotArea.rank : GlobalGotArea → Nat
  | .none => 0
  | .normal => 1
  | .relocOnly => 2

structure DynamicOrder (β : Type) [DecidableEq β] (f : GotFormat) (dynsymcount : Nat) (area : η → GlobalGotArea)
    (dynindx : η → Int) (order : List η) (g : GlobalGot η) (index : η → Int) : Prop where
  apart : ∀ h ∈ order, ∀ h' ∈ order, dynindx h ≠ -1 → dynindx h' ≠ -1 → index h = index h' → h = h'
  below : ∀ h ∈ order, dynindx h ≠ -1 → 0 ≤ index h ∧ index h < dynsymcount
  nonGotFirst : ∀ h ∈ order, ∀ h' ∈ order, dynindx h ≠ -1 → area h = .none → inGot area dynindx h' →
    index h < index h'
  normalFirst : ∀ h ∈ order, ∀ h' ∈ order, dynindx h ≠ -1 → dynindx h' ≠ -1 → area h = .normal →
    area h' = .relocOnly → index h < index h'
  last : ∀ i, (∃ h ∈ order, inGot area dynindx h ∧ index h = i) ↔
    (dynsymcount : Int) - g.globalGotno.toNat ≤ i ∧ i < dynsymcount
  gotsym : match g.globalGotsym with
    | none => ∀ h ∈ order, ¬ inGot area dynindx h
    | some low => low ∈ order ∧ inGot area dynindx low ∧ ∀ h ∈ order, inGot area dynindx h → index low ≤ index h
  slots : ∀ h ∈ order, inGot area dynindx h → ∃ slot, g.localGotno.toNat ≤ slot ∧
    slot < g.localGotno.toNat + g.globalGotno.toNat ∧
    (mipsElfGlobalGotIndex (β := β) f g index none h).toNat = f.gotSize.toNat * slot
  injective : ∀ h ∈ order, ∀ h' ∈ order, inGot area dynindx h → inGot area dynindx h' →
    mipsElfGlobalGotIndex (β := β) f g index none h = mipsElfGlobalGotIndex (β := β) f g index none h' → h = h'

variable {base pivot : Int} {met : List η} {hsd : HashSortData η}

omit [DecidableEq η] in
theorem Sorting.cursors (sorting : Sorting area dynindx base pivot met hsd) :
    base ≤ hsd.maxNonGotDynindx ∧ hsd.minGotDynindx ≤ pivot ∧ pivot ≤ hsd.maxUnrefGotDynindx := by
  have nonGot := sorting.nonGot
  have normal := sorting.normal
  have relocOnly := sorting.relocOnly
  omega

omit [DecidableEq η] in
theorem Sorting.got_range (sorting : Sorting area dynindx base pivot met hsd) (member : h ∈ met)
    (got : inGot area dynindx h = true) :
    hsd.minGotDynindx ≤ hsd.dynindx h ∧ hsd.dynindx h < hsd.maxUnrefGotDynindx := by
  have cursors := sorting.cursors
  have given := sorting.given h member (in_got_iff.mp got).1
  cases inside : area h with
  | none => exact absurd inside (in_got_iff.mp got).2
  | normal =>
      rw [inside] at given
      exact ⟨given.1, lt_of_lt_of_le given.2 cursors.2.2⟩
  | relocOnly =>
      rw [inside] at given
      exact ⟨le_trans cursors.2.1 given.1, given.2⟩

omit [DecidableEq η] in
theorem Sorting.lt_of_rank (sorting : Sorting area dynindx base pivot met hsd)
    (room : hsd.maxNonGotDynindx ≤ hsd.minGotDynindx) {h h' : η} (member : h ∈ met) (member' : h' ∈ met)
    (dynamic : dynindx h ≠ -1) (dynamic' : dynindx h' ≠ -1) (before : (area h).rank < (area h').rank) :
    hsd.dynindx h < hsd.dynindx h' := by
  have cursors := sorting.cursors
  have given := sorting.given h member dynamic
  have given' := sorting.given h' member' dynamic'
  cases first : area h with
  | none =>
      rw [first] at given before
      cases second : area h' with
      | none =>
          rw [second] at before
          exact absurd before (lt_irrefl _)
      | normal =>
          rw [second] at given'
          exact lt_of_lt_of_le given.2 (room.trans given'.1)
      | relocOnly =>
          rw [second] at given'
          exact lt_of_lt_of_le given.2 (room.trans (cursors.2.1.trans given'.1))
  | normal =>
      rw [first] at given before
      cases second : area h' with
      | none =>
          rw [second] at before
          exact absurd before (Nat.not_lt_zero _)
      | normal =>
          rw [second] at before
          exact absurd before (lt_irrefl _)
      | relocOnly =>
          rw [second] at given'
          exact lt_of_lt_of_le given.2 given'.1
  | relocOnly =>
      rw [first] at before
      cases second : area h' <;> rw [second] at before <;> exact absurd before (by decide)

omit [DecidableEq η] in
theorem rank_injective {a b : GlobalGotArea} (same : a.rank = b.rank) : a = b := by
  revert same
  cases a <;> cases b <;> decide

omit [DecidableEq η] in
theorem Sorting.index_injective (sorting : Sorting area dynindx base pivot met hsd)
    (room : hsd.maxNonGotDynindx ≤ hsd.minGotDynindx) {h h' : η} (member : h ∈ met) (member' : h' ∈ met)
    (dynamic : dynindx h ≠ -1) (dynamic' : dynindx h' ≠ -1) (same : hsd.dynindx h = hsd.dynindx h') :
    h = h' := by
  rcases Nat.lt_trichotomy (area h).rank (area h').rank with before | equal | behind
  · have less := sorting.lt_of_rank room member member' dynamic dynamic' before
    omega
  · exact sorting.apart h member h' member' dynamic dynamic' (rank_injective equal) same
  · have less := sorting.lt_of_rank room member' member dynamic' dynamic behind
    omega

omit [DecidableEq η] in
theorem Sorting.lowest (sorting : Sorting area dynindx base pivot met hsd) (member : h ∈ met)
    (got : inGot area dynindx h = true) :
    ∃ low ∈ met, hsd.low = some low ∧ inGot area dynindx low = true ∧ hsd.dynindx low = hsd.minGotDynindx := by
  have range := sorting.got_range member got
  rcases sorting.low with ⟨_, equal⟩ | ⟨low, isMet, found, dynamic, inside, index⟩
  · omega
  · exact ⟨low, isMet, found, in_got_iff.mpr ⟨dynamic, inside⟩, index⟩

omit [DecidableEq η] in
theorem Sorting.index_range (sorting : Sorting area dynindx base pivot met hsd)
    (room : hsd.maxNonGotDynindx ≤ hsd.minGotDynindx) (positive : 0 ≤ base) (member : h ∈ met)
    (dynamic : dynindx h ≠ -1) : 0 ≤ hsd.dynindx h ∧ hsd.dynindx h < hsd.maxUnrefGotDynindx := by
  have cursors := sorting.cursors
  by_cases inside : area h = .none
  · have given := sorting.given h member dynamic
    rw [inside] at given
    have high := room.trans (cursors.2.1.trans cursors.2.2)
    exact ⟨positive.trans given.1, lt_of_lt_of_le given.2 high⟩
  · have range := sorting.got_range member (in_got_iff.mpr ⟨dynamic, inside⟩)
    exact ⟨positive.trans (cursors.1.trans (room.trans range.1)), range.2⟩

omit [DecidableEq η] in
theorem Sorting.taken_iff (sorting : Sorting area dynindx base pivot met hsd) (i : Int) :
    (∃ h ∈ met, inGot area dynindx h ∧ hsd.dynindx h = i) ↔
      hsd.minGotDynindx ≤ i ∧ i < hsd.maxUnrefGotDynindx := by
  constructor
  · intro found
    rcases found with ⟨h, member, got, rfl⟩
    exact sorting.got_range member got
  · intro range
    rcases sorting.taken i range.1 range.2 with ⟨h, member, dynamic, inside, index⟩
    exact ⟨h, member, in_got_iff.mpr ⟨dynamic, inside⟩, index⟩

omit [DecidableEq η] in
theorem Sorting.gotsym (sorting : Sorting area dynindx base pivot met hsd) :
    match hsd.low with
    | none => ∀ h ∈ met, ¬ inGot area dynindx h
    | some low => low ∈ met ∧ inGot area dynindx low ∧
        ∀ h ∈ met, inGot area dynindx h → hsd.dynindx low ≤ hsd.dynindx h := by
  rcases sorting.low with ⟨none, equal⟩ | ⟨low, member, found, dynamic, inside, index⟩
  · simp only [none]
    intro h member got
    have range := sorting.got_range member got
    omega
  · simp only [found]
    refine ⟨member, in_got_iff.mpr ⟨dynamic, inside⟩, ?_⟩
    intro h member got
    rw [index]
    exact (sorting.got_range member got).1

omit [DecidableEq η] in
theorem rank_none_lt {a : GlobalGotArea} (inside : a ≠ .none) : GlobalGotArea.rank .none < a.rank := by
  cases a with
  | none => exact absurd rfl inside
  | normal => decide
  | relocOnly => decide

theorem Sorting.slot (sorting : Sorting area dynindx base pivot met hsd) (f : GotFormat) (g : GlobalGot η)
    (count : hsd.maxUnrefGotDynindx - hsd.minGotDynindx = g.globalGotno.toNat) (member : h ∈ met)
    (got : inGot area dynindx h = true) :
    ∃ slot : Nat, (slot : Int) = hsd.dynindx h - hsd.minGotDynindx + g.localGotno.toNat ∧
      slot < g.localGotno.toNat + g.globalGotno.toNat ∧
      (mipsElfGlobalGotIndex (β := β) f { g with globalGotsym := hsd.low } hsd.dynindx none h).toNat =
        f.gotSize.toNat * slot := by
  have range := sorting.got_range member got
  rcases sorting.lowest member got with ⟨low, _, found, _, index⟩
  have locals := g.localGotno.isLt
  have globals := g.globalGotno.isLt
  refine ⟨(hsd.dynindx h - hsd.minGotDynindx + g.localGotno.toNat).toNat, by omega, by omega, ?_⟩
  have size : f.gotSize.toNat = 4 ∨ f.gotSize.toNat = 8 := by
    rw [got_size_toNat]
    split
    · exact Or.inr rfl
    · exact Or.inl rfl
  simp only [mipsElfGlobalGotIndex, found, Option.map_some, Option.getD_some, index, BitVec.toNat_ofInt]
  rcases size with size | size
  · rw [size]
    omega
  · rw [size]
    omega

end Symbols

/-- Sorting puts the symbols of the table last, in the order of their areas, and the words of the table
follow them. -/
theorem dynamic_symbols_sorted (f : GotFormat) (out : OutputBfd) (dynsymcount : Nat) (area : η → GlobalGotArea)
    (dynindx : η → Int) (order : List η) (nodup : order.Nodup) (g : GlobalGot η)
    (all : order.countP (inGot area dynindx) = g.globalGotno.toNat)
    (relocs : order.countP (inArea area dynindx .relocOnly) = g.relocOnlyGotno.toNat)
    (room : countSectionDynsyms out + 1 + order.countP (inArea area dynindx .none) + g.globalGotno.toNat ≤
      dynsymcount) :
    ∃ low, (mipsElfSortHashTable out dynsymcount area dynindx order (some g)).1 =
        some { g with globalGotsym := low } ∧
      DynamicOrder β f dynsymcount area dynindx order { g with globalGotsym := low }
        (mipsElfSortHashTable out dynsymcount area dynindx order (some g)).2 := by
  have counted : dynsymcount ≠ 0 := by omega
  have sorting := sorting_run area dynindx (countSectionDynsyms out + 1) (dynsymcount - g.relocOnlyGotno.toNat)
    order nodup
  simp only [mipsElfSortHashTable, if_neg counted]
  generalize order.foldl (mipsElfSortHashTableF area) _ = hsd at sorting ⊢
  have nonGot := sorting.nonGot
  have normal := sorting.normal
  have relocOnly := sorting.relocOnly
  have cursors := sorting.cursors
  have both := count_in_got area dynindx order
  have apart : hsd.maxNonGotDynindx ≤ hsd.minGotDynindx := by omega
  have top : hsd.maxUnrefGotDynindx = dynsymcount := by omega
  have bottom : hsd.minGotDynindx = dynsymcount - g.globalGotno.toNat := by omega
  have slot : ∀ {h}, h ∈ order → inGot area dynindx h = true → ∃ slot : Nat,
      (slot : Int) = hsd.dynindx h - hsd.minGotDynindx + g.localGotno.toNat ∧
      slot < g.localGotno.toNat + g.globalGotno.toNat ∧
      (mipsElfGlobalGotIndex (β := β) f { g with globalGotsym := hsd.low } hsd.dynindx none h).toNat =
        f.gotSize.toNat * slot :=
    fun member got => sorting.slot f g (by omega) member got
  refine ⟨hsd.low, rfl, ?_, ?_, ?_, ?_, ?_, ?_, ?_, ?_⟩
  · exact fun h member h' member' => sorting.index_injective apart member member'
  · intro h member dynamic
    have range := sorting.index_range apart (by omega) member dynamic
    rw [top] at range
    exact range
  · intro h member h' member' dynamic inside got
    apply sorting.lt_of_rank apart member member' dynamic (in_got_iff.mp got).1
    rw [inside]
    exact rank_none_lt (in_got_iff.mp got).2
  · intro h member h' member' dynamic dynamic' inside inside'
    apply sorting.lt_of_rank apart member member' dynamic dynamic'
    rw [inside, inside']
    decide
  · intro i
    have taken := sorting.taken_iff i
    rw [top, bottom] at taken
    exact taken
  · exact sorting.gotsym
  · intro h member got
    rcases slot member got with ⟨slot, value, below, index⟩
    have range := sorting.got_range member got
    refine ⟨slot, ?_, below, index⟩
    change g.localGotno.toNat ≤ slot
    omega
  · intro h member h' member' got got' same
    rcases slot member got with ⟨first, value, _, index⟩
    rcases slot member' got' with ⟨second, value', _, index'⟩
    rw [same, index'] at index
    have slots := Nat.eq_of_mul_eq_mul_left (got_size_pos f) index
    apply sorting.index_injective apart member member' (in_got_iff.mp got).1 (in_got_iff.mp got').1
    omega

def sampleArea : Nat → GlobalGotArea
  | 1 => .normal
  | 2 => .relocOnly
  | 3 => .normal
  | 5 => .relocOnly
  | _ => .none

def sampleOutput : OutputBfd := ⟨true, false, [⟨false, true, false⟩, ⟨false, true, true⟩]⟩

def sampleGlobalGot : GlobalGot Nat := ⟨none, 4, 2, 3⟩

theorem dynamic_symbols_sorted_shared :
    ∃ low, (mipsElfSortHashTable sampleOutput 8 sampleArea (fun h => if h = 0 then -1 else h)
        [5, 3, 0, 2, 4, 1, 6] (some sampleGlobalGot)).1 = some { sampleGlobalGot with globalGotsym := low } ∧
      DynamicOrder Nat overflowFormat 8 sampleArea (fun h => if h = 0 then -1 else h) [5, 3, 0, 2, 4, 1, 6]
        { sampleGlobalGot with globalGotsym := low }
        (mipsElfSortHashTable sampleOutput 8 sampleArea (fun h => if h = 0 then -1 else h)
          [5, 3, 0, 2, 4, 1, 6] (some sampleGlobalGot)).2 :=
  dynamic_symbols_sorted overflowFormat sampleOutput 8 sampleArea (fun h => if h = 0 then -1 else h)
    [5, 3, 0, 2, 4, 1, 6] (by decide) sampleGlobalGot (by decide) (by decide) (by decide)

end Openisa.Got
