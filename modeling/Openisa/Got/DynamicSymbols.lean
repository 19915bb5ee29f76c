import Openisa.Got.LocalGot

/-! The order of the dynamic symbols, which the global part of a table follows. -/

namespace Openisa.Got

open Openisa.Bfd
open Openisa.Library

structure OutputSection where
  exclude : Bool
  alloc : Bool
  omitDynsym : Bool
  deriving DecidableEq, Repr

structure OutputBfd where
  shared : Bool
  relocatableExecutable : Bool
  sections : List OutputSection

def countSectionDynsyms (out : OutputBfd) : Nat :=
  if out.shared || out.relocatableExecutable then
    out.sections.countP fun p => !p.exclude && p.alloc && !p.omitDynsym
  else 0

/-- The symbols that a table has entries for, as `struct mips_got_info` keeps them. -/
structure GlobalGot (η : Type) where
  globalGotsym : Option η
  globalGotno : BitVec 32
  relocOnlyGotno : BitVec 32
  localGotno : BitVec 32
  deriving DecidableEq, Repr

structure HashSortData (η : Type) where
  low : Option η
  minGotDynindx : Int
  maxUnrefGotDynindx : Int
  maxNonGotDynindx : Int
  dynindx : η → Int

variable {β η : Type} [DecidableEq η]

/-- Symbols of the normal area get the highest free index below the others of the table, those for
relocations only the lowest free index above, and all others the lowest free index of all. -/
def mipsElfSortHashTableF (area : η → GlobalGotArea) (hsd : HashSortData η) (h : η) : HashSortData η :=
  if hsd.dynindx h = -1 then hsd else
  match area h with
  | .none =>
      { hsd with
        dynindx := Function.update hsd.dynindx h hsd.maxNonGotDynindx
        maxNonGotDynindx := hsd.maxNonGotDynindx + 1 }
  | .normal =>
      { hsd with
        dynindx := Function.update hsd.dynindx h (hsd.minGotDynindx - 1)
        minGotDynindx := hsd.minGotDynindx - 1
        low := some h }
  | .relocOnly =>
      { hsd with
        dynindx := Function.update hsd.dynindx h hsd.maxUnrefGotDynindx
        maxUnrefGotDynindx := hsd.maxUnrefGotDynindx + 1
        low := if hsd.maxUnrefGotDynindx = hsd.minGotDynindx then some h else hsd.low }

def mipsElfSortHashTable (out : OutputBfd) (dynsymcount : Nat) (area : η → GlobalGotArea) (dynindx : η → Int)
    (order : List η) (gotInfo : Option (GlobalGot η)) : Option (GlobalGot η) × (η → Int) :=
  if dynsymcount = 0 then (gotInfo, dynindx) else
  match gotInfo with
  | none => (none, dynindx)
  | some g =>
      let pivot : Int := dynsymcount - g.relocOnlyGotno.toNat
      let hsd := order.foldl (mipsElfSortHashTableF area)
        ⟨none, pivot, pivot, countSectionDynsyms out + 1, dynindx⟩
      (some { g with globalGotsym := hsd.low }, hsd.dynindx)

/-- The offset of the word of a global symbol without thread-local access. `other` is the table of the
input where that is not the primary one. -/
def mipsElfGlobalGotIndex [DecidableEq β] (f : GotFormat) (g : GlobalGot η) (dynindx : η → Int)
    (other : Option (β × List (PlacedEntry β η))) (h : η) : BfdVma :=
  match other with
  | some (ibfd, gotEntries) =>
      entryIndex (gotEntries.find? fun placed => gotEntryEq true ⟨.global ibfd h, gotNormal⟩ placed.entry)
  | none =>
      let globalGotDynindx := (g.globalGotsym.map dynindx).getD 0
      BitVec.ofInt 64 ((dynindx h - globalGotDynindx + g.localGotno.toNat) * f.gotSize.toNat)

section Sorting

variable (area : η → GlobalGotArea) (dynindx : η → Int)

def inArea (a : GlobalGotArea) (h : η) : Bool := decide (dynindx h ≠ -1) && decide (area h = a)

/-- The indices that the symbols of an area have got so far. -/
def HashSortData.Given (base pivot : Int) (hsd : HashSortData η) (a : GlobalGotArea) (i : Int) : Prop :=
  match a with
  | .none => base ≤ i ∧ i < hsd.maxNonGotDynindx
  | .normal => hsd.minGotDynindx ≤ i ∧ i < pivot
  | .relocOnly => pivot ≤ i ∧ i < hsd.maxUnrefGotDynindx

structure Sorting (base pivot : Int) (met : List η) (hsd : HashSortData η) : Prop where
  nonGot : hsd.maxNonGotDynindx = base + met.countP (inArea area dynindx .none)
  normal : hsd.minGotDynindx = pivot - met.countP (inArea area dynindx .normal)
  relocOnly : hsd.maxUnrefGotDynindx = pivot + met.countP (inArea area dynindx .relocOnly)
  given : ∀ h ∈ met, dynindx h ≠ -1 → hsd.Given base pivot (area h) (hsd.dynindx h)
  apart : ∀ h ∈ met, ∀ h' ∈ met, dynindx h ≠ -1 → dynindx h' ≠ -1 → area h = area h' →
    hsd.dynindx h = hsd.dynindx h' → h = h'
  taken : ∀ i, hsd.minGotDynindx ≤ i → i < hsd.maxUnrefGotDynindx →
    ∃ h ∈ met, dynindx h ≠ -1 ∧ area h ≠ .none ∧ hsd.dynindx h = i
  low : (hsd.low = none ∧ hsd.minGotDynindx = hsd.maxUnrefGotDynindx) ∨
    ∃ h ∈ met, hsd.low = some h ∧ dynindx h ≠ -1 ∧ area h ≠ .none ∧ hsd.dynindx h = hsd.minGotDynindx
  others : ∀ h, h ∉ met → hsd.dynindx h = dynindx h

omit [DecidableEq η] in
theorem sorting_start (base pivot : Int) : Sorting area dynindx base pivot [] ⟨none, pivot, pivot, base, dynindx⟩ where
  nonGot := by simp
  normal := by simp
  relocOnly := by simp
  given _ member := absurd member List.not_mem_nil
  apart _ member := absurd member List.not_mem_nil
  taken i low high := absurd high (by simpa using low)
  low := Or.inl ⟨rfl, rfl⟩
  others _ _ := rfl

variable {area dynindx} {base pivot : Int} {met : List η} {hsd hsd' : HashSortData η} {h : η}

omit [DecidableEq η] in
theorem count_own {a : GlobalGotArea} (dynamic : dynindx h ≠ -1) (inside : area h = a) (met : List η) :
    ((met ++ [h]).countP (inArea area dynindx a) : Int) = met.countP (inArea area dynindx a) + 1 := by
  have own : inArea area dynindx a h = true := by simp [inArea, dynamic, inside]
  rw [List.countP_append, List.countP_singleton, if_pos own]
  exact Int.natCast_succ _

omit [DecidableEq η] in
theorem count_other {a : GlobalGotArea} (other : dynindx h = -1 ∨ area h ≠ a) (met : List η) :
    (met ++ [h]).countP (inArea area dynindx a) = met.countP (inArea area dynindx a) := by
  have outside : ¬ inArea area dynindx a h = true := by
    rcases other with hidden | other
    · simp [inArea, hidden]
    · simp [inArea, other]
  rw [List.countP_append, List.countP_singleton, if_neg outside, Nat.add_zero]

/-- A symbol that was met gets an index that none of its area has. -/
structure Placed (base pivot : Int) (hsd hsd' : HashSortData η) (a : GlobalGotArea) (h : η) (i : Int) : Prop where
  index : hsd'.dynindx = Function.update hsd.dynindx h i
  grown : ∀ b j, hsd.Given base pivot b j → hsd'.Given base pivot b j
  fresh : ¬ hsd.Given base pivot a i
  own : hsd'.Given base pivot a i

theorem Placed.same {i : Int} (placed : Placed base pivot hsd hsd' (area h) h i) : hsd'.dynindx h = i := by
  rw [placed.index, Function.update_self]

theorem Placed.other {i : Int} (placed : Placed base pivot hsd hsd' (area h) h i) {h' : η} (other : h' ≠ h) :
    hsd'.dynindx h' = hsd.dynindx h' := by
  rw [placed.index, Function.update_of_ne other]

theorem Sorting.given_place (sorting : Sorting area dynindx base pivot met hsd) (new : h ∉ met) {i : Int}
    (placed : Placed base pivot hsd hsd' (area h) h i) :
    ∀ h' ∈ met ++ [h], dynindx h' ≠ -1 → hsd'.Given base pivot (area h') (hsd'.dynindx h') := by
  intro h' member dynamic
  rcases List.mem_append.mp member with earlier | last
  · have other : h' ≠ h := fun same => new (same ▸ earlier)
    rw [placed.other other]
    exact placed.grown _ _ (sorting.given h' earlier dynamic)
  · rw [List.mem_singleton.mp last, placed.same]
    exact placed.own

theorem Sorting.apart_place (sorting : Sorting area dynindx base pivot met hsd) (new : h ∉ met) {i : Int}
    (placed : Placed base pivot hsd hsd' (area h) h i) :
    ∀ h' ∈ met ++ [h], ∀ h'' ∈ met ++ [h], dynindx h' ≠ -1 → dynindx h'' ≠ -1 → area h' = area h'' →
      hsd'.dynindx h' = hsd'.dynindx h'' → h' = h'' := by
  have unlike : ∀ h' ∈ met, dynindx h' ≠ -1 → area h' = area h → hsd'.dynindx h' ≠ hsd'.dynindx h := by
    intro h' earlier dynamic sameArea sameIndex
    have other : h' ≠ h := fun same => new (same ▸ earlier)
    have given := sorting.given h' earlier dynamic
    rw [sameArea, ← placed.other other, sameIndex, placed.same] at given
    exact placed.fresh given
  intro h' member h'' member' dynamic dynamic' sameArea sameIndex
  rcases List.mem_append.mp member with earlier | last
  · rcases List.mem_append.mp member' with earlier' | last'
    · have other : h' ≠ h := fun same => new (same ▸ earlier)
      have other' : h'' ≠ h := fun same => new (same ▸ earlier')
      rw [placed.other other, placed.other other'] at sameIndex
      exact sorting.apart h' earlier h'' earlier' dynamic dynamic' sameArea sameIndex
    · rw [List.mem_singleton.mp last'] at sameArea sameIndex
      exact absurd sameIndex (unlike h' earlier dynamic sameArea)
  · rcases List.mem_append.mp member' with earlier' | last'
    · rw [List.mem_singleton.mp last] at sameArea sameIndex
      exact absurd sameIndex.symm (unlike h'' earlier' dynamic' sameArea.symm)
    · rw [List.mem_singleton.mp last, List.mem_singleton.mp last']

theorem Sorting.taken_place (sorting : Sorting area dynindx base pivot met hsd) (new : h ∉ met) {i : Int}
    (placed : Placed base pivot hsd hsd' (area h) h i) {j : Int} (low : hsd.minGotDynindx ≤ j)
    (high : j < hsd.maxUnrefGotDynindx) :
    ∃ h' ∈ met ++ [h], dynindx h' ≠ -1 ∧ area h' ≠ .none ∧ hsd'.dynindx h' = j := by
  rcases sorting.taken j low high with ⟨h', earlier, dynamic, inGot, index⟩
  have other : h' ≠ h := fun same => new (same ▸ earlier)
  refine ⟨h', List.mem_append_left _ earlier, dynamic, inGot, ?_⟩
  rw [placed.other other]
  exact index

theorem Sorting.others_place (sorting : Sorting area dynindx base pivot met hsd) {i : Int}
    (placed : Placed base pivot hsd hsd' (area h) h i) :
    ∀ h', h' ∉ met ++ [h] → hsd'.dynindx h' = dynindx h' := by
  intro h' absent
  rw [List.mem_append, List.mem_singleton, not_or] at absent
  rw [placed.other absent.2]
  exact sorting.others h' absent.1

theorem Placed.low {i : Int} (placed : Placed base pivot hsd hsd' (area h) h i) (new : h ∉ met)
    (kept : hsd'.low = hsd.low) (minKept : hsd'.minGotDynindx = hsd.minGotDynindx)
    (found : ∃ h' ∈ met, hsd.low = some h' ∧ dynindx h' ≠ -1 ∧ area h' ≠ .none ∧
      hsd.dynindx h' = hsd.minGotDynindx) :
    ∃ h' ∈ met ++ [h], hsd'.low = some h' ∧ dynindx h' ≠ -1 ∧ area h' ≠ .none ∧
      hsd'.dynindx h' = hsd'.minGotDynindx := by
  rcases found with ⟨h', earlier, isLow, dynamic, inGot, index⟩
  have other : h' ≠ h := fun same => new (same ▸ earlier)
  refine ⟨h', List.mem_append_left _ earlier, kept.trans isLow, dynamic, inGot, ?_⟩
  rw [placed.other other, index, minKept]

theorem sort_hidden (hidden : hsd.dynindx h = -1) : mipsElfSortHashTableF area hsd h = hsd := by
  rw [mipsElfSortHashTableF, if_pos hidden]

theorem sort_none (dynamic : hsd.dynindx h ≠ -1) (inside : area h = .none) :
    mipsElfSortHashTableF area hsd h =
      { hsd with
        dynindx := Function.update hsd.dynindx h hsd.maxNonGotDynindx
        maxNonGotDynindx := hsd.maxNonGotDynindx + 1 } := by
  rw [mipsElfSortHashTableF, if_neg dynamic, inside]

theorem sort_normal (dynamic : hsd.dynindx h ≠ -1) (inside : area h = .normal) :
    mipsElfSortHashTableF area hsd h =
      { hsd with
        dynindx := Function.update hsd.dynindx h (hsd.minGotDynindx - 1)
        minGotDynindx := hsd.minGotDynindx - 1
        low := some h } := by
  rw [mipsElfSortHashTableF, if_neg dynamic, inside]

theorem sort_reloc_only (dynamic : hsd.dynindx h ≠ -1) (inside : area h = .relocOnly) :
    mipsElfSortHashTableF area hsd h =
      { hsd with
        dynindx := Function.update hsd.dynindx h hsd.maxUnrefGotDynindx
        maxUnrefGotDynindx := hsd.maxUnrefGotDynindx + 1
        low := if hsd.maxUnrefGotDynindx = hsd.minGotDynindx then some h else hsd.low } := by
  rw [mipsElfSortHashTableF, if_neg dynamic, inside]

omit [DecidableEq η] in
theorem Sorting.meet_hidden (sorting : Sorting area dynindx base pivot met hsd) (hidden : dynindx h = -1) :
    Sorting area dynindx base pivot (met ++ [h]) hsd := by
  have only : ∀ h' ∈ met ++ [h], dynindx h' ≠ -1 → h' ∈ met := by
    intro h' isMet dynamic'
    rcases List.mem_append.mp isMet with earlier | last
    · exact earlier
    · rw [List.mem_singleton.mp last] at dynamic'
      exact absurd hidden dynamic'
  refine ⟨?_, ?_, ?_, ?_, ?_, ?_, ?_, ?_⟩
  · rw [count_other (Or.inl hidden)]
    exact sorting.nonGot
  · rw [count_other (Or.inl hidden)]
    exact sorting.normal
  · rw [count_other (Or.inl hidden)]
    exact sorting.relocOnly
  · exact fun h' isMet dynamic' => sorting.given h' (only h' isMet dynamic') dynamic'
  · intro h' isMet h'' isMet' dynamic' dynamic''
    exact sorting.apart h' (only h' isMet dynamic') h'' (only h'' isMet' dynamic'') dynamic' dynamic''
  · intro j low high
    rcases sorting.taken j low high with ⟨h', earlier, rest⟩
    exact ⟨h', List.mem_append_left _ earlier, rest⟩
  · refine sorting.low.imp id ?_
    intro found
    rcases found with ⟨h', earlier, rest⟩
    exact ⟨h', List.mem_append_left _ earlier, rest⟩
  · intro h' absent
    exact sorting.others h' fun earlier => absent (List.mem_append_left _ earlier)

theorem Sorting.place_none (sorting : Sorting area dynindx base pivot met hsd) (dynamic : hsd.dynindx h ≠ -1)
    (inside : area h = .none) :
    Placed base pivot hsd (mipsElfSortHashTableF area hsd h) (area h) h hsd.maxNonGotDynindx := by
  have nonGot := sorting.nonGot
  rw [sort_none dynamic inside, inside]
  refine ⟨rfl, ?_, ?_, ?_⟩
  · intro b j given
    cases b with
    | none => exact ⟨given.1, Int.lt_add_one_of_le given.2.le⟩
    | normal => exact given
    | relocOnly => exact given
  · exact fun given => lt_irrefl _ given.2
  · constructor
    · omega
    · exact Int.lt_succ _

theorem Sorting.place_normal (sorting : Sorting area dynindx base pivot met hsd) (dynamic : hsd.dynindx h ≠ -1)
    (inside : area h = .normal) :
    Placed base pivot hsd (mipsElfSortHashTableF area hsd h) (area h) h (hsd.minGotDynindx - 1) := by
  have normal := sorting.normal
  rw [sort_normal dynamic inside, inside]
  refine ⟨rfl, ?_, ?_, ?_⟩
  · intro b j given
    cases b with
    | none => exact given
    | normal => exact ⟨(Int.sub_one_lt_iff.mpr given.1).le, given.2⟩
    | relocOnly => exact given
  · exact fun given => absurd given.1 (by omega)
  · constructor
    · exact le_refl _
    · omega

theorem Sorting.place_reloc_only (sorting : Sorting area dynindx base pivot met hsd)
    (dynamic : hsd.dynindx h ≠ -1) (inside : area h = .relocOnly) :
    Placed base pivot hsd (mipsElfSortHashTableF area hsd h) (area h) h hsd.maxUnrefGotDynindx := by
  have relocOnly := sorting.relocOnly
  rw [sort_reloc_only dynamic inside, inside]
  refine ⟨rfl, ?_, ?_, ?_⟩
  · intro b j given
    cases b with
    | none => exact given
    | normal => exact given
    | relocOnly => exact ⟨given.1, Int.lt_add_one_of_le given.2.le⟩
  · exact fun given => lt_irrefl _ given.2
  · constructor
    · omega
    · exact Int.lt_succ _

theorem Sorting.meet_none (sorting : Sorting area dynindx base pivot met hsd) (new : h ∉ met)
    (dynamic : dynindx h ≠ -1) (inside : area h = .none) :
    Sorting area dynindx base pivot (met ++ [h]) (mipsElfSortHashTableF area hsd h) := by
  have current : hsd.dynindx h ≠ -1 := by rwa [sorting.others h new]
  have next := sort_none current inside
  have placed := sorting.place_none current inside
  have nonGot := sorting.nonGot
  refine ⟨?_, ?_, ?_, sorting.given_place new placed, sorting.apart_place new placed, ?_, ?_,
    sorting.others_place placed⟩
  · rw [next, count_own dynamic inside]
    dsimp only
    omega
  · rw [next, count_other (Or.inr (by simp [inside]))]
    exact sorting.normal
  · rw [next, count_other (Or.inr (by simp [inside]))]
    exact sorting.relocOnly
  · intro j low high
    rw [next] at low high
    exact sorting.taken_place new placed low high
  · rcases sorting.low with ⟨noLow, equal⟩ | found
    · left
      rw [next]
      exact ⟨noLow, equal⟩
    · right
      exact placed.low new (by rw [next]) (by rw [next]) found

theorem Sorting.meet_normal (sorting : Sorting area dynindx base pivot met hsd) (new : h ∉ met)
    (dynamic : dynindx h ≠ -1) (inside : area h = .normal) :
    Sorting area dynindx base pivot (met ++ [h]) (mipsElfSortHashTableF area hsd h) := by
  have current : hsd.dynindx h ≠ -1 := by rwa [sorting.others h new]
  have member : h ∈ met ++ [h] := List.mem_append_right _ List.mem_cons_self
  have next := sort_normal current inside
  have placed := sorting.place_normal current inside
  have normal := sorting.normal
  refine ⟨?_, ?_, ?_, sorting.given_place new placed, sorting.apart_place new placed, ?_, ?_,
    sorting.others_place placed⟩
  · rw [next, count_other (Or.inr (by simp [inside]))]
    exact sorting.nonGot
  · rw [next, count_own dynamic inside]
    dsimp only
    omega
  · rw [next, count_other (Or.inr (by simp [inside]))]
    exact sorting.relocOnly
  · intro j low high
    rw [next] at low high
    dsimp only at low high
    by_cases last : j = hsd.minGotDynindx - 1
    · exact ⟨h, member, dynamic, by simp [inside], placed.same.trans last.symm⟩
    · exact sorting.taken_place new placed (by omega) high
  · right
    refine ⟨h, member, ?_, dynamic, by simp [inside], ?_⟩
    · rw [next]
    · rw [placed.same, next]

theorem Sorting.meet_reloc_only (sorting : Sorting area dynindx base pivot met hsd) (new : h ∉ met)
    (dynamic : dynindx h ≠ -1) (inside : area h = .relocOnly) :
    Sorting area dynindx base pivot (met ++ [h]) (mipsElfSortHashTableF area hsd h) := by
  have current : hsd.dynindx h ≠ -1 := by rwa [sorting.others h new]
  have member : h ∈ met ++ [h] := List.mem_append_right _ List.mem_cons_self
  have next := sort_reloc_only current inside
  have placed := sorting.place_reloc_only current inside
  have relocOnly := sorting.relocOnly
  refine ⟨?_, ?_, ?_, sorting.given_place new placed, sorting.apart_place new placed, ?_, ?_,
    sorting.others_place placed⟩
  · rw [next, count_other (Or.inr (by simp [inside]))]
    exact sorting.nonGot
  · rw [next, count_other (Or.inr (by simp [inside]))]
    exact sorting.normal
  · rw [next, count_own dynamic inside]
    dsimp only
    omega
  · intro j low high
    rw [next] at low high
    dsimp only at low high
    by_cases last : j = hsd.maxUnrefGotDynindx
    · exact ⟨h, member, dynamic, by simp [inside], placed.same.trans last.symm⟩
    · exact sorting.taken_place new placed low (by omega)
  · right
    by_cases first : hsd.maxUnrefGotDynindx = hsd.minGotDynindx
    · refine ⟨h, member, ?_, dynamic, by simp [inside], ?_⟩
      · rw [next]
        exact if_pos first
      · rw [placed.same, next]
        exact first
    · -- a cursor has moved, so there is a lowest symbol
      rcases sorting.low with ⟨_, equal⟩ | found
      · exact absurd equal.symm first
      · exact placed.low new (by rw [next]; exact if_neg first) (by rw [next]) found

theorem Sorting.meet (sorting : Sorting area dynindx base pivot met hsd) (new : h ∉ met) :
    Sorting area dynindx base pivot (met ++ [h]) (mipsElfSortHashTableF area hsd h) := by
  by_cases hidden : dynindx h = -1
  · rw [sort_hidden ((sorting.others h new).trans hidden)]
    exact sorting.meet_hidden hidden
  · cases inside : area h with
    | none => exact sorting.meet_none new hidden inside
    | normal => exact sorting.meet_normal new hidden inside
    | relocOnly => exact sorting.meet_reloc_only new hidden inside

theorem sorting_run (area : η → GlobalGotArea) (dynindx : η → Int) (base pivot : Int) (order : List η)
    (nodup : order.Nodup) :
    Sorting area dynindx base pivot order
      (order.foldl (mipsElfSortHashTableF area) ⟨none, pivot, pivot, base, dynindx⟩) := by
  induction order using List.reverseRecOn with
  | nil => exact sorting_start area dynindx base pivot
  | append_singleton met h ih =>
      have split := List.nodup_append.mp nodup
      have new : h ∉ met := fun earlier => split.2.2 h earlier h List.mem_cons_self rfl
      rw [List.foldl_append]
      exact (ih split.1).meet new

end Sorting

end Openisa.Got
