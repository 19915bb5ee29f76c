import Openisa.Got.Entry
import Openisa.Library.BlockCount
import Mathlib.Tactic.Ring

/-! The ranges of addends that the page relocations against one symbol are recorded in. -/

namespace Openisa.Got

open Openisa.Library

def mipsElfPagesForRange (range : PageRange) : BitVec 64 :=
  BitVec.ofInt 64 ((range.maxAddend - range.minAddend + 0x1ffff) >>> (16 : Nat))

/-- A range that can share a page with the addend takes it in, and with it perhaps the next one. The
first result is what the old ranges contributed. -/
def extendRange (addend : Int) (range : PageRange) (next : List PageRange) :
    BitVec 64 × PageRange × List PageRange :=
  let oldPages := mipsElfPagesForRange range
  if addend < range.minAddend then (oldPages, { range with minAddend := addend }, next)
  else if addend > range.maxAddend then
    match next with
    | following :: rest =>
        if addend ≥ following.minAddend - 0xffff then
          (oldPages + mipsElfPagesForRange following, { range with maxAddend := following.maxAddend }, rest)
        else (oldPages, { range with maxAddend := addend }, next)
    | [] => (oldPages, { range with maxAddend := addend }, next)
  else (oldPages, range, next)

def recordAddend (addend : Int) : List PageRange → List PageRange × BitVec 64
  | [] => ([⟨addend, addend⟩], 1)
  | range :: next =>
      if addend > range.maxAddend + 0xffff then
        let (rest, change) := recordAddend addend next
        (range :: rest, change)
      else if addend < range.minAddend - 0xffff then (⟨addend, addend⟩ :: range :: next, 1)
      else
        let (oldPages, range, next) := extendRange addend range next
        let newPages := mipsElfPagesForRange range
        (range :: next, if oldPages ≠ newPages then newPages - oldPages else 0)

namespace PageRange

def pages (r : PageRange) : Int := BlockCount.blocksFor (2 ^ 16) r.minAddend r.maxAddend

def Holds (r : PageRange) (a : Int) : Prop := r.minAddend ≤ a ∧ a ≤ r.maxAddend

/-- `mips_elf_pages_for_range` does not overflow. -/
def Fits (r : PageRange) : Prop := r.maxAddend - r.minAddend + 0x1ffff < 2 ^ 63

end PageRange

/-- What is computed to extend a range stays within a `bfd_signed_vma`. -/
structure ExtensionFits (addend : Int) (range : PageRange) (next : List PageRange) : Prop where
  old : range.Fits
  following : addend > range.maxAddend → ∀ following ∈ next.head?, -2 ^ 63 ≤ following.minAddend - 0xffff ∧
    (following.minAddend - 0xffff ≤ addend → following.Fits)
  new : (extendRange addend range next).2.1.Fits

/-- What the search computes on its way stays within one too. -/
def AddendFits (addend : Int) : List PageRange → Prop
  | [] => True
  | range :: next =>
      range.maxAddend + 0xffff < 2 ^ 63 ∧
        if addend > range.maxAddend + 0xffff then AddendFits addend next
        else -2 ^ 63 ≤ range.minAddend - 0xffff ∧
          (addend < range.minAddend - 0xffff ∨ ExtensionFits addend range next)

def pageSum (ranges : List PageRange) : Int := (ranges.map PageRange.pages).sum

/-- Ranges in ascending order, with gaps that no page bridges. -/
structure RangesApart (ranges : List PageRange) : Prop where
  proper : ∀ r ∈ ranges, r.minAddend ≤ r.maxAddend
  gaps : ranges.Pairwise fun r r' => r.maxAddend + 0xffff < r'.minAddend

structure RangesRecorded (addend : Int) (old new : List PageRange) : Prop where
  apart : RangesApart new
  above : ∀ bound, bound < addend → (∀ r ∈ old, bound < r.minAddend) → ∀ r ∈ new, bound < r.minAddend
  holds : ∃ r ∈ new, r.Holds addend
  kept : ∀ r ∈ old, ∃ r' ∈ new, r'.minAddend ≤ r.minAddend ∧ r.maxAddend ≤ r'.maxAddend
  ends : ∀ r ∈ new, (r.minAddend = addend ∨ ∃ r' ∈ old, r.minAddend = r'.minAddend) ∧
    (r.maxAddend = addend ∨ ∃ r' ∈ old, r.maxAddend = r'.maxAddend)
  pages : pageSum new ≤ pageSum old + 1

theorem pages_for_range_eq (r : PageRange) : mipsElfPagesForRange r = BitVec.ofInt 64 r.pages := by
  rw [mipsElfPagesForRange, Int.shiftRight_eq_div_pow]
  rfl

theorem page_sum_cons (r : PageRange) (ranges : List PageRange) :
    pageSum (r :: ranges) = r.pages + pageSum ranges := by
  rw [pageSum, List.map_cons, List.sum_cons]
  rfl

theorem single_pages (a : Int) : PageRange.pages ⟨a, a⟩ = 1 := by
  rw [PageRange.pages, BlockCount.blocksFor, Int.sub_self]
  rfl

theorem RangesApart.tail {r : PageRange} {next : List PageRange} (apart : RangesApart (r :: next)) :
    RangesApart next where
  proper r' member := apart.proper r' (List.mem_cons_of_mem _ member)
  gaps := (List.pairwise_cons.mp apart.gaps).2

theorem RangesApart.cons {r : PageRange} {next : List PageRange} (proper : r.minAddend ≤ r.maxAddend)
    (gap : ∀ r' ∈ next, r.maxAddend + 0xffff < r'.minAddend) (apart : RangesApart next) :
    RangesApart (r :: next) where
  proper r' member := by
    rcases List.mem_cons.mp member with rfl | later
    · exact proper
    · exact apart.proper r' later
  gaps := List.pairwise_cons.mpr ⟨gap, apart.gaps⟩

theorem recorded_single (addend : Int) (ranges : List PageRange) (apart : RangesApart ranges)
    (gap : ∀ r ∈ ranges, addend + 0xffff < r.minAddend) :
    RangesRecorded addend ranges (⟨addend, addend⟩ :: ranges) where
  apart := RangesApart.cons (le_refl _) gap apart
  above bound below old r member := by
    rcases List.mem_cons.mp member with rfl | later
    · exact below
    · exact old r later
  holds := ⟨_, List.mem_cons_self, le_refl _, le_refl _⟩
  kept r member := ⟨r, List.mem_cons_of_mem _ member, le_refl _, le_refl _⟩
  ends r member := by
    rcases List.mem_cons.mp member with rfl | later
    · exact ⟨Or.inl rfl, Or.inl rfl⟩
    · exact ⟨Or.inr ⟨r, later, rfl⟩, Or.inr ⟨r, later, rfl⟩⟩
  pages := by
    rw [page_sum_cons, single_pages]
    omega

theorem RangesRecorded.skip {addend : Int} {range : PageRange} {old new : List PageRange}
    (apart : RangesApart (range :: old)) (beyond : addend > range.maxAddend + 0xffff)
    (recorded : RangesRecorded addend old new) : RangesRecorded addend (range :: old) (range :: new) where
  apart := RangesApart.cons (apart.proper range List.mem_cons_self)
    (recorded.above _ beyond (List.pairwise_cons.mp apart.gaps).1) recorded.apart
  above bound below old' r member := by
    rcases List.mem_cons.mp member with rfl | later
    · exact old' r List.mem_cons_self
    · exact recorded.above bound below (fun r' isOld => old' r' (List.mem_cons_of_mem _ isOld)) r later
  holds := by
    rcases recorded.holds with ⟨r, member, holds⟩
    exact ⟨r, List.mem_cons_of_mem _ member, holds⟩
  kept r member := by
    rcases List.mem_cons.mp member with rfl | later
    · exact ⟨r, List.mem_cons_self, le_refl _, le_refl _⟩
    · rcases recorded.kept r later with ⟨r', isNew, wider⟩
      exact ⟨r', List.mem_cons_of_mem _ isNew, wider⟩
  ends r member := by
    rcases List.mem_cons.mp member with rfl | later
    · exact ⟨Or.inr ⟨r, List.mem_cons_self, rfl⟩, Or.inr ⟨r, List.mem_cons_self, rfl⟩⟩
    · rcases recorded.ends r later with ⟨low, high⟩
      refine ⟨low.imp id ?_, high.imp id ?_⟩
      · rintro ⟨r', isOld, same⟩
        exact ⟨r', List.mem_cons_of_mem _ isOld, same⟩
      · rintro ⟨r', isOld, same⟩
        exact ⟨r', List.mem_cons_of_mem _ isOld, same⟩
  pages := by
    have later := recorded.pages
    rw [page_sum_cons, page_sum_cons]
    omega

theorem pages_eq (r : PageRange) : r.pages = (r.maxAddend - r.minAddend + 0x1ffff) / 0x10000 := rfl

theorem recorded_wider {addend : Int} {range range' : PageRange} {next : List PageRange}
    (apart : RangesApart (range :: next)) (holds : range'.Holds addend)
    (low : range'.minAddend ≤ range.minAddend) (high : range.maxAddend ≤ range'.maxAddend)
    (lowEnd : range'.minAddend = addend ∨ range'.minAddend = range.minAddend)
    (highEnd : range'.maxAddend = addend ∨ range'.maxAddend = range.maxAddend)
    (gap : ∀ r ∈ next, range'.maxAddend + 0xffff < r.minAddend) (pages : range'.pages ≤ range.pages + 1) :
    RangesRecorded addend (range :: next) (range' :: next) where
  apart := RangesApart.cons (le_trans holds.1 holds.2) gap apart.tail
  above bound below old r member := by
    rcases List.mem_cons.mp member with rfl | later
    · rcases lowEnd with isAddend | isOld
      · rw [isAddend]
        exact below
      · rw [isOld]
        exact old range List.mem_cons_self
    · exact old r (List.mem_cons_of_mem _ later)
  holds := ⟨range', List.mem_cons_self, holds⟩
  kept r member := by
    rcases List.mem_cons.mp member with rfl | later
    · exact ⟨range', List.mem_cons_self, low, high⟩
    · exact ⟨r, List.mem_cons_of_mem _ later, le_refl _, le_refl _⟩
  ends r member := by
    rcases List.mem_cons.mp member with rfl | later
    · exact ⟨lowEnd.imp id fun same => ⟨range, List.mem_cons_self, same⟩,
        highEnd.imp id fun same => ⟨range, List.mem_cons_self, same⟩⟩
    · exact ⟨Or.inr ⟨r, List.mem_cons_of_mem _ later, rfl⟩, Or.inr ⟨r, List.mem_cons_of_mem _ later, rfl⟩⟩
  pages := by
    rw [page_sum_cons, page_sum_cons]
    omega

theorem recorded_bridge {addend : Int} {range following : PageRange} {rest : List PageRange}
    (apart : RangesApart (range :: following :: rest)) (beyond : range.maxAddend < addend)
    (near : addend ≤ range.maxAddend + 0xffff) (reaches : following.minAddend - 0xffff ≤ addend) :
    RangesRecorded addend (range :: following :: rest)
      ({ range with maxAddend := following.maxAddend } :: rest) := by
  have first := apart.proper range List.mem_cons_self
  have second := apart.proper following (List.mem_cons_of_mem _ List.mem_cons_self)
  have gap := (List.pairwise_cons.mp apart.gaps).1 following List.mem_cons_self
  have later := (List.pairwise_cons.mp apart.tail.gaps).1
  refine ⟨?_, ?_, ?_, ?_, ?_, ?_⟩
  · exact RangesApart.cons (show range.minAddend ≤ following.maxAddend by omega) later apart.tail.tail
  · intro bound below old r member
    rcases List.mem_cons.mp member with rfl | isLater
    · exact old range List.mem_cons_self
    · exact old r (List.mem_cons_of_mem _ (List.mem_cons_of_mem _ isLater))
  · exact ⟨_, List.mem_cons_self, show range.minAddend ≤ addend by omega,
      show addend ≤ following.maxAddend by omega⟩
  · intro r member
    rcases List.mem_cons.mp member with rfl | member
    · exact ⟨_, List.mem_cons_self, le_refl _, show r.maxAddend ≤ following.maxAddend by omega⟩
    · rcases List.mem_cons.mp member with rfl | isLater
      · exact ⟨_, List.mem_cons_self, show range.minAddend ≤ r.minAddend by omega, le_refl _⟩
      · exact ⟨r, List.mem_cons_of_mem _ isLater, le_refl _, le_refl _⟩
  · intro r member
    rcases List.mem_cons.mp member with rfl | isLater
    · exact ⟨Or.inr ⟨range, List.mem_cons_self, rfl⟩,
        Or.inr ⟨following, List.mem_cons_of_mem _ List.mem_cons_self, rfl⟩⟩
    · have isOld := List.mem_cons_of_mem range (List.mem_cons_of_mem following isLater)
      exact ⟨Or.inr ⟨r, isOld, rfl⟩, Or.inr ⟨r, isOld, rfl⟩⟩
  · rw [page_sum_cons, page_sum_cons, page_sum_cons, pages_eq, pages_eq, pages_eq]
    change (following.maxAddend - range.minAddend + 0x1ffff) / 0x10000 + _ ≤ _
    omega

theorem recorded_extend (addend : Int) (range : PageRange) (next : List PageRange)
    (apart : RangesApart (range :: next)) (near : addend ≤ range.maxAddend + 0xffff)
    (reaches : range.minAddend - 0xffff ≤ addend) :
    RangesRecorded addend (range :: next)
      ((extendRange addend range next).2.1 :: (extendRange addend range next).2.2) := by
  have proper := apart.proper range List.mem_cons_self
  have gap := (List.pairwise_cons.mp apart.gaps).1
  simp only [extendRange]
  by_cases below : addend < range.minAddend
  · rw [if_pos below]
    refine recorded_wider apart ⟨le_refl _, show addend ≤ range.maxAddend by omega⟩ (le_of_lt below)
      (le_refl _) (Or.inl rfl) (Or.inr rfl) gap ?_
    rw [pages_eq, pages_eq]
    change (range.maxAddend - addend + 0x1ffff) / 0x10000 ≤ _
    omega
  rw [if_neg below]
  by_cases beyond : addend > range.maxAddend
  · have up : ∀ later : List PageRange, RangesApart (range :: later) →
        (∀ r ∈ later, addend + 0xffff < r.minAddend) →
        RangesRecorded addend (range :: later) ({ range with maxAddend := addend } :: later) := by
      intro later apart' gap'
      refine recorded_wider apart' ⟨show range.minAddend ≤ addend by omega, le_refl _⟩ (le_refl _)
        (le_of_lt beyond) (Or.inr rfl) (Or.inl rfl) gap' ?_
      rw [pages_eq, pages_eq]
      change (addend - range.minAddend + 0x1ffff) / 0x10000 ≤ _
      omega
    rw [if_pos beyond]
    cases next with
    | nil => exact up [] apart fun r member => absurd member List.not_mem_nil
    | cons following rest =>
        by_cases bridges : addend ≥ following.minAddend - 0xffff
        · simp only [if_pos bridges]
          exact recorded_bridge apart beyond near bridges
        · simp only [if_neg bridges]
          apply up (following :: rest) apart
          intro r member
          rcases List.mem_cons.mp member with rfl | isLater
          · omega
          · have further := (List.pairwise_cons.mp apart.tail.gaps).1 r isLater
            have second := apart.proper following (List.mem_cons_of_mem _ List.mem_cons_self)
            omega
  · rw [if_neg beyond]
    exact recorded_wider apart ⟨show range.minAddend ≤ addend by omega, show addend ≤ range.maxAddend by omega⟩
      (le_refl _) (le_refl _) (Or.inr rfl) (Or.inr rfl) gap (show range.pages ≤ range.pages + 1 by omega)

theorem record_addend_recorded (addend : Int) (ranges : List PageRange) (apart : RangesApart ranges) :
    RangesRecorded addend ranges (recordAddend addend ranges).1 := by
  induction ranges with
  | nil => exact recorded_single addend [] apart fun r member => absurd member List.not_mem_nil
  | cons range next ih =>
      rw [recordAddend]
      by_cases beyond : addend > range.maxAddend + 0xffff
      · rw [if_pos beyond]
        exact RangesRecorded.skip apart beyond (ih apart.tail)
      rw [if_neg beyond]
      by_cases before : addend < range.minAddend - 0xffff
      · rw [if_pos before]
        apply recorded_single addend _ apart
        intro r member
        rcases List.mem_cons.mp member with rfl | later
        · omega
        · have gap := (List.pairwise_cons.mp apart.gaps).1 r later
          have proper := apart.proper range List.mem_cons_self
          omega
      · rw [if_neg before]
        exact recorded_extend addend range next apart (by omega) (by omega)

theorem single_fits (a : Int) : PageRange.Fits ⟨a, a⟩ := by
  change a - a + 0x1ffff < 2 ^ 63
  omega

theorem extend_rest (addend : Int) (range : PageRange) (next : List PageRange) :
    ∀ r ∈ (extendRange addend range next).2.2, r ∈ next := by
  unfold extendRange
  dsimp only
  split
  · exact fun r member => member
  · split
    · cases next with
      | nil => exact fun r member => member
      | cons following rest =>
        dsimp only
        split
        · exact fun r member => List.mem_cons_of_mem _ member
        · exact fun r member => member
    · exact fun r member => member

theorem record_addend_fits {addend : Int} {ranges : List PageRange} (fits : AddendFits addend ranges)
    (old : ∀ r ∈ ranges, r.Fits) : ∀ r ∈ (recordAddend addend ranges).1, r.Fits := by
  induction ranges with
  | nil =>
    intro r member
    rw [List.mem_singleton.mp member]
    exact single_fits addend
  | cons range next ih =>
    have later : ∀ r ∈ next, r.Fits := fun r member => old r (List.mem_cons_of_mem _ member)
    rw [recordAddend]
    obtain ⟨_, searched⟩ := fits
    split at searched
    · next beyond =>
      rw [if_pos beyond]
      intro r member
      rcases List.mem_cons.mp member with rfl | found
      · exact old r List.mem_cons_self
      · exact ih searched later r found
    · next near =>
      rw [if_neg near]
      split
      · intro r member
        rcases List.mem_cons.mp member with rfl | found
        · exact single_fits addend
        · exact old r found
      · next reaches =>
        have extension := searched.2.resolve_left reaches
        intro r member
        rcases List.mem_cons.mp member with rfl | found
        · exact extension.new
        · exact later r (extend_rest addend range next r found)

theorem addend_fits_of_small {addend : Int} {ranges : List PageRange} (small : -2 ^ 60 ≤ addend ∧ addend ≤ 2 ^ 60)
    (bounds : ∀ r ∈ ranges, -2 ^ 60 ≤ r.minAddend ∧ r.minAddend ≤ 2 ^ 60 ∧ -2 ^ 60 ≤ r.maxAddend ∧ r.maxAddend ≤ 2 ^ 60) :
    AddendFits addend ranges := by
  have span : ∀ low high : Int, -2 ^ 60 ≤ low → high ≤ 2 ^ 60 → PageRange.Fits ⟨low, high⟩ := by
    intro low high above below
    change high - low + 0x1ffff < 2 ^ 63
    omega
  induction ranges with
  | nil => trivial
  | cons range next ih =>
    have own := bounds range List.mem_cons_self
    refine ⟨by omega, ?_⟩
    split
    · exact ih fun r member => bounds r (List.mem_cons_of_mem _ member)
    · refine ⟨by omega, .inr ⟨span _ _ own.1 own.2.2.2, fun _ following first => ?_, ?_⟩⟩
      · have there := bounds following (List.mem_cons_of_mem _ (List.mem_of_mem_head? first))
        exact ⟨by omega, fun _ => span _ _ there.1 there.2.2.2⟩
      · unfold extendRange
        dsimp only
        split
        · exact span _ _ small.1 own.2.2.2
        · split
          · cases next with
            | nil => exact span _ _ own.1 small.2
            | cons following rest =>
              have there := bounds following (List.mem_cons_of_mem _ List.mem_cons_self)
              dsimp only
              split
              · exact span _ _ own.1 there.2.2.2
              · exact span _ _ own.1 small.2
          · exact span _ _ own.1 own.2.2.2

theorem of_int_sub {w : Nat} (x y : Int) : BitVec.ofInt w (x - y) = BitVec.ofInt w x - BitVec.ofInt w y := by
  rw [Int.sub_eq_add_neg, BitVec.ofInt_add, BitVec.ofInt_neg, ← BitVec.sub_eq_add_neg]

theorem extend_old_pages (addend : Int) (range : PageRange) (next : List PageRange) :
    (extendRange addend range next).1 =
      BitVec.ofInt 64 (range.pages + pageSum next - pageSum (extendRange addend range next).2.2) := by
  have same : range.pages + pageSum next - pageSum next = range.pages := by omega
  simp only [extendRange]
  split
  · rw [same, pages_for_range_eq]
  · split
    · cases next with
      | nil =>
          rw [same, pages_for_range_eq]
      | cons following rest =>
          dsimp only
          split
          · have bridged : range.pages + pageSum (following :: rest) - pageSum rest =
                range.pages + following.pages := by
              rw [page_sum_cons]
              omega
            dsimp only
            rw [bridged, pages_for_range_eq, pages_for_range_eq, BitVec.ofInt_add]
          · rw [same, pages_for_range_eq]
    · rw [same, pages_for_range_eq]

theorem record_addend_change (addend : Int) (ranges : List PageRange) :
    (recordAddend addend ranges).2 =
      BitVec.ofInt 64 (pageSum (recordAddend addend ranges).1 - pageSum ranges) := by
  induction ranges with
  | nil =>
      change 1 = BitVec.ofInt 64 (pageSum [⟨addend, addend⟩] - pageSum [])
      rw [page_sum_cons, single_pages]
      rfl
  | cons range next ih =>
      rw [recordAddend]
      split
      · rw [page_sum_cons, page_sum_cons]
        have same : range.pages + pageSum (recordAddend addend next).1 - (range.pages + pageSum next) =
            pageSum (recordAddend addend next).1 - pageSum next := by omega
        rw [same]
        exact ih
      · split
        · rw [page_sum_cons, single_pages, Int.add_sub_cancel]
          rfl
        · have old := extend_old_pages addend range next
          dsimp only
          generalize extendRange addend range next = extended at old ⊢
          rcases extended with ⟨oldPages, range', next'⟩
          have whole : pageSum (range' :: next') - pageSum (range :: next) =
              range'.pages - (range.pages + pageSum next - pageSum next') := by
            rw [page_sum_cons, page_sum_cons]
            omega
          have patched : (if oldPages ≠ mipsElfPagesForRange range' then
              mipsElfPagesForRange range' - oldPages else 0) = mipsElfPagesForRange range' - oldPages := by
            split
            · rfl
            · rename_i equal
              rw [not_not.mp equal, BitVec.sub_self]
              rfl
          dsimp only at old ⊢
          rw [patched, whole, old, pages_for_range_eq, of_int_sub range'.pages]

end Openisa.Got