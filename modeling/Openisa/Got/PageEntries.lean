import Openisa.Got.PageRanges
import Openisa.Library.BitField

/-! The number of pages that the page relocations against each symbol may need. -/

namespace Openisa.Got

open Openisa.Library
open Openisa.Library.SlotTable

variable {β η : Type} [DecidableEq β]

def mipsElfRecordGotPageEntry (g : GotInfo β η) (abfd : β) (symndx : Nat) (addend : Int) : GotInfo β η :=
  let lookup : PageEntry β := ⟨abfd, symndx, [], 0⟩
  let entry := (SlotTable.lookup mipsGotPageEntryEq g.gotPageEntries lookup).getD lookup
  let (ranges, change) := recordAddend addend entry.ranges
  { g with
    gotPageEntries := put mipsGotPageEntryEq g.gotPageEntries
      { entry with ranges := ranges, numPages := entry.numPages + change }
    pageGotno := g.pageGotno + change.setWidth 32 }

structure PageCall (β : Type) where
  abfd : β
  symndx : Nat
  addend : Int
  deriving DecidableEq, Repr

def recordPages (g : GotInfo β η) (calls : List (PageCall β)) : GotInfo β η :=
  calls.foldl (fun g call => mipsElfRecordGotPageEntry g call.abfd call.symndx call.addend) g

def addendsFor (calls : List (PageCall β)) (abfd : β) (symndx : Nat) : List Int :=
  (calls.filter fun call => call.abfd = abfd ∧ call.symndx = symndx).map PageCall.addend

structure PageEntry.Records (entry : PageEntry β) (addends : List Int) : Prop where
  apart : RangesApart entry.ranges
  covered : ∀ a ∈ addends, ∃ r ∈ entry.ranges, r.Holds a
  ends : ∀ r ∈ entry.ranges, r.minAddend ∈ addends ∧ r.maxAddend ∈ addends
  pages : entry.numPages = BitVec.ofInt 64 (pageSum entry.ranges)

/-- The table after a list of calls. -/
structure PagesRecorded (calls : List (PageCall β)) (g : GotInfo β η) : Prop where
  distinct : Distinct mipsGotPageEntryEq g.gotPageEntries
  records : ∀ entry ∈ g.gotPageEntries, entry.Records (addendsFor calls entry.abfd entry.symndx)
  present : ∀ call ∈ calls, ∃ entry ∈ g.gotPageEntries,
    entry.abfd = call.abfd ∧ entry.symndx = call.symndx
  pages : g.pageGotno = BitVec.ofInt 32 (g.gotPageEntries.map fun entry => pageSum entry.ranges).sum
  few : (g.gotPageEntries.map fun entry => pageSum entry.ranges).sum ≤ calls.length

theorem addends_for_append (calls : List (PageCall β)) (call : PageCall β) (abfd : β) (symndx : Nat) :
    addendsFor (calls ++ [call]) abfd symndx = addendsFor calls abfd symndx ++
      if call.abfd = abfd ∧ call.symndx = symndx then [call.addend] else [] := by
  rw [addendsFor, List.filter_append, List.map_append]
  by_cases own : call.abfd = abfd ∧ call.symndx = symndx
  · simp [addendsFor, own]
  · simp [addendsFor, own]

theorem mem_addends_for {calls : List (PageCall β)} {abfd : β} {symndx : Nat} {a : Int} :
    a ∈ addendsFor calls abfd symndx ↔ ∃ call ∈ calls, call.abfd = abfd ∧ call.symndx = symndx ∧ call.addend = a := by
  simp only [addendsFor, List.mem_map, List.mem_filter, decide_eq_true_eq, and_assoc]

omit [DecidableEq β] in
theorem PageEntry.Records.record {entry : PageEntry β} {addends : List Int} (records : entry.Records addends)
    (addend : Int) :
    PageEntry.Records
      { entry with
        ranges := (recordAddend addend entry.ranges).1
        numPages := entry.numPages + (recordAddend addend entry.ranges).2 } (addends ++ [addend]) := by
  have recorded := record_addend_recorded addend entry.ranges records.apart
  refine ⟨recorded.apart, ?_, ?_, ?_⟩
  · intro a member
    rcases List.mem_append.mp member with earlier | last
    · rcases records.covered a earlier with ⟨r, isOld, low, high⟩
      rcases recorded.kept r isOld with ⟨r', isNew, lower, higher⟩
      exact ⟨r', isNew, le_trans lower low, le_trans high higher⟩
    · rw [List.mem_singleton.mp last]
      exact recorded.holds
  · intro r member
    have fromOld : ∀ {x : Int}, x = addend ∨ x ∈ addends → x ∈ addends ++ [addend] := by
      intro x isEnd
      rcases isEnd with rfl | isOld
      · exact List.mem_append_right _ List.mem_cons_self
      · exact List.mem_append_left _ isOld
    rcases recorded.ends r member with ⟨low, high⟩
    constructor
    · apply fromOld
      refine low.imp id ?_
      rintro ⟨r', isOld, same⟩
      rw [same]
      exact (records.ends r' isOld).1
    · apply fromOld
      refine high.imp id ?_
      rintro ⟨r', isOld, same⟩
      rw [same]
      exact (records.ends r' isOld).2
  · have sum : pageSum entry.ranges + (pageSum (recordAddend addend entry.ranges).1 - pageSum entry.ranges) =
        pageSum (recordAddend addend entry.ranges).1 := by omega
    change entry.numPages + _ = _
    rw [records.pages, record_addend_change, ← BitVec.ofInt_add, sum]

omit [DecidableEq β] in
theorem records_nothing (abfd : β) (symndx : Nat) : PageEntry.Records (⟨abfd, symndx, [], 0⟩ : PageEntry β) [] where
  apart := ⟨fun _ member => absurd member List.not_mem_nil, List.Pairwise.nil⟩
  covered _ member := absurd member List.not_mem_nil
  ends _ member := absurd member List.not_mem_nil
  pages := rfl

theorem page_entry_eq_iff (e e' : PageEntry β) :
    mipsGotPageEntryEq e e' = true ↔ e.abfd = e'.abfd ∧ e.symndx = e'.symndx := by
  simp [mipsGotPageEntryEq]

theorem set_width_of_int (x : Int) : (BitVec.ofInt 64 x).setWidth 32 = BitVec.ofInt 32 x := by
  apply BitVec.eq_of_toNat_eq
  rw [BitVec.toNat_setWidth, BitVec.toNat_ofInt, BitVec.toNat_ofInt]
  omega

structure Replaced (g g' : GotInfo β η) (old : PageEntry β) (addend : Int) : Prop where
  entries : g'.gotPageEntries = put mipsGotPageEntryEq g.gotPageEntries
    { old with ranges := (recordAddend addend old.ranges).1
               numPages := old.numPages + (recordAddend addend old.ranges).2 }
  gotno : g'.pageGotno = g.pageGotno + (recordAddend addend old.ranges).2.setWidth 32
  sum : ((SlotTable.lookup mipsGotPageEntryEq g.gotPageEntries
    { old with ranges := (recordAddend addend old.ranges).1
               numPages := old.numPages + (recordAddend addend old.ranges).2 }).map
      fun entry => pageSum entry.ranges).getD 0 = pageSum old.ranges

theorem PagesRecorded.replaced {calls : List (PageCall β)} {g : GotInfo β η} (recorded : PagesRecorded calls g)
    (call : PageCall β) :
    ∃ old : PageEntry β, old.abfd = call.abfd ∧ old.symndx = call.symndx ∧
      old.Records (addendsFor calls call.abfd call.symndx) ∧
      Replaced g (mipsElfRecordGotPageEntry g call.abfd call.symndx call.addend) old call.addend := by
  cases found : SlotTable.lookup mipsGotPageEntryEq g.gotPageEntries ⟨call.abfd, call.symndx, [], 0⟩ with
  | none =>
      have fresh := List.find?_eq_none.mp found
      have empty : addendsFor calls call.abfd call.symndx = [] := by
        apply List.eq_nil_iff_forall_not_mem.mpr
        intro a member
        rcases mem_addends_for.mp member with ⟨earlier, isCall, abfd, symndx, _⟩
        rcases recorded.present earlier isCall with ⟨entry, stored, sameAbfd, sameSymndx⟩
        apply fresh entry stored
        rw [page_entry_eq_iff]
        exact ⟨abfd.symm.trans sameAbfd.symm, symndx.symm.trans sameSymndx.symm⟩
      refine ⟨⟨call.abfd, call.symndx, [], 0⟩, rfl, rfl, ?_, ?_⟩
      · rw [empty]
        exact records_nothing _ _
      · refine ⟨?_, ?_, ?_⟩
        · simp only [mipsElfRecordGotPageEntry, found]
          rfl
        · simp only [mipsElfRecordGotPageEntry, found]
          rfl
        · have none : SlotTable.lookup mipsGotPageEntryEq g.gotPageEntries
              (⟨call.abfd, call.symndx, (recordAddend call.addend []).1, 0 + (recordAddend call.addend []).2⟩ :
                PageEntry β) = none := found
          rw [none]
          rfl
  | some old =>
      have stored := List.mem_of_find?_eq_some found
      have shared := List.find?_some found
      rw [page_entry_eq_iff] at shared
      rcases shared with ⟨abfd, symndx⟩
      have test : ∀ ranges numPages, mipsGotPageEntryEq { old with ranges := ranges, numPages := numPages } =
          mipsGotPageEntryEq (⟨call.abfd, call.symndx, [], 0⟩ : PageEntry β) := by
        intro ranges numPages
        funext entry
        simp only [mipsGotPageEntryEq, ← abfd, ← symndx]
      refine ⟨old, abfd.symm, symndx.symm, ?_, ?_⟩
      · have records := recorded.records old stored
        rw [← abfd, ← symndx] at records
        exact records
      · refine ⟨?_, ?_, ?_⟩
        · simp only [mipsElfRecordGotPageEntry, found]
          rfl
        · simp only [mipsElfRecordGotPageEntry, found]
          rfl
        · rw [SlotTable.lookup] at found ⊢
          rw [test, found]
          rfl

theorem PagesRecorded.record {calls : List (PageCall β)} {g : GotInfo β η} (recorded : PagesRecorded calls g)
    (call : PageCall β) :
    PagesRecorded (calls ++ [call]) (mipsElfRecordGotPageEntry g call.abfd call.symndx call.addend) := by
  rcases recorded.replaced call with ⟨old, abfd, symndx, oldRecords, replaced⟩
  have newRecords := oldRecords.record call.addend
  have sums := sum_put page_slots (fun entry : PageEntry β => pageSum entry.ranges) recorded.distinct
    { old with ranges := (recordAddend call.addend old.ranges).1
               numPages := old.numPages + (recordAddend call.addend old.ranges).2 }
  rw [replaced.sum, ← replaced.entries] at sums
  dsimp only at sums
  have step := (record_addend_recorded call.addend old.ranges oldRecords.apart).pages
  refine ⟨?_, ?_, ?_, ?_, ?_⟩
  · rw [replaced.entries]
    exact put_distinct page_slots recorded.distinct _
  · intro entry member
    rw [replaced.entries, mem_put] at member
    rw [addends_for_append]
    rcases member with rfl | ⟨isOld, apart⟩
    · change PageEntry.Records _ (addendsFor calls old.abfd old.symndx ++
        if call.abfd = old.abfd ∧ call.symndx = old.symndx then [call.addend] else [])
      rw [if_pos ⟨abfd.symm, symndx.symm⟩]
      rw [← abfd, ← symndx] at newRecords
      exact newRecords
    · have other : ¬ (call.abfd = entry.abfd ∧ call.symndx = entry.symndx) := by
        intro own
        have same : mipsGotPageEntryEq
            { old with ranges := (recordAddend call.addend old.ranges).1
                       numPages := old.numPages + (recordAddend call.addend old.ranges).2 } entry = true := by
          rw [page_entry_eq_iff]
          exact ⟨abfd.trans own.1, symndx.trans own.2⟩
        rw [apart] at same
        cases same
      rw [if_neg other, List.append_nil]
      exact recorded.records entry isOld
  · intro earlier member
    rw [replaced.entries]
    rcases List.mem_append.mp member with isCall | last
    · rcases recorded.present earlier isCall with ⟨entry, stored, sameAbfd, sameSymndx⟩
      by_cases own : mipsGotPageEntryEq
          { old with ranges := (recordAddend call.addend old.ranges).1
                     numPages := old.numPages + (recordAddend call.addend old.ranges).2 } entry = true
      · have keys := (page_entry_eq_iff _ _).mp own
        exact ⟨_, mem_put.mpr (Or.inl rfl), keys.1.trans sameAbfd, keys.2.trans sameSymndx⟩
      · exact ⟨entry, mem_put.mpr (Or.inr ⟨stored, by simpa using own⟩), sameAbfd, sameSymndx⟩
    · rw [List.mem_singleton.mp last]
      exact ⟨_, mem_put.mpr (Or.inl rfl), abfd, symndx⟩
  · rw [replaced.gotno, recorded.pages, record_addend_change, set_width_of_int, ← BitVec.ofInt_add]
    congr 1
    omega
  · have few := recorded.few
    rw [List.length_append, List.length_singleton]
    push_cast
    omega

/-- The ranges of a symbol. -/
def GotInfo.rangesOf (g : GotInfo β η) (abfd : β) (symndx : Nat) : List PageRange :=
  ((SlotTable.lookup mipsGotPageEntryEq g.gotPageEntries ⟨abfd, symndx, [], 0⟩).map PageEntry.ranges).getD []

/-- The addends are of type `bfd_signed_vma`, and no call computes anything outside this type. -/
structure NoWrap (g : GotInfo β η) (calls : List (PageCall β)) : Prop where
  signed : ∀ call ∈ calls, -2 ^ 63 ≤ call.addend ∧ call.addend < 2 ^ 63
  steps : ∀ done call rest, calls = done ++ call :: rest →
    AddendFits call.addend ((recordPages g done).rangesOf call.abfd call.symndx)

theorem records_run (g : GotInfo β η) (empty : g.gotPageEntries = []) (zero : g.pageGotno = 0)
    (calls : List (PageCall β)) : PagesRecorded calls (recordPages g calls) := by
  induction calls using List.reverseRecOn with
  | nil =>
      have start : recordPages g [] = g := rfl
      rw [start]
      refine ⟨?_, ?_, ?_, ?_, ?_⟩
      · rw [empty]
        exact List.Pairwise.nil
      · intro entry member
        rw [empty] at member
        exact absurd member List.not_mem_nil
      · intro call member
        exact absurd member List.not_mem_nil
      · rw [zero, empty]
        rfl
      · rw [empty]
        exact le_refl _
  | append_singleton calls call ih =>
      have step := ih.record call
      rw [recordPages, List.foldl_append]
      exact step

theorem NoWrap.before {g : GotInfo β η} {calls rest : List (PageCall β)} (fits : NoWrap g (calls ++ rest)) :
    NoWrap g calls where
  signed call member := fits.signed call (List.mem_append_left _ member)
  steps done call behind cut := fits.steps done call (behind ++ rest) (by rw [cut, List.append_assoc, List.cons_append])

theorem fits_run (g : GotInfo β η) (empty : g.gotPageEntries = []) (calls : List (PageCall β))
    (fits : NoWrap g calls) : ∀ entry ∈ (recordPages g calls).gotPageEntries, ∀ r ∈ entry.ranges, r.Fits := by
  induction calls using List.reverseRecOn with
  | nil =>
    intro entry member
    change entry ∈ g.gotPageEntries at member
    rw [empty] at member
    cases member
  | append_singleton calls call ih =>
    have earlier := ih fits.before
    have addend := fits.steps calls call [] rfl
    rw [recordPages, List.foldl_append]
    change ∀ entry ∈ (mipsElfRecordGotPageEntry (recordPages g calls) _ _ _).gotPageEntries, _
    unfold GotInfo.rangesOf at addend
    unfold mipsElfRecordGotPageEntry
    dsimp only
    cases found : SlotTable.lookup mipsGotPageEntryEq (recordPages g calls).gotPageEntries
        ⟨call.abfd, call.symndx, [], 0⟩ with
    | none =>
      intro entry member
      rcases mem_put.mp member with rfl | ⟨kept, _⟩
      · exact record_addend_fits trivial fun r none => absurd none List.not_mem_nil
      · exact earlier entry kept
    | some old =>
      rw [found] at addend
      intro entry member
      rcases mem_put.mp member with rfl | ⟨kept, _⟩
      · exact record_addend_fits addend (earlier old (List.mem_of_find?_eq_some found))
      · exact earlier entry kept

theorem noWrap_of_small (g : GotInfo β η) (empty : g.gotPageEntries = []) (zero : g.pageGotno = 0)
    {calls : List (PageCall β)} (small : ∀ call ∈ calls, -2 ^ 60 ≤ call.addend ∧ call.addend ≤ 2 ^ 60) :
    NoWrap g calls where
  signed call member := by
    have bounds := small call member
    omega
  steps done call rest cut := by
    have member : ∀ earlier ∈ done, earlier ∈ calls := fun earlier inside => cut ▸ List.mem_append_left _ inside
    have recorded := records_run g empty zero done
    refine addend_fits_of_small (small call (cut ▸ List.mem_append_right _ List.mem_cons_self)) fun r range => ?_
    unfold GotInfo.rangesOf at range
    cases found : SlotTable.lookup mipsGotPageEntryEq (recordPages g done).gotPageEntries
        ⟨call.abfd, call.symndx, [], 0⟩ with
    | none =>
      rw [found] at range
      cases range
    | some entry =>
      rw [found] at range
      have ends := (recorded.records entry (List.mem_of_find?_eq_some found)).ends r range
      obtain ⟨first, isFirst, _, _, isMin⟩ := mem_addends_for.mp ends.1
      obtain ⟨last, isLast, _, _, isMax⟩ := mem_addends_for.mp ends.2
      have low := small first (member first isFirst)
      have high := small last (member last isLast)
      omega

theorem page_sum_le (low high : Int) {ranges : List PageRange} (apart : RangesApart ranges)
    (within : ∀ r ∈ ranges, low ≤ r.minAddend ∧ r.maxAddend ≤ high) (some : low ≤ high + 0x10000) :
    pageSum ranges * 0x10000 ≤ 2 * (high - low + 0x10000) := by
  induction ranges generalizing low with
  | nil =>
      change (0 : Int) * 0x10000 ≤ _
      omega
  | cons r rest ih =>
      have proper := apart.proper r List.mem_cons_self
      have own := within r List.mem_cons_self
      have later := ih (r.maxAddend + 0x10000) apart.tail (by
        intro r' member
        have gap := (List.pairwise_cons.mp apart.gaps).1 r' member
        exact ⟨by omega, (within r' (List.mem_cons_of_mem _ member)).2⟩) (by omega)
      rw [page_sum_cons, pages_eq]
      omega

/-- The page of 64K that `mips_elf_got_page` looks for. -/
def pageAddress (value : BitVec 64) : BitVec 64 := (value + 0x8000) &&& ~~~0xffff

theorem page_address_toNat (value : BitVec 64) :
    (pageAddress value).toNat = (value + 0x8000).toNat / 2 ^ 16 * 2 ^ 16 := by
  have mask : (~~~0xffff : BitVec 64) = BitField.mask 64 16 48 := by decide
  rw [pageAddress, mask, BitField.and_mask_toNat 16 48 (by decide), BitField.toNat_field]
  have small := (value + 0x8000).isLt
  omega

theorem page_address_block (s : BitVec 64) (a : Int) :
    pageAddress (s + BitVec.ofInt 64 a) = BitVec.ofInt 64 ((s.toNat + 0x8000 + a) / 2 ^ 16 * 2 ^ 16) := by
  apply BitVec.eq_of_toNat_eq
  have constant : (0x8000 : BitVec 64).toNat = 0x8000 := rfl
  rw [page_address_toNat, BitVec.toNat_ofInt, BitVec.toNat_add, BitVec.toNat_add, BitVec.toNat_ofInt, constant]
  omega

/-- The pages that the addends of a symbol at `s` lie in. -/
def pagesAt (addends : List Int) (s : BitVec 64) : Finset (BitVec 64) :=
  addends.toFinset.image fun a => pageAddress (s + BitVec.ofInt 64 a)

structure PagesAccounted (calls : List (PageCall β)) (g : GotInfo β η) : Prop where
  distinct : Distinct mipsGotPageEntryEq g.gotPageEntries
  present : ∀ call ∈ calls, ∃ entry ∈ g.gotPageEntries,
    entry.abfd = call.abfd ∧ entry.symndx = call.symndx
  proper : ∀ entry ∈ g.gotPageEntries, ∀ r ∈ entry.ranges, r.minAddend ≤ r.maxAddend
  gaps : ∀ entry ∈ g.gotPageEntries,
    entry.ranges.Pairwise fun r r' => r.maxAddend + 0xffff < r'.minAddend
  covered : ∀ entry ∈ g.gotPageEntries, ∀ a ∈ addendsFor calls entry.abfd entry.symndx,
    ∃ r ∈ entry.ranges, r.Holds a
  ends : ∀ entry ∈ g.gotPageEntries, ∀ r ∈ entry.ranges,
    r.minAddend ∈ addendsFor calls entry.abfd entry.symndx ∧
      r.maxAddend ∈ addendsFor calls entry.abfd entry.symndx
  pages : ∀ entry ∈ g.gotPageEntries,
    entry.numPages.toNat = (entry.ranges.map fun r => (mipsElfPagesForRange r).toNat).sum
  gotno : g.pageGotno.toNat = (g.gotPageEntries.map fun entry => entry.numPages.toNat).sum % 2 ^ 32
  few : (g.gotPageEntries.map fun entry => entry.numPages.toNat).sum ≤ calls.length
  bound : ∀ entry ∈ g.gotPageEntries, ∀ s : BitVec 64,
    (pagesAt (addendsFor calls entry.abfd entry.symndx) s).card ≤ entry.numPages.toNat

theorem pages_at_card_le (addends : List Int) (ranges : List PageRange) (apart : RangesApart ranges)
    (covered : ∀ a ∈ addends, ∃ r ∈ ranges, r.Holds a) (s : BitVec 64) :
    ((pagesAt addends s).card : Int) ≤ pageSum ranges := by
  have blocks := BlockCount.card_blocks_cover_le (show (0 : Int) < 2 ^ 16 by decide) (s.toNat + 0x8000)
    (ranges.map fun r => (r.minAddend, r.maxAddend))
    (by
      intro pair member
      rcases List.mem_map.mp member with ⟨r, isRange, rfl⟩
      exact apart.proper r isRange)
    addends.toFinset
    (by
      intro a member
      rcases covered a (List.mem_toFinset.mp member) with ⟨r, isRange, holds⟩
      exact ⟨_, List.mem_map.mpr ⟨r, isRange, rfl⟩, holds⟩)
  rw [List.map_map] at blocks
  have through : pagesAt addends s =
      (addends.toFinset.image fun a : Int => ((s.toNat : Int) + 0x8000 + a) / 2 ^ 16).image
        fun block => BitVec.ofInt 64 (block * 2 ^ 16) := by
    rw [pagesAt, Finset.image_image]
    apply Finset.image_congr
    intro a _
    exact page_address_block s a
  calc
    ((pagesAt addends s).card : Int)
        ≤ ((addends.toFinset.image fun a : Int => ((s.toNat : Int) + 0x8000 + a) / 2 ^ 16).card : Int) := by
          rw [through]
          exact_mod_cast Finset.card_image_le
    _ ≤ pageSum ranges := blocks

theorem page_sum_nonneg {ranges : List PageRange} (apart : RangesApart ranges) : 0 ≤ pageSum ranges := by
  apply List.sum_nonneg
  intro pages member
  rcases List.mem_map.mp member with ⟨r, isRange, rfl⟩
  have one := BlockCount.blocks_pos (show (0 : Int) < 2 ^ 16 by decide) (apart.proper r isRange)
  rw [PageRange.pages]
  omega

theorem pages_sum_toNat (ranges : List PageRange)
    (small : ∀ r ∈ ranges, 0 ≤ r.pages ∧ r.pages < 2 ^ 64) :
    ((ranges.map fun r => (mipsElfPagesForRange r).toNat).sum : Int) = pageSum ranges := by
  induction ranges with
  | nil => rfl
  | cons r rest ih =>
      have own := small r List.mem_cons_self
      have later := ih fun r' member => small r' (List.mem_cons_of_mem _ member)
      rw [List.map_cons, List.sum_cons, page_sum_cons, pages_for_range_eq, BitVec.toNat_ofInt]
      push_cast at later ⊢
      omega

variable {calls : List (PageCall β)} {entry : PageEntry β}

theorem PageEntry.Records.exact (signed : ∀ call ∈ calls, -2 ^ 63 ≤ call.addend ∧ call.addend < 2 ^ 63)
    (fits : ∀ r ∈ entry.ranges, r.Fits) (records : entry.Records (addendsFor calls entry.abfd entry.symndx)) :
    (entry.numPages.toNat : Int) = pageSum entry.ranges ∧
      entry.numPages.toNat = (entry.ranges.map fun r => (mipsElfPagesForRange r).toNat).sum := by
  have ends : ∀ r ∈ entry.ranges, -2 ^ 63 ≤ r.minAddend ∧ r.maxAddend ≤ 2 ^ 63 - 1 := by
    intro r member
    rcases records.ends r member with ⟨low, high⟩
    rcases mem_addends_for.mp low with ⟨first, isFirst, _, _, isMin⟩
    rcases mem_addends_for.mp high with ⟨last, isLast, _, _, isMax⟩
    have lowFits := (signed first isFirst).1
    have highFits := (signed last isLast).2
    omega
  have nonneg := page_sum_nonneg records.apart
  have bounded := page_sum_le (-2 ^ 63) (2 ^ 63 - 1) records.apart ends (by decide)
  have whole : (entry.numPages.toNat : Int) = pageSum entry.ranges := by
    rw [records.pages, BitVec.toNat_ofInt]
    push_cast
    omega
  refine ⟨whole, ?_⟩
  have sum := pages_sum_toNat entry.ranges (by
    intro r member
    have proper := records.apart.proper r member
    have span := fits r member
    unfold PageRange.Fits at span
    rw [pages_eq]
    constructor
    · omega
    · omega)
  omega

omit [DecidableEq β] in
theorem numbers_sum (entries : List (PageEntry β))
    (whole : ∀ entry ∈ entries, (entry.numPages.toNat : Int) = pageSum entry.ranges) :
    (((entries.map fun entry => entry.numPages.toNat).sum : Nat) : Int) =
      (entries.map fun entry => pageSum entry.ranges).sum := by
  induction entries with
  | nil => rfl
  | cons entry rest ih =>
      have own := whole entry List.mem_cons_self
      have later := ih fun entry' member => whole entry' (List.mem_cons_of_mem _ member)
      rw [List.map_cons, List.map_cons, List.sum_cons, List.sum_cons, Int.natCast_add]
      omega

/-- The ranges, the numbers of pages and their sum account for all recorded addends, and no symbol
needs more pages than are counted for it, wherever it lies. -/
theorem page_entries_account (g : GotInfo β η) (empty : g.gotPageEntries = []) (zero : g.pageGotno = 0)
    (calls : List (PageCall β)) (fits : NoWrap g calls) : PagesAccounted calls (recordPages g calls) := by
  have recorded := records_run g empty zero calls
  have exact := fun entry member =>
    (recorded.records entry member).exact fits.signed (fits_run g empty calls fits entry member)
  have total := numbers_sum (recordPages g calls).gotPageEntries fun entry member => (exact entry member).1
  refine ⟨recorded.distinct, recorded.present, ?_, ?_, ?_, ?_, ?_, ?_, ?_, ?_⟩
  · exact fun entry member => (recorded.records entry member).apart.proper
  · exact fun entry member => (recorded.records entry member).apart.gaps
  · exact fun entry member => (recorded.records entry member).covered
  · exact fun entry member => (recorded.records entry member).ends
  · exact fun entry member => (exact entry member).2
  · rw [recorded.pages, ← total, BitVec.toNat_ofInt]
    omega
  · have few := recorded.few
    omega
  · intro entry member s
    have pages := pages_at_card_le _ entry.ranges (recorded.records entry member).apart
      (recorded.records entry member).covered s
    have whole := (exact entry member).1
    omega

def samplePageCalls : List (PageCall Nat) := [⟨0, 1, 0⟩, ⟨0, 1, 0x20000⟩, ⟨0, 2, 8⟩, ⟨0, 1, 0x10800⟩]

def emptyGot : GotInfo Nat Nat := ⟨0, 0, 0, 0, 0, 0, [], [], 0⟩

theorem page_entries_account_bridge : PagesAccounted samplePageCalls (recordPages emptyGot samplePageCalls) :=
  page_entries_account emptyGot rfl rfl samplePageCalls (noWrap_of_small emptyGot rfl rfl (by decide))

omit [DecidableEq β] in
theorem filled_le_sum (entries : List (PageEntry β)) :
    (entries.filter fun entry => 0 < entry.numPages.toNat).length ≤
      (entries.map fun entry => entry.numPages.toNat).sum := by
  induction entries with
  | nil => exact le_refl _
  | cons entry rest ih =>
    rw [List.map_cons, List.sum_cons]
    by_cases filled : 0 < entry.numPages.toNat
    · rw [List.filter_cons_of_pos (by simpa using filled), List.length_cons]
      omega
    · rw [List.filter_cons_of_neg (by simpa using filled)]
      omega

theorem PagesRecorded.many {g : GotInfo β η} (recorded : PagesRecorded calls g)
    (whole : ∀ entry ∈ g.gotPageEntries, (entry.numPages.toNat : Int) = pageSum entry.ranges)
    (apart : (calls.map fun call => (call.abfd, call.symndx)).Nodup) :
    calls.length ≤ (g.gotPageEntries.map fun entry => entry.numPages.toNat).sum := by
  have keys : (calls.map fun call => (call.abfd, call.symndx)) ⊆
      (g.gotPageEntries.filter fun entry => 0 < entry.numPages.toNat).map fun entry => (entry.abfd, entry.symndx) := by
    intro key member
    obtain ⟨call, isCall, rfl⟩ := List.mem_map.mp member
    obtain ⟨entry, stored, abfd, symndx⟩ := recorded.present call isCall
    have own : call.addend ∈ addendsFor calls entry.abfd entry.symndx :=
      mem_addends_for.mpr ⟨call, isCall, abfd.symm, symndx.symm, rfl⟩
    have records := recorded.records entry stored
    have some := pages_at_card_le _ entry.ranges records.apart records.covered 0
    have page : 0 < (pagesAt (addendsFor calls entry.abfd entry.symndx) 0).card :=
      Finset.card_pos.mpr ⟨_, Finset.mem_image_of_mem _ (List.mem_toFinset.mpr own)⟩
    have exact := whole entry stored
    have filled : 0 < entry.numPages.toNat := by omega
    exact List.mem_map.mpr ⟨entry, List.mem_filter.mpr ⟨stored, by simpa using filled⟩, by rw [abfd, symndx]⟩
  have fewer := (apart.subperm keys).length_le
  rw [List.length_map, List.length_map] at fewer
  exact le_trans fewer (filled_le_sum g.gotPageEntries)

/-- As many symbols as an `unsigned int` has values, with an addend each. -/
def manySymbols : List (PageCall Nat) := (List.range (2 ^ 32)).map fun k => ⟨k / 2 ^ 24, k % 2 ^ 24, 0⟩

theorem manySymbols_apart : (manySymbols.map fun call => (call.abfd, call.symndx)).Nodup := by
  rw [manySymbols, List.map_map]
  refine List.nodup_range.map fun k l same => ?_
  simp only [Function.comp_apply, Prod.mk.injEq] at same
  omega

theorem page_gotno_wraps : NoWrap emptyGot manySymbols ∧
    (recordPages emptyGot manySymbols).pageGotno.toNat ≠
      ((recordPages emptyGot manySymbols).gotPageEntries.map fun entry => entry.numPages.toNat).sum := by
  have fits : NoWrap emptyGot manySymbols := noWrap_of_small emptyGot rfl rfl fun call member => by
    obtain ⟨k, _, rfl⟩ := List.mem_map.mp member
    exact ⟨show -2 ^ 60 ≤ (0 : Int) by omega, show (0 : Int) ≤ 2 ^ 60 by omega⟩
  have recorded := records_run emptyGot rfl rfl manySymbols
  have many := recorded.many (fun entry member => ((recorded.records entry member).exact fits.signed
    (fits_run emptyGot rfl manySymbols fits entry member)).1) manySymbols_apart
  have count : manySymbols.length = 2 ^ 32 := by rw [manySymbols, List.length_map, List.length_range]
  have bound := (recordPages emptyGot manySymbols).pageGotno.isLt
  exact ⟨fits, by omega⟩

end Openisa.Got
