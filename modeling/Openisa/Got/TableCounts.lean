import Openisa.Got.MultiGot

/-! The slots that the entries of a table need, and that a table counts them as entries come in. -/

namespace Openisa.Got

open Openisa.Library.SlotTable

variable {β η : Type}

def tlsSlots (entry : GotEntry β η) : Nat :=
  (if entry.tlsType &&& (gotTlsGd ||| gotTlsLdm) ≠ 0 then 2 else 0) +
    (if entry.tlsType &&& gotTlsIe ≠ 0 then 1 else 0)

def localSlots (area : η → GlobalGotArea) (entry : GotEntry β η) : Nat :=
  if entry.tlsType = 0 ∧ entry.localP area = true then 1 else 0

def globalSlots (area : η → GlobalGotArea) (entry : GotEntry β η) : Nat :=
  if entry.tlsType = 0 ∧ entry.localP area = false then 1 else 0

def pageSlots (entry : PageEntry β) : Nat := entry.numPages.toNat

def GotEntry.slots (area : η → GlobalGotArea) (entry : GotEntry β η) : Nat :=
  localSlots area entry + globalSlots area entry + tlsSlots entry

/-- The counts of a table are what its entries need, as far as 32 bits hold it. -/
structure GotInfo.Counted (area : η → GlobalGotArea) (g : GotInfo β η) : Prop where
  locals : g.localGotno = BitVec.ofNat 32 (total (localSlots area) g.gotEntries)
  globals : g.globalGotno = BitVec.ofNat 32 (total (globalSlots area) g.gotEntries)
  tls : g.tlsGotno = BitVec.ofNat 32 (total tlsSlots g.gotEntries)
  pages : g.pageGotno = BitVec.ofNat 32 (total pageSlots g.gotPageEntries)

/-- What the entries of a table need of each kind is a 32-bit number. -/
structure GotInfo.CountsFit (area : η → GlobalGotArea) (g : GotInfo β η) : Prop where
  locals : total (localSlots area) g.gotEntries < 2 ^ 32
  globals : total (globalSlots area) g.gotEntries < 2 ^ 32
  tls : total tlsSlots g.gotEntries < 2 ^ 32
  pages : total pageSlots g.gotPageEntries < 2 ^ 32

theorem count_toNat {count : BitVec 32} {n : Nat} (counted : count = BitVec.ofNat 32 n)
    (small : n < 2 ^ 32) : count.toNat = n := by
  rw [counted, BitVec.toNat_ofNat, Nat.mod_eq_of_lt small]

theorem counts_eq {area : η → GlobalGotArea} {g : GotInfo β η} (counted : g.Counted area)
    (fit : g.CountsFit area) :
    g.localGotno.toNat = total (localSlots area) g.gotEntries ∧
      g.globalGotno.toNat = total (globalSlots area) g.gotEntries ∧
      g.tlsGotno.toNat = total tlsSlots g.gotEntries ∧
      g.pageGotno.toNat = total pageSlots g.gotPageEntries :=
  ⟨count_toNat counted.locals fit.locals, count_toNat counted.globals fit.globals,
    count_toNat counted.tls fit.tls, count_toNat counted.pages fit.pages⟩

theorem total_slots (area : η → GlobalGotArea) (entries : List (GotEntry β η)) :
    total (GotEntry.slots area) entries = total (localSlots area) entries +
      total (globalSlots area) entries + total tlsSlots entries := by
  calc
    total (GotEntry.slots area) entries =
        total (fun e => localSlots area e + globalSlots area e + tlsSlots e) entries := rfl
    _ = _ := by rw [total_add (fun e => localSlots area e + globalSlots area e), total_add]

/-- The sum that a merge estimates, as it is without wrapping. -/
def mergeSum (area : η → GlobalGotArea) (limits : GotLimits) (isPrimary : Bool)
    (source target : GotInfo β η) : Nat :=
  min limits.maxPages.toNat (total pageSlots source.gotPageEntries + total pageSlots target.gotPageEntries) +
    (total (localSlots area) source.gotEntries + total (localSlots area) target.gotEntries) +
    (total tlsSlots source.gotEntries + total tlsSlots target.gotEntries) +
    (if isPrimary then limits.globalCount.toNat
      else total (globalSlots area) source.gotEntries + total (globalSlots area) target.gotEntries)

/-- A sum of 32 bits is exact when the addends' values add up to less than `2 ^ 32`. -/
theorem ofNat_sum_toNat {x y : BitVec 32} {m n : Nat} (first : x = BitVec.ofNat 32 m)
    (second : y = BitVec.ofNat 32 n) (small : m + n < 2 ^ 32) : (x + y).toNat = m + n := by
  rw [first, second, ← BitVec.ofNat_add, BitVec.toNat_ofNat, Nat.mod_eq_of_lt small]

theorem merge_estimate_toNat {area : η → GlobalGotArea} {limits : GotLimits} {source target : GotInfo β η}
    (sourceCounted : source.Counted area) (targetCounted : target.Counted area) (isPrimary : Bool)
    (pagesFit : total pageSlots source.gotPageEntries + total pageSlots target.gotPageEntries < 2 ^ 32)
    (sumFits : mergeSum area limits isPrimary source target < 2 ^ 32) :
    (mergeEstimate limits isPrimary source target).toNat = mergeSum area limits isPrimary source target := by
  have pageSum := ofNat_sum_toNat sourceCounted.pages targetCounted.pages pagesFit
  have capped : (if limits.maxPages ≥ source.pageGotno + target.pageGotno
      then source.pageGotno + target.pageGotno else limits.maxPages) = BitVec.ofNat 32
        (min limits.maxPages.toNat
          (total pageSlots source.gotPageEntries + total pageSlots target.gotPageEntries)) := by
    apply BitVec.eq_of_toNat_eq
    rw [BitVec.toNat_ofNat, Nat.mod_eq_of_lt (by omega)]
    split
    · rename_i above
      rw [ge_iff_le, BitVec.le_def, pageSum] at above
      rw [pageSum, Nat.min_eq_right above]
    · rename_i below
      rw [ge_iff_le, BitVec.le_def, pageSum, Nat.not_le] at below
      rw [Nat.min_eq_left (Nat.le_of_lt below)]
  have wrapped : mergeEstimate limits isPrimary source target =
      BitVec.ofNat 32 (mergeSum area limits isPrimary source target) := by
    simp only [mergeEstimate, capped, mergeSum, sourceCounted.locals, targetCounted.locals,
      sourceCounted.tls, targetCounted.tls, sourceCounted.globals, targetCounted.globals]
    cases isPrimary <;> simp [BitVec.ofNat_add]
  rw [wrapped, BitVec.toNat_ofNat, Nat.mod_eq_of_lt sumFits]

variable [DecidableEq β] [DecidableEq η]

/-- Each slot has one entry, and all are counted. -/
structure GotInfo.Tidy (area : η → GlobalGotArea) (g : GotInfo β η) : Prop where
  distinct : Distinct mipsElfMultiGotEntryEq g.gotEntries
  pagesDistinct : Distinct mipsGotPageEntryEq g.gotPageEntries
  counted : g.Counted area

theorem created_tidy (area : η → GlobalGotArea) : (GotInfo.created : GotInfo β η).Tidy area where
  distinct := List.Pairwise.nil
  pagesDistinct := List.Pairwise.nil
  counted := ⟨rfl, rfl, rfl, rfl⟩

theorem add_entry_taken (area : η → GlobalGotArea) {g : GotInfo β η} {entry other : GotEntry β η}
    (member : other ∈ g.gotEntries) (shared : mipsElfMultiGotEntryEq entry other = true) :
    g.addEntry area entry = g := by
  have taken : g.gotEntries.any (mipsElfMultiGotEntryEq entry) = true :=
    List.any_eq_true.mpr ⟨other, member, shared⟩
  rw [GotInfo.addEntry, if_pos taken]

theorem add_entry_fresh (area : η → GlobalGotArea) {g : GotInfo β η} {entry : GotEntry β η}
    (fresh : ∀ other ∈ g.gotEntries, mipsElfMultiGotEntryEq entry other = false) :
    g.addEntry area entry =
      { g with
        gotEntries := g.gotEntries ++ [entry]
        localGotno := g.localGotno + BitVec.ofNat 32 (localSlots area entry)
        globalGotno := g.globalGotno + BitVec.ofNat 32 (globalSlots area entry)
        tlsGotno := g.tlsGotno + BitVec.ofNat 32 (tlsSlots entry) } := by
  have free : ¬ g.gotEntries.any (mipsElfMultiGotEntryEq entry) = true := by
    rw [List.any_eq_true]
    rintro ⟨other, member, shared⟩
    rw [fresh other member] at shared
    cases shared
  rw [GotInfo.addEntry, if_neg free]
  by_cases plain : entry.tlsType = 0#8
  · cases isL : entry.localP area <;>
      simp [plain, isL, localSlots, globalSlots, tlsSlots]
  · by_cases pair : entry.tlsType &&& (gotTlsGd ||| gotTlsLdm) = 0#8 <;>
      by_cases single : entry.tlsType &&& gotTlsIe = 0#8 <;>
        simp [plain, pair, single, localSlots, globalSlots, tlsSlots, BitVec.add_assoc]

theorem add_entry_entries (area : η → GlobalGotArea) (g : GotInfo β η) (entry : GotEntry β η) :
    (g.addEntry area entry).gotEntries = enter mipsElfMultiGotEntryEq g.gotEntries entry ∧
      (g.addEntry area entry).gotPageEntries = g.gotPageEntries := by
  rcases enter_cases mipsElfMultiGotEntryEq g.gotEntries entry with
    ⟨other, member, shared, kept⟩ | ⟨fresh, added⟩
  · rw [add_entry_taken area member shared, kept]
    exact ⟨rfl, rfl⟩
  · rw [add_entry_fresh area fresh, added]
    exact ⟨rfl, rfl⟩

theorem ofNat_total_append {α : Type} (amount : α → Nat) (table : List α) (x : α) :
    BitVec.ofNat 32 (total amount (table ++ [x])) =
      BitVec.ofNat 32 (total amount table) + BitVec.ofNat 32 (amount x) := by
  rw [total_append, BitVec.ofNat_add]
  simp [total]

theorem add_entry_tidy {area : η → GlobalGotArea} {g : GotInfo β η} (tidy : g.Tidy area)
    (entry : GotEntry β η) : (g.addEntry area entry).Tidy area := by
  rcases enter_cases mipsElfMultiGotEntryEq g.gotEntries entry with
    ⟨other, member, shared, _⟩ | ⟨fresh, added⟩
  · rwa [add_entry_taken area member shared]
  · have distinct := enter_distinct multi_got_slots tidy.distinct entry
    rw [added] at distinct
    rw [add_entry_fresh area fresh]
    refine ⟨distinct, tidy.pagesDistinct, ?_⟩
    constructor
    · rw [ofNat_total_append, tidy.counted.locals]
    · rw [ofNat_total_append, tidy.counted.globals]
    · rw [ofNat_total_append, tidy.counted.tls]
    · exact tidy.counted.pages

omit [DecidableEq η] in
theorem add_pages_entries (g : GotInfo β η) (entry : PageEntry β) :
    (g.addPages entry).gotPageEntries = enter mipsGotPageEntryEq g.gotPageEntries entry ∧
      (g.addPages entry).gotEntries = g.gotEntries := by
  unfold GotInfo.addPages enter
  split <;> exact ⟨rfl, rfl⟩

theorem add_pages_tidy {area : η → GlobalGotArea} {g : GotInfo β η} (tidy : g.Tidy area)
    (entry : PageEntry β) : (g.addPages entry).Tidy area := by
  have distinct := enter_distinct page_slots tidy.pagesDistinct entry
  rw [← (add_pages_entries g entry).1] at distinct
  refine ⟨(add_pages_entries g entry).2 ▸ tidy.distinct, distinct, ?_⟩
  rw [GotInfo.addPages]
  split
  · exact tidy.counted
  · have width : entry.numPages.setWidth 32 = BitVec.ofNat 32 (pageSlots entry) := by
      apply BitVec.eq_of_toNat_eq
      simp [pageSlots]
    refine ⟨tidy.counted.locals, tidy.counted.globals, tidy.counted.tls, ?_⟩
    rw [ofNat_total_append, width, tidy.counted.pages]

def GotInfo.absorb (area : η → GlobalGotArea) (g : GotInfo β η) (entries : List (GotEntry β η))
    (pages : List (PageEntry β)) : GotInfo β η :=
  pages.foldl GotInfo.addPages (entries.foldl (GotInfo.addEntry area) g)

theorem fold_entries (area : η → GlobalGotArea) (entries : List (GotEntry β η)) (g : GotInfo β η) :
    (entries.foldl (GotInfo.addEntry area) g).gotEntries =
        enterAll mipsElfMultiGotEntryEq g.gotEntries entries ∧
      (entries.foldl (GotInfo.addEntry area) g).gotPageEntries = g.gotPageEntries := by
  induction entries generalizing g with
  | nil => exact ⟨rfl, rfl⟩
  | cons entry entries ih =>
      have first := add_entry_entries area g entry
      have rest := ih (g.addEntry area entry)
      rw [first.1, first.2] at rest
      exact rest

omit [DecidableEq η] in
theorem fold_pages (pages : List (PageEntry β)) (g : GotInfo β η) :
    (pages.foldl GotInfo.addPages g).gotPageEntries =
        enterAll mipsGotPageEntryEq g.gotPageEntries pages ∧
      (pages.foldl GotInfo.addPages g).gotEntries = g.gotEntries := by
  induction pages generalizing g with
  | nil => exact ⟨rfl, rfl⟩
  | cons entry pages ih =>
      have first := add_pages_entries g entry
      have rest := ih (g.addPages entry)
      rw [first.1, first.2] at rest
      exact rest

theorem absorb_entries (area : η → GlobalGotArea) (g : GotInfo β η) (entries : List (GotEntry β η))
    (pages : List (PageEntry β)) :
    (g.absorb area entries pages).gotEntries = enterAll mipsElfMultiGotEntryEq g.gotEntries entries := by
  rw [GotInfo.absorb, (fold_pages pages _).2, (fold_entries area entries g).1]

theorem absorb_pages (area : η → GlobalGotArea) (g : GotInfo β η) (entries : List (GotEntry β η))
    (pages : List (PageEntry β)) :
    (g.absorb area entries pages).gotPageEntries =
      enterAll mipsGotPageEntryEq g.gotPageEntries pages := by
  rw [GotInfo.absorb, (fold_pages pages _).1, (fold_entries area entries g).2]

theorem absorb_tidy {area : η → GlobalGotArea} {g : GotInfo β η} (tidy : g.Tidy area)
    (entries : List (GotEntry β η)) (pages : List (PageEntry β)) :
    (g.absorb area entries pages).Tidy area := by
  have filled : (entries.foldl (GotInfo.addEntry area) g).Tidy area := by
    induction entries generalizing g with
    | nil => exact tidy
    | cons entry entries ih => exact ih (add_entry_tidy tidy entry)
  revert filled
  rw [GotInfo.absorb]
  generalize entries.foldl (GotInfo.addEntry area) g = start
  intro filled
  induction pages generalizing start with
  | nil => exact filled
  | cons entry pages ih => exact ih _ (add_pages_tidy filled entry)

end Openisa.Got
