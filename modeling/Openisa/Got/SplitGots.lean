import Openisa.Got.TableCounts

/-! The tables that the inputs get when the master table is split. -/

namespace Openisa.Got

open Openisa.Library.SlotTable

variable {β η : Type} [DecidableEq β] [DecidableEq η]

/-- Each input that the entries so far refer to has a table of its own, with just its entries. -/
structure SplitInto (area : η → GlobalGotArea) (entries : List (GotEntry β η)) (pages : List (PageEntry β))
    (arg : GotPerBfdArg β η) : Prop where
  mapped : ∀ b, arg.bfd2got b = if b ∈ arg.inputs then some b else none
  nodup : arg.inputs.Nodup
  inputs : ∀ b, b ∈ arg.inputs ↔ (∃ e ∈ entries, e.key.abfd = some b) ∨ ∃ p ∈ pages, p.abfd = b
  entries : ∀ b, (arg.gots b).gotEntries = entries.filter (·.key.abfd == some b)
  pages : ∀ b, (arg.gots b).gotPageEntries = pages.filter (·.abfd == b)
  tidy : ∀ b, (arg.gots b).Tidy area
  unmerged : arg.primary = none ∧ arg.current = []

variable {area : η → GlobalGotArea} {entries : List (GotEntry β η)} {pages : List (PageEntry β)}
  {arg : GotPerBfdArg β η}

theorem split_start (area : η → GlobalGotArea) : SplitInto area [] [] (.start : GotPerBfdArg β η) where
  mapped _ := rfl
  nodup := List.nodup_nil
  inputs b := by simp [GotPerBfdArg.start]
  entries _ := rfl
  pages _ := rfl
  tidy _ := created_tidy area
  unmerged := ⟨rfl, rfl⟩

/-- After `mips_elf_get_got_for_bfd` the input has a table. -/
structure OpenedFor (area : η → GlobalGotArea) (b : β) (arg opened : GotPerBfdArg β η) : Prop where
  mapped : ∀ b', opened.bfd2got b' = if b' ∈ opened.inputs then some b' else none
  nodup : opened.inputs.Nodup
  inputs : ∀ b', b' ∈ opened.inputs ↔ b' ∈ arg.inputs ∨ b' = b
  entries : ∀ b', (opened.gots b').gotEntries = (arg.gots b').gotEntries
  pages : ∀ b', (opened.gots b').gotPageEntries = (arg.gots b').gotPageEntries
  tidy : ∀ b', (opened.gots b').Tidy area
  unmerged : opened.primary = none ∧ opened.current = []

theorem SplitInto.present (split : SplitInto area entries pages arg) {b : β} (present : b ∈ arg.inputs) :
    OpenedFor area b arg arg where
  mapped := split.mapped
  nodup := split.nodup
  inputs b' := by
    constructor
    · exact Or.inl
    · rintro (member | rfl)
      · exact member
      · exact present
  entries _ := rfl
  pages _ := rfl
  tidy := split.tidy
  unmerged := split.unmerged

theorem SplitInto.created (split : SplitInto area entries pages arg) {b : β} (absent : b ∉ arg.inputs) :
    OpenedFor area b arg
      (({ arg with inputs := arg.inputs ++ [b] }.mapTo b b).setGot b .created) := by
  have unseen := (split.inputs b).not.mp absent
  have noEntries : (arg.gots b).gotEntries = [] := by
    rw [split.entries, List.filter_eq_nil_iff]
    intro e member same
    exact unseen (Or.inl ⟨e, member, by simpa using same⟩)
  have noPages : (arg.gots b).gotPageEntries = [] := by
    rw [split.pages, List.filter_eq_nil_iff]
    intro p member same
    exact unseen (Or.inr ⟨p, member, by simpa using same⟩)
  refine ⟨?_, ?_, ?_, ?_, ?_, ?_, split.unmerged⟩
  · intro b'
    by_cases isB : b' = b
    · subst isB
      simp [GotPerBfdArg.setGot, GotPerBfdArg.mapTo]
    · simp [GotPerBfdArg.setGot, GotPerBfdArg.mapTo, isB, split.mapped]
  · apply List.nodup_append.mpr
    refine ⟨split.nodup, List.nodup_singleton b, ?_⟩
    rintro x member y single rfl
    rw [List.mem_singleton.mp single] at member
    exact absent member
  · intro b'
    simp [GotPerBfdArg.setGot, GotPerBfdArg.mapTo]
  · intro b'
    by_cases isB : b' = b
    · subst isB
      simp [GotPerBfdArg.setGot, noEntries, GotInfo.created]
    · simp [GotPerBfdArg.setGot, GotPerBfdArg.mapTo, isB]
  · intro b'
    by_cases isB : b' = b
    · subst isB
      simp [GotPerBfdArg.setGot, noPages, GotInfo.created]
    · simp [GotPerBfdArg.setGot, GotPerBfdArg.mapTo, isB]
  · intro b'
    by_cases isB : b' = b
    · subst isB
      simpa [GotPerBfdArg.setGot] using created_tidy area
    · simpa [GotPerBfdArg.setGot, GotPerBfdArg.mapTo, isB] using split.tidy b'

theorem SplitInto.opened (split : SplitInto area entries pages arg) (b : β) :
    ∃ opened, mipsElfGetGotForBfd arg b = (opened, b) ∧ OpenedFor area b arg opened := by
  by_cases member : b ∈ arg.inputs
  · refine ⟨arg, ?_, split.present member⟩
    rw [mipsElfGetGotForBfd, split.mapped, if_pos member]
  · refine ⟨_, ?_, split.created member⟩
    rw [mipsElfGetGotForBfd, split.mapped, if_neg member]

theorem OpenedFor.stored {b : β} {opened : GotPerBfdArg β η} (isOpen : OpenedFor area b arg opened)
    {info : GotInfo β η} (tidy : info.Tidy area)
    (inputs : ∀ b', b' ∈ arg.inputs ∨ b' = b ↔
      (∃ e ∈ entries, e.key.abfd = some b') ∨ ∃ p ∈ pages, p.abfd = b')
    (own : info.gotEntries = entries.filter (·.key.abfd == some b))
    (ownPages : info.gotPageEntries = pages.filter (·.abfd == b))
    (others : ∀ b', b' ≠ b → (arg.gots b').gotEntries = entries.filter (·.key.abfd == some b'))
    (otherPages : ∀ b', b' ≠ b → (arg.gots b').gotPageEntries = pages.filter (·.abfd == b')) :
    SplitInto area entries pages (opened.setGot b info) where
  mapped := isOpen.mapped
  nodup := isOpen.nodup
  inputs b' := (isOpen.inputs b').trans (inputs b')
  entries b' := by
    by_cases isB : b' = b
    · subst isB
      simpa [GotPerBfdArg.setGot] using own
    · simpa [GotPerBfdArg.setGot, isB, isOpen.entries] using others b' isB
  pages b' := by
    by_cases isB : b' = b
    · subst isB
      simpa [GotPerBfdArg.setGot] using ownPages
    · simpa [GotPerBfdArg.setGot, isB, isOpen.pages] using otherPages b' isB
  tidy b' := by
    by_cases isB : b' = b
    · subst isB
      simpa [GotPerBfdArg.setGot] using tidy
    · simpa [GotPerBfdArg.setGot, isB] using isOpen.tidy b'
  unmerged := isOpen.unmerged

theorem split_entry (split : SplitInto area entries pages arg) {e : GotEntry β η} {b : β}
    (input : e.key.abfd = some b)
    (fresh : ∀ e' ∈ entries, e'.key.abfd = some b → mipsElfMultiGotEntryEq e e' = false) :
    SplitInto area (entries ++ [e]) pages (mipsElfMakeGotPerBfd area arg e) := by
  rcases split.opened b with ⟨opened, found, isOpen⟩
  have free : ∀ e' ∈ (opened.gots b).gotEntries, mipsElfMultiGotEntryEq e e' = false := by
    intro e' member
    rw [isOpen.entries, split.entries, List.mem_filter] at member
    exact fresh e' member.1 (by simpa using member.2)
  have stored := add_entry_entries area (opened.gots b) e
  rw [enter_fresh free] at stored
  simp only [mipsElfMakeGotPerBfd, input, found]
  apply isOpen.stored (add_entry_tidy (isOpen.tidy b) e)
  · intro b'
    rw [split.inputs]
    simp only [List.mem_append, List.mem_singleton]
    constructor
    · rintro ((⟨e', member, refers⟩ | paged) | rfl)
      · exact Or.inl ⟨e', Or.inl member, refers⟩
      · exact Or.inr paged
      · exact Or.inl ⟨e, Or.inr rfl, input⟩
    · rintro (⟨e', member | rfl, refers⟩ | paged)
      · exact Or.inl (Or.inl ⟨e', member, refers⟩)
      · rw [input] at refers
        exact Or.inr (Option.some.inj refers).symm
      · exact Or.inl (Or.inr paged)
  · simp [stored.1, isOpen.entries, split.entries, input]
  · simp [stored.2, isOpen.pages, split.pages]
  · intro b' other
    simp [split.entries, input, other.symm]
  · exact fun b' _ => split.pages b'

theorem split_page (split : SplitInto area entries pages arg) {p : PageEntry β}
    (fresh : ∀ p' ∈ pages, mipsGotPageEntryEq p p' = false) :
    SplitInto area entries (pages ++ [p]) (mipsElfMakeGotPagesPerBfd arg p) := by
  rcases split.opened p.abfd with ⟨opened, found, isOpen⟩
  have free : ∀ p' ∈ (opened.gots p.abfd).gotPageEntries, mipsGotPageEntryEq p p' = false := by
    intro p' member
    rw [isOpen.pages, split.pages, List.mem_filter] at member
    exact fresh p' member.1
  have stored := add_pages_entries (opened.gots p.abfd) p
  rw [enter_fresh free] at stored
  simp only [mipsElfMakeGotPagesPerBfd, found]
  apply isOpen.stored (add_pages_tidy (isOpen.tidy p.abfd) p)
  · intro b'
    rw [split.inputs]
    simp only [List.mem_append, List.mem_singleton]
    constructor
    · rintro ((entered | ⟨p', member, refers⟩) | rfl)
      · exact Or.inl entered
      · exact Or.inr ⟨p', Or.inl member, refers⟩
      · exact Or.inr ⟨p, Or.inr rfl, rfl⟩
    · rintro (entered | ⟨p', member | rfl, refers⟩)
      · exact Or.inl (Or.inl entered)
      · exact Or.inl (Or.inr ⟨p', member, refers⟩)
      · exact Or.inr refers.symm
  · simp [stored.2, isOpen.entries, split.entries]
  · simp [stored.1, isOpen.pages, split.pages]
  · exact fun b' _ => split.entries b'
  · intro b' other
    simp [split.pages, other.symm]

theorem split_entries (split : SplitInto area entries pages arg) (more : List (GotEntry β η))
    (known : ∀ e ∈ more, e.key.abfd ≠ none)
    (fresh : (entries ++ more).Pairwise fun x y =>
      x.key.abfd = y.key.abfd → mipsElfMultiGotEntryEq y x = false) :
    SplitInto area (entries ++ more) pages (more.foldl (mipsElfMakeGotPerBfd area) arg) := by
  induction more generalizing entries arg with
  | nil => simpa using split
  | cons e more ih =>
      rcases Option.ne_none_iff_exists'.mp (known e List.mem_cons_self) with ⟨b, input⟩
      have step := split_entry split input fun e' member refers =>
        (List.pairwise_append.mp fresh).2.2 e' member e List.mem_cons_self (refers.trans input.symm)
      have rest := ih step (fun e' member => known e' (List.mem_cons_of_mem e member))
        (by simpa using fresh)
      simpa using rest

theorem split_pages (split : SplitInto area entries pages arg) (more : List (PageEntry β))
    (fresh : (pages ++ more).Pairwise fun x y => mipsGotPageEntryEq y x = false) :
    SplitInto area entries (pages ++ more) (more.foldl mipsElfMakeGotPagesPerBfd arg) := by
  induction more generalizing pages arg with
  | nil => simpa using split
  | cons p more ih =>
      have step := split_page split fun p' member =>
        (List.pairwise_append.mp fresh).2.2 p' member p List.mem_cons_self
      have rest := ih step (by simpa using fresh)
      simpa using rest

namespace MasterGot

variable (master : MasterGot β η)

theorem apart : master.gotEntries.Pairwise fun x y =>
    x.key.abfd = y.key.abfd → mipsElfMultiGotEntryEq y x = false := by
  apply master.distinct.imp_of_mem
  intro x y first second different input
  by_contra shared
  have shared : mipsElfMultiGotEntryEq y x = true := by simpa using shared
  have same : mipsElfGotEntryEq y x = true := by
    cases isLdm : y.ldm with
    | false => exact got_entry_eq_of_multi input.symm isLdm shared
    | true =>
        have otherLdm : x.ldm = true := by
          rw [multi_got_entry_eq_iff] at shared
          by_contra plain
          have plain : x.ldm = false := by simpa using plain
          simp only [GotEntry.multiSlot, isLdm, plain] at shared
          revert shared
          cases x.key <;> exact fun same => by cases same
        rcases master.ldmAlone y second isLdm with ⟨_, b, isY⟩
        rcases master.ldmAlone x first otherLdm with ⟨_, b', isX⟩
        rw [isX, isY] at input
        rw [got_entry_eq_iff, isLdm, otherLdm, isX, isY]
        cases input
        exact ⟨rfl, rfl⟩
  rw [got_slots.symm same] at different
  cases different

/-- The input has entries in the master table. -/
def Refers (b : β) : Prop :=
  (∃ e ∈ master.gotEntries, e.key.abfd = some b) ∨ ∃ p ∈ master.gotPageEntries, p.abfd = b

theorem split_gots (area : η → GlobalGotArea) (walk : TableWalk β η) :
    SplitInto area (walk.entries.order master.gotEntries) (walk.pages.order master.gotPageEntries)
      (splitGots area walk master) := by
  have entryPerm := walk.entries.perm master.gotEntries
  have pagePerm := walk.pages.perm master.gotPageEntries
  have entries := split_entries (split_start area : SplitInto area [] [] (.start : GotPerBfdArg β η))
    (walk.entries.order master.gotEntries)
    (fun e member => master.known e (walk.entries.mem.mp member))
    (by
      apply (entryPerm.pairwise_iff _).mpr master.apart
      intro x y shared input
      exact multi_got_slots.apart (shared input.symm))
  have pages := split_pages entries (walk.pages.order master.gotPageEntries) (by
    apply (pagePerm.pairwise_iff _).mpr
    · exact master.pagesDistinct.imp fun apart => page_slots.apart apart
    · exact fun apart => page_slots.apart apart)
  simpa [splitGots] using pages

end MasterGot

end Openisa.Got
