import Openisa.Got.SplitGots

/-! What merging the tables of inputs keeps: every entry in its slot, and counted. -/

namespace Openisa.Got

open Openisa.Library.SlotTable

variable {β η : Type} [DecidableEq β] [DecidableEq η]

/-- The table that `mips_elf_merge_gots` merges the table `g` with. -/
def mergeTarget (limits : GotLimits) (arg : GotPerBfdArg β η) (g : β) : Option β :=
  let fits := fun t => decide
    (mergeEstimate limits (arg.primary == some t) (arg.gots g) (arg.gots t) ≤ limits.maxCount)
  let current := arg.current.head?.filter fits
  if startEstimate limits (arg.gots g) ≤ limits.maxCount then
    match arg.primary with
    | none => none
    | some primary => if fits primary then some primary else current
  else current

namespace GotPerBfdArg

/-- What the link knows after the table of `b` went into that of `target`. -/
def mergeInto (area : η → GlobalGotArea) (walk : TableWalk β η) (arg : GotPerBfdArg β η) (b target : β) :
    GotPerBfdArg β η :=
  (arg.mapTo b target).setGot target ((arg.gots target).absorb area
    (walk.entries.order (arg.gots b).gotEntries) (walk.pages.order (arg.gots b).gotPageEntries))

def need (limits : GotLimits) (arg : GotPerBfdArg β η) (g : β) : Nat :=
  min limits.maxPages.toNat (arg.gots g).pageGotno.toNat + (arg.gots g).localGotno.toNat +
    (arg.gots g).tlsGotno.toNat +
    (if arg.primary = some g then limits.globalCount.toNat else (arg.gots g).globalGotno.toNat)

theorem make_got_mapped (area : η → GlobalGotArea) {arg : GotPerBfdArg β η} {b g : β}
    (mapped : arg.bfd2got b = some g) {entry : GotEntry β η} (input : entry.key.abfd = some b) :
    mipsElfMakeGotPerBfd area arg entry = arg.setGot g ((arg.gots g).addEntry area entry) := by
  simp only [mipsElfMakeGotPerBfd, input, mipsElfGetGotForBfd, mapped]

theorem fold_make_got (area : η → GlobalGotArea) {b g : β} (entries : List (GotEntry β η))
    (inputs : ∀ e ∈ entries, e.key.abfd = some b) {arg : GotPerBfdArg β η}
    (mapped : arg.bfd2got b = some g) :
    entries.foldl (mipsElfMakeGotPerBfd area) arg =
      arg.setGot g (entries.foldl (GotInfo.addEntry area) (arg.gots g)) := by
  induction entries generalizing arg with
  | nil => exact (arg.setGot_self g).symm
  | cons entry entries ih =>
      have own := inputs entry List.mem_cons_self
      have rest : ∀ e ∈ entries, e.key.abfd = some b := fun e later => inputs e (List.mem_cons_of_mem _ later)
      calc
        (entry :: entries).foldl (mipsElfMakeGotPerBfd area) arg
            = entries.foldl (mipsElfMakeGotPerBfd area)
                (arg.setGot g ((arg.gots g).addEntry area entry)) := by
              rw [List.foldl_cons, make_got_mapped area mapped own]
        _ = arg.setGot g ((entry :: entries).foldl (GotInfo.addEntry area) (arg.gots g)) := by
              rw [ih rest (by simpa using mapped), setGot_setGot, setGot_same, List.foldl_cons]

omit [DecidableEq η] in
theorem make_pages_mapped {arg : GotPerBfdArg β η} {entry : PageEntry β} {g : β}
    (mapped : arg.bfd2got entry.abfd = some g) :
    mipsElfMakeGotPagesPerBfd arg entry = arg.setGot g ((arg.gots g).addPages entry) := by
  simp only [mipsElfMakeGotPagesPerBfd, mipsElfGetGotForBfd, mapped]

omit [DecidableEq η] in
theorem fold_make_pages {b g : β} (pages : List (PageEntry β)) (inputs : ∀ p ∈ pages, p.abfd = b)
    {arg : GotPerBfdArg β η} (mapped : arg.bfd2got b = some g) :
    pages.foldl mipsElfMakeGotPagesPerBfd arg =
      arg.setGot g (pages.foldl GotInfo.addPages (arg.gots g)) := by
  induction pages generalizing arg with
  | nil => exact (arg.setGot_self g).symm
  | cons entry pages ih =>
      have own : arg.bfd2got entry.abfd = some g := by
        rw [inputs entry List.mem_cons_self]
        exact mapped
      have rest : ∀ p ∈ pages, p.abfd = b := fun p later => inputs p (List.mem_cons_of_mem _ later)
      calc
        (entry :: pages).foldl mipsElfMakeGotPagesPerBfd arg
            = pages.foldl mipsElfMakeGotPagesPerBfd (arg.setGot g ((arg.gots g).addPages entry)) := by
              rw [List.foldl_cons, make_pages_mapped own]
        _ = arg.setGot g ((entry :: pages).foldl GotInfo.addPages (arg.gots g)) := by
              rw [ih rest (by simpa using mapped), setGot_setGot, setGot_same, List.foldl_cons]

end GotPerBfdArg

theorem merge_into_mapped (area : η → GlobalGotArea) (walk : TableWalk β η)
    (arg : GotPerBfdArg β η) (b target b' g : β) :
    (arg.mergeInto area walk b target).bfd2got b' = some g ↔
      (b' = b ∧ g = target) ∨ (b' ≠ b ∧ arg.bfd2got b' = some g) := by
  by_cases isB : b' = b
  · subst isB
    simp [GotPerBfdArg.mergeInto, GotPerBfdArg.mapTo, eq_comm]
  · simp [GotPerBfdArg.mergeInto, GotPerBfdArg.mapTo, isB]

theorem merge_into_target (area : η → GlobalGotArea) (walk : TableWalk β η) (arg : GotPerBfdArg β η)
    (b target : β) :
    (arg.mergeInto area walk b target).gots target = (arg.gots target).absorb area
      (walk.entries.order (arg.gots b).gotEntries) (walk.pages.order (arg.gots b).gotPageEntries) :=
  GotPerBfdArg.setGot_same ..

theorem merge_into_other (area : η → GlobalGotArea) (walk : TableWalk β η) (arg : GotPerBfdArg β η)
    {b target g : β} (different : g ≠ target) :
    (arg.mergeInto area walk b target).gots g = arg.gots g :=
  GotPerBfdArg.setGot_other _ different _

/-- Something holds before each visit of `mips_elf_merge_gots`. -/
def EachVisit (area : η → GlobalGotArea) (limits : GotLimits) (walk : β → TableWalk β η)
    (ok : GotPerBfdArg β η → β → Prop) : List β → GotPerBfdArg β η → Prop
  | [], _ => True
  | b :: rest, arg =>
      ok arg b ∧ EachVisit area limits walk ok rest (mipsElfMergeGots area limits walk arg b)

/-- What holds between two steps of the merge, with the inputs that are still to be visited. -/
structure Merging (area : η → GlobalGotArea) (limits : GotLimits) (master : MasterGot β η)
    (rest : List β) (arg : GotPerBfdArg β η) : Prop where
  mapped : ∀ b, master.Refers b → ∃ g, arg.bfd2got b = some g
  self : ∀ b g, arg.bfd2got b = some g → arg.bfd2got g = some g
  pending : ∀ b ∈ rest, arg.bfd2got b = some b ∧ ∀ b', arg.bfd2got b' = some b → b' = b
  targets : ∀ g, arg.primary = some g ∨ g ∈ arg.current → arg.bfd2got g = some g ∧ g ∉ rest
  tidy : ∀ g, arg.bfd2got g = some g → (arg.gots g).Tidy area
  homes : ∀ g, arg.bfd2got g = some g → ∀ e ∈ (arg.gots g).gotEntries,
    e ∈ master.gotEntries ∧ ∃ b, e.key.abfd = some b ∧ arg.bfd2got b = some g
  pageHomes : ∀ g, arg.bfd2got g = some g → ∀ p ∈ (arg.gots g).gotPageEntries,
    p ∈ master.gotPageEntries ∧ arg.bfd2got p.abfd = some g
  matched : ∀ e ∈ master.gotEntries, ∀ b g, e.key.abfd = some b → arg.bfd2got b = some g →
    ∃ e' ∈ (arg.gots g).gotEntries, mipsElfMultiGotEntryEq e e' = true
  paged : ∀ p ∈ master.gotPageEntries, ∀ g, arg.bfd2got p.abfd = some g →
    p ∈ (arg.gots g).gotPageEntries

section

variable {area : η → GlobalGotArea} {limits : GotLimits} {master : MasterGot β η} {b : β}
  {rest : List β} {arg : GotPerBfdArg β η}

theorem SplitInto.merging (limits : GotLimits) {walk : TableWalk β η}
    (split : SplitInto area (walk.entries.order master.gotEntries)
      (walk.pages.order master.gotPageEntries) arg) (order : Walk β) :
    Merging area limits master (order.order arg.inputs) arg := by
  have own : ∀ {b g}, arg.bfd2got b = some g → b ∈ arg.inputs ∧ g = b := by
    intro b g known
    rw [split.mapped] at known
    split at known
    · rename_i member
      exact ⟨member, (Option.some.inj known).symm⟩
    · cases known
  have entered : ∀ b, b ∈ arg.inputs ↔ master.Refers b := by
    intro b
    rw [split.inputs]
    simp only [Walk.mem, MasterGot.Refers]
  refine ⟨?_, ?_, ?_, ?_, ?_, ?_, ?_, ?_, ?_⟩
  · intro b refers
    exact ⟨b, by rw [split.mapped, if_pos ((entered b).mpr refers)]⟩
  · intro b g known
    rcases own known with ⟨_, rfl⟩
    exact known
  · intro b member
    rw [split.mapped, if_pos (order.mem.mp member)]
    exact ⟨rfl, fun b' known => (own known).2.symm⟩
  · intro g target
    rw [split.unmerged.1, split.unmerged.2] at target
    rcases target with primary | current
    · cases primary
    · cases current
  · exact fun g _ => split.tidy g
  · intro g live e member
    rw [split.entries, List.mem_filter, Walk.mem] at member
    exact ⟨member.1, g, by simpa using member.2, live⟩
  · intro g live p member
    rw [split.pages, List.mem_filter, Walk.mem] at member
    have isG : p.abfd = g := by simpa using member.2
    exact ⟨member.1, isG.symm ▸ live⟩
  · intro e member b g input known
    refine ⟨e, ?_, multi_got_slots.refl e⟩
    rw [(own known).2, split.entries, List.mem_filter, Walk.mem]
    exact ⟨member, by simp [input]⟩
  · intro p member g known
    rw [(own known).2, split.pages, List.mem_filter, Walk.mem]
    exact ⟨member, by simp⟩

namespace Merging

theorem own_entries (merging : Merging area limits master (b :: rest) arg) :
    ∀ e ∈ (arg.gots b).gotEntries, e.key.abfd = some b := by
  intro e member
  have pending := merging.pending b List.mem_cons_self
  rcases (merging.homes b pending.1 e member).2 with ⟨b', input, home⟩
  rw [input, pending.2 b' home]

theorem own_pages (merging : Merging area limits master (b :: rest) arg) :
    ∀ p ∈ (arg.gots b).gotPageEntries, p.abfd = b := by
  intro p member
  have pending := merging.pending b List.mem_cons_self
  exact pending.2 _ (merging.pageHomes b pending.1 p member).2

theorem merge_got_with (merging : Merging area limits master (b :: rest) arg) (walk : TableWalk β η)
    (target : β) :
    mipsElfMergeGotWith area limits walk b b target arg =
      if mergeEstimate limits (arg.primary == some target) (arg.gots b) (arg.gots target) >
        limits.maxCount then none else some (arg.mergeInto area walk b target) := by
  have mapped : (arg.mapTo b target).bfd2got b = some target := Function.update_self ..
  have entries : ∀ e ∈ walk.entries.order (arg.gots b).gotEntries, e.key.abfd = some b :=
    fun e member => merging.own_entries e (walk.entries.mem.mp member)
  have pages : ∀ p ∈ walk.pages.order (arg.gots b).gotPageEntries, p.abfd = b :=
    fun p member => merging.own_pages p (walk.pages.mem.mp member)
  rw [mipsElfMergeGotWith]
  congr 1
  dsimp only
  rw [GotPerBfdArg.fold_make_got area _ entries mapped,
    GotPerBfdArg.fold_make_pages _ pages (by simpa using mapped), GotPerBfdArg.setGot_setGot,
    GotPerBfdArg.setGot_same]
  rfl

theorem merge_gots_cases (merging : Merging area limits master (b :: rest) arg)
    (walk : β → TableWalk β η) :
    (∃ target, mergeTarget limits arg b = some target ∧
        (arg.primary = some target ∨ target ∈ arg.current) ∧
        mergeEstimate limits (arg.primary == some target) (arg.gots b) (arg.gots target) ≤ limits.maxCount ∧
        mipsElfMergeGots area limits walk arg b = arg.mergeInto area (walk b) b target) ∨
      (mergeTarget limits arg b = none ∧
        ((arg.primary = none ∧ mipsElfMergeGots area limits walk arg b = { arg with primary := some b }) ∨
          mipsElfMergeGots area limits walk arg b = { arg with current := b :: arg.current })) := by
  have current : (∃ target, (arg.current.head?.filter fun t => decide (mergeEstimate limits
          (arg.primary == some t) (arg.gots b) (arg.gots t) ≤ limits.maxCount)) = some target ∧
        target ∈ arg.current ∧
        mergeEstimate limits (arg.primary == some target) (arg.gots b) (arg.gots target) ≤ limits.maxCount ∧
        mergeWithCurrent area limits (walk b) b b arg = arg.mergeInto area (walk b) b target) ∨
      ((arg.current.head?.filter fun t => decide (mergeEstimate limits
          (arg.primary == some t) (arg.gots b) (arg.gots t) ≤ limits.maxCount)) = none ∧
        mergeWithCurrent area limits (walk b) b b arg = { arg with current := b :: arg.current }) := by
    cases isC : arg.current with
    | nil => exact Or.inr ⟨rfl, by simp [mergeWithCurrent, isC]⟩
    | cons target next =>
        by_cases room : mergeEstimate limits (arg.primary == some target) (arg.gots b)
            (arg.gots target) ≤ limits.maxCount
        · refine Or.inl ⟨target, by simp [Option.filter, room], List.mem_cons_self, room, ?_⟩
          simp only [mergeWithCurrent, isC, merging.merge_got_with, if_neg (BitVec.not_lt.mpr room)]
        · refine Or.inr ⟨by simp [Option.filter, room], ?_⟩
          simp only [mergeWithCurrent, isC, merging.merge_got_with, if_pos (BitVec.not_le.mp room)]
  rw [mipsElfMergeGots, (merging.pending b List.mem_cons_self).1, mergeTarget]
  by_cases starts : startEstimate limits (arg.gots b) ≤ limits.maxCount
  · simp only [starts, if_true]
    cases isP : arg.primary with
    | none => exact Or.inr ⟨rfl, Or.inl ⟨rfl, rfl⟩⟩
    | some target =>
        by_cases room : mergeEstimate limits (some target == some target) (arg.gots b)
            (arg.gots target) ≤ limits.maxCount
        · refine Or.inl ⟨target, by simp only [room, decide_true, if_true], Or.inl rfl, room, ?_⟩
          simp only [merging.merge_got_with, isP, if_neg (BitVec.not_lt.mpr room)]
        · simp only [merging.merge_got_with, isP, if_pos (BitVec.not_le.mp room), room, decide_false,
            Bool.false_eq_true, if_false]
          rw [isP] at current
          rcases current with ⟨target, found, member, fits, result⟩ | ⟨missing, result⟩
          · exact Or.inl ⟨target, found, Or.inr member, fits, result⟩
          · exact Or.inr ⟨missing, Or.inr result⟩
  · simp only [starts, if_false]
    rcases current with ⟨target, found, member, fits, result⟩ | ⟨missing, result⟩
    · exact Or.inl ⟨target, found, Or.inr member, fits, result⟩
    · exact Or.inr ⟨missing, Or.inr result⟩

theorem targeted (merging : Merging area limits master (b :: rest) arg) (nodup : (b :: rest).Nodup)
    {primary : Option β} {current : List β}
    (targets : ∀ g, primary = some g ∨ g ∈ current → (arg.primary = some g ∨ g ∈ arg.current) ∨ g = b) :
    Merging area limits master rest { arg with primary := primary, current := current } where
  mapped := merging.mapped
  self := merging.self
  pending b' member := merging.pending b' (List.mem_cons_of_mem _ member)
  targets g target := by
    rcases targets g target with old | rfl
    · have known := merging.targets g old
      exact ⟨known.1, fun member => known.2 (List.mem_cons_of_mem _ member)⟩
    · exact ⟨(merging.pending g List.mem_cons_self).1, (List.nodup_cons.mp nodup).1⟩
  tidy := merging.tidy
  homes := merging.homes
  pageHomes := merging.pageHomes
  matched := merging.matched
  paged := merging.paged

section Merged

variable (merging : Merging area limits master (b :: rest) arg) (walk : TableWalk β η) {target : β}
  (isTarget : arg.primary = some target ∨ target ∈ arg.current)

include merging isTarget

theorem target_ne : target ≠ b := fun same =>
  (merging.targets target isTarget).2 (same ▸ List.mem_cons_self)

theorem live_before {g : β} (known : (arg.mergeInto area walk b target).bfd2got g = some g) :
    g ≠ b ∧ arg.bfd2got g = some g := by
  rcases (merge_into_mapped area walk arg b target g g).mp known with ⟨isB, isT⟩ | before
  · exact absurd (isT.symm.trans isB) (merging.target_ne isTarget)
  · exact before

theorem merged_self (b' g : β) (known : (arg.mergeInto area walk b target).bfd2got b' = some g) :
    (arg.mergeInto area walk b target).bfd2got g = some g := by
  have moved := merge_into_mapped area walk arg b target
  rcases (moved b' g).mp known with ⟨_, rfl⟩ | ⟨different, before⟩
  · exact (moved g g).mpr (Or.inr ⟨merging.target_ne isTarget, (merging.targets g isTarget).1⟩)
  · apply (moved g g).mpr
    refine Or.inr ⟨?_, merging.self b' g before⟩
    rintro rfl
    exact different ((merging.pending g List.mem_cons_self).2 b' before)

theorem merged_pending (nodup : (b :: rest).Nodup) (b' : β) (member : b' ∈ rest) :
    (arg.mergeInto area walk b target).bfd2got b' = some b' ∧
      ∀ b'', (arg.mergeInto area walk b target).bfd2got b'' = some b' → b'' = b' := by
  have moved := merge_into_mapped area walk arg b target
  have later := merging.pending b' (List.mem_cons_of_mem _ member)
  have different : b' ≠ b := fun same => (List.nodup_cons.mp nodup).1 (same ▸ member)
  refine ⟨(moved b' b').mpr (Or.inr ⟨different, later.1⟩), ?_⟩
  intro b'' known
  rcases (moved b'' b').mp known with ⟨_, isT⟩ | ⟨_, before⟩
  · exact absurd (isT ▸ List.mem_cons_of_mem _ member) (merging.targets target isTarget).2
  · exact later.2 b'' before

theorem merged_tidy (g : β) (known : (arg.mergeInto area walk b target).bfd2got g = some g) :
    ((arg.mergeInto area walk b target).gots g).Tidy area := by
  by_cases isT : g = target
  · rw [isT, merge_into_target]
    exact absorb_tidy (merging.tidy target (merging.targets target isTarget).1) _ _
  · rw [merge_into_other area walk arg isT]
    exact merging.tidy g (merging.live_before walk isTarget known).2

theorem merged_homes (g : β) (known : (arg.mergeInto area walk b target).bfd2got g = some g) :
    ∀ e ∈ ((arg.mergeInto area walk b target).gots g).gotEntries, e ∈ master.gotEntries ∧
      ∃ b', e.key.abfd = some b' ∧ (arg.mergeInto area walk b target).bfd2got b' = some g := by
  intro e member
  have moved := merge_into_mapped area walk arg b target
  have own := (merging.pending b List.mem_cons_self).1
  have before := merging.live_before walk isTarget known
  have stays : e ∈ (arg.gots g).gotEntries → e ∈ master.gotEntries ∧ ∃ b', e.key.abfd = some b' ∧
      (arg.mergeInto area walk b target).bfd2got b' = some g := by
    intro old
    rcases merging.homes g before.2 e old with ⟨inMaster, b', input, home⟩
    refine ⟨inMaster, b', input, (moved b' g).mpr (Or.inr ⟨?_, home⟩)⟩
    rintro rfl
    exact before.1 (Option.some.inj (home.symm.trans own))
  by_cases isT : g = target
  · subst isT
    rw [merge_into_target, absorb_entries] at member
    rcases of_mem_enterAll member with old | new
    · exact stays old
    · have source := walk.entries.mem.mp new
      exact ⟨(merging.homes b own e source).1, b, merging.own_entries e source,
        (moved b g).mpr (Or.inl ⟨rfl, rfl⟩)⟩
  · rw [merge_into_other area walk arg isT] at member
    exact stays member

theorem merged_page_homes (g : β) (known : (arg.mergeInto area walk b target).bfd2got g = some g) :
    ∀ p ∈ ((arg.mergeInto area walk b target).gots g).gotPageEntries, p ∈ master.gotPageEntries ∧
      (arg.mergeInto area walk b target).bfd2got p.abfd = some g := by
  intro p member
  have moved := merge_into_mapped area walk arg b target
  have own := (merging.pending b List.mem_cons_self).1
  have before := merging.live_before walk isTarget known
  have stays : p ∈ (arg.gots g).gotPageEntries → p ∈ master.gotPageEntries ∧
      (arg.mergeInto area walk b target).bfd2got p.abfd = some g := by
    intro old
    have home := merging.pageHomes g before.2 p old
    refine ⟨home.1, (moved p.abfd g).mpr (Or.inr ⟨?_, home.2⟩)⟩
    intro isB
    rw [isB] at home
    exact before.1 (Option.some.inj (home.2.symm.trans own))
  by_cases isT : g = target
  · subst isT
    rw [merge_into_target, absorb_pages] at member
    rcases of_mem_enterAll member with old | new
    · exact stays old
    · have source := walk.pages.mem.mp new
      exact ⟨(merging.pageHomes b own p source).1,
        (moved p.abfd g).mpr (Or.inl ⟨merging.own_pages p source, rfl⟩)⟩
  · rw [merge_into_other area walk arg isT] at member
    exact stays member

omit isTarget in
theorem merged_matched (e : GotEntry β η) (inMaster : e ∈ master.gotEntries) (b' g : β)
    (input : e.key.abfd = some b') (known : (arg.mergeInto area walk b target).bfd2got b' = some g) :
    ∃ e' ∈ ((arg.mergeInto area walk b target).gots g).gotEntries, mipsElfMultiGotEntryEq e e' = true := by
  have own := (merging.pending b List.mem_cons_self).1
  rcases (merge_into_mapped area walk arg b target b' g).mp known with ⟨rfl, rfl⟩ | ⟨_, before⟩
  · rcases merging.matched e inMaster b' b' input own with ⟨e', member, shared⟩
    rw [merge_into_target, absorb_entries]
    rcases enterAll_shares multi_got_slots (arg.gots g).gotEntries
      (walk.entries.mem.mpr member) with ⟨e'', stored, again⟩
    exact ⟨e'', stored, multi_got_slots.trans shared again⟩
  · rcases merging.matched e inMaster b' g input before with ⟨e', member, shared⟩
    by_cases isT : g = target
    · subst isT
      rw [merge_into_target, absorb_entries]
      exact ⟨e', subset_enterAll _ _ member, shared⟩
    · rw [merge_into_other area walk arg isT]
      exact ⟨e', member, shared⟩

theorem merged_paged (p : PageEntry β) (inMaster : p ∈ master.gotPageEntries) (g : β)
    (known : (arg.mergeInto area walk b target).bfd2got p.abfd = some g) :
    p ∈ ((arg.mergeInto area walk b target).gots g).gotPageEntries := by
  have own := (merging.pending b List.mem_cons_self).1
  rcases (merge_into_mapped area walk arg b target p.abfd g).mp known with ⟨isB, rfl⟩ | ⟨_, before⟩
  · have member := merging.paged p inMaster b (isB ▸ own)
    rw [merge_into_target, absorb_pages]
    rcases enterAll_shares page_slots (arg.gots g).gotPageEntries
      (walk.pages.mem.mpr member) with ⟨p', stored, shared⟩
    have inMaster' : p' ∈ master.gotPageEntries := by
      rcases of_mem_enterAll stored with old | new
      · exact (merging.pageHomes g (merging.targets g isTarget).1 p' old).1
      · exact (merging.pageHomes b own p' (walk.pages.mem.mp new)).1
    rwa [master.pagesDistinct.shared_eq page_slots inMaster inMaster' shared]
  · have member := merging.paged p inMaster g before
    by_cases isT : g = target
    · subst isT
      rw [merge_into_target, absorb_pages]
      exact subset_enterAll _ _ member
    · rwa [merge_into_other area walk arg isT]

theorem merged (nodup : (b :: rest).Nodup) :
    Merging area limits master rest (arg.mergeInto area walk b target) where
  mapped b' refers := by
    by_cases isB : b' = b
    · exact ⟨target, (merge_into_mapped area walk arg b target b' target).mpr (Or.inl ⟨isB, rfl⟩)⟩
    · rcases merging.mapped b' refers with ⟨g, known⟩
      exact ⟨g, (merge_into_mapped area walk arg b target b' g).mpr (Or.inr ⟨isB, known⟩)⟩
  self := merging.merged_self walk isTarget
  pending := merging.merged_pending walk isTarget nodup
  targets g isTarget' := by
    have known := merging.targets g isTarget'
    have different : g ≠ b := fun same => known.2 (same ▸ List.mem_cons_self)
    exact ⟨(merge_into_mapped area walk arg b target g g).mpr (Or.inr ⟨different, known.1⟩),
      fun member => known.2 (List.mem_cons_of_mem _ member)⟩
  tidy := merging.merged_tidy walk isTarget
  homes := merging.merged_homes walk isTarget
  pageHomes := merging.merged_page_homes walk isTarget
  matched := merging.merged_matched walk
  paged := merging.merged_paged walk isTarget

end Merged

theorem step (merging : Merging area limits master (b :: rest) arg) (nodup : (b :: rest).Nodup)
    (walk : β → TableWalk β η) :
    Merging area limits master rest (mipsElfMergeGots area limits walk arg b) := by
  rcases merging.merge_gots_cases walk with
    ⟨target, _, isTarget, _, result⟩ | ⟨_, ⟨_, result⟩ | result⟩
  · rw [result]
    exact merging.merged (walk b) isTarget nodup
  · rw [result]
    apply merging.targeted nodup
    rintro g (primary | current)
    · exact Or.inr (Option.some.inj primary).symm
    · exact Or.inl (Or.inr current)
  · rw [result]
    apply merging.targeted nodup
    rintro g (primary | current)
    · exact Or.inl (Or.inl primary)
    · rcases List.mem_cons.mp current with rfl | old
      · exact Or.inr rfl
      · exact Or.inl (Or.inr old)

theorem run (merging : Merging area limits master rest arg) (nodup : rest.Nodup)
    (walk : β → TableWalk β η) :
    Merging area limits master [] (rest.foldl (mipsElfMergeGots area limits walk) arg) := by
  induction rest generalizing arg with
  | nil => exact merging
  | cons b rest ih => exact ih (merging.step nodup walk) (List.nodup_cons.mp nodup).2

end Merging

end

end Openisa.Got
