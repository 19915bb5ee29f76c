import Openisa.Got.AccessTypes

/-! When the counts of merged tables are the slots that these need, and stay within the limit. -/

namespace Openisa.Got

open Openisa.Library.SlotTable

variable {β η : Type} [DecidableEq β] [DecidableEq η]

instance (area : η → GlobalGotArea) (g : GotInfo β η) : Decidable (g.CountsFit area) :=
  decidable_of_iff
    (total (localSlots area) g.gotEntries < 2 ^ 32 ∧ total (globalSlots area) g.gotEntries < 2 ^ 32 ∧
      total tlsSlots g.gotEntries < 2 ^ 32 ∧ total pageSlots g.gotPageEntries < 2 ^ 32)
    ⟨fun fit => ⟨fit.1, fit.2.1, fit.2.2.1, fit.2.2.2⟩,
      fun fit => ⟨fit.locals, fit.globals, fit.tls, fit.pages⟩⟩

/-- The entries of two tables, without those whose slot the target has. -/
def joinedEntries (source target : GotInfo β η) : List (GotEntry β η) :=
  target.gotEntries ++ source.gotEntries.filter fun e => !target.gotEntries.any (mipsElfMultiGotEntryEq e)

/-- Two tables whose page count and estimate do not wrap, nor the count of global entries that the
estimate for the primary table leaves out. -/
structure MergeFits (area : η → GlobalGotArea) (limits : GotLimits) (isPrimary : Bool)
    (source target : GotInfo β η) : Prop where
  pages : total pageSlots source.gotPageEntries + total pageSlots target.gotPageEntries < 2 ^ 32
  estimate : mergeSum area limits isPrimary source target < 2 ^ 32
  globals : isPrimary = true → total (globalSlots area) (joinedEntries source target) < 2 ^ 32

instance (area : η → GlobalGotArea) (limits : GotLimits) (isPrimary : Bool) (source target : GotInfo β η) :
    Decidable (MergeFits area limits isPrimary source target) :=
  decidable_of_iff
    (total pageSlots source.gotPageEntries + total pageSlots target.gotPageEntries < 2 ^ 32 ∧
      mergeSum area limits isPrimary source target < 2 ^ 32 ∧
      (isPrimary = true → total (globalSlots area) (joinedEntries source target) < 2 ^ 32))
    ⟨fun fit => ⟨fit.1, fit.2.1, fit.2.2⟩, fun fit => ⟨fit.pages, fit.estimate, fit.globals⟩⟩

/-- The visit merges two tables that fit, or leaves an input a table of its own that does. -/
def CountsFitAt (area : η → GlobalGotArea) (limits : GotLimits) (arg : GotPerBfdArg β η) (b : β) : Prop :=
  match mergeTarget limits arg b with
  | some target =>
      MergeFits area limits (arg.primary == some target) (arg.gots b) (arg.gots target)
  | none => (arg.gots b).CountsFit area

instance (area : η → GlobalGotArea) (limits : GotLimits) (arg : GotPerBfdArg β η) (b : β) :
    Decidable (CountsFitAt area limits arg b) := by
  unfold CountsFitAt
  cases mergeTarget limits arg b <;> infer_instance

/-- The tables of visited inputs count what their entries need, and a shared one is within the limit. -/
structure CountsExact (area : η → GlobalGotArea) (limits : GotLimits) (rest : List β)
    (arg : GotPerBfdArg β η) : Prop where
  fit : ∀ g, arg.bfd2got g = some g → g ∉ rest → (arg.gots g).CountsFit area
  within : ∀ b b' g, b ≠ b' → arg.bfd2got b = some g → arg.bfd2got b' = some g →
    arg.need limits g ≤ limits.maxCount.toNat

/-- The slots that a table needs in the output, without wrapping. -/
def exactNeed (area : η → GlobalGotArea) (limits : GotLimits) (arg : GotPerBfdArg β η) (g : β) : Nat :=
  min limits.maxPages.toNat (total pageSlots (arg.gots g).gotPageEntries) +
    total (localSlots area) (arg.gots g).gotEntries + total tlsSlots (arg.gots g).gotEntries +
    (if arg.primary = some g then limits.globalCount.toNat
      else total (globalSlots area) (arg.gots g).gotEntries)

/-- The table of a visited input has a count that wraps, or a shared one is above the limit. -/
def Overfull (area : η → GlobalGotArea) (limits : GotLimits) (rest : List β) (arg : GotPerBfdArg β η) :
    Prop :=
  ∃ g, arg.bfd2got g = some g ∧ g ∉ rest ∧
    (¬ (arg.gots g).CountsFit area ∨
      limits.maxCount.toNat < exactNeed area limits arg g ∧
        ∃ b b', b ≠ b' ∧ arg.bfd2got b = some g ∧ arg.bfd2got b' = some g)

section

variable {area : η → GlobalGotArea} {limits : GotLimits} {master : MasterGot β η} {b : β}
  {rest : List β} {arg : GotPerBfdArg β η}

theorem need_eq (tidy : ∀ g, arg.bfd2got g = some g → (arg.gots g).Tidy area) {g : β}
    (live : arg.bfd2got g = some g) (fit : (arg.gots g).CountsFit area) :
    arg.need limits g = exactNeed area limits arg g := by
  have exact := counts_eq (tidy g live).counted fit
  rw [GotPerBfdArg.need, exactNeed, exact.1, exact.2.1, exact.2.2.1, exact.2.2.2]

theorem and_pair (t : TlsType) :
    t &&& (gotTlsGd ||| gotTlsLdm) ≠ 0 ↔ t &&& gotTlsGd ≠ 0 ∨ t &&& gotTlsLdm ≠ 0 := by
  revert t
  decide

theorem and_access (t : TlsType) :
    t &&& (gotTlsGd ||| gotTlsLdm ||| gotTlsIe) ≠ 0 ↔
      t &&& (gotTlsGd ||| gotTlsLdm) ≠ 0 ∨ t &&& gotTlsIe ≠ 0 := by
  revert t
  decide

omit [DecidableEq β] [DecidableEq η] in
theorem tls_slots_mono {e e' : GotEntry β η} (within : TlsType.Within e.tlsType e'.tlsType) :
    tlsSlots e ≤ tlsSlots e' := by
  have gd := within gotTlsGd (by simp)
  have ldm := within gotTlsLdm (by simp)
  have ie := within gotTlsIe (by simp)
  have pair : e.tlsType &&& (gotTlsGd ||| gotTlsLdm) ≠ 0 → e'.tlsType &&& (gotTlsGd ||| gotTlsLdm) ≠ 0 := by
    rw [and_pair, and_pair]
    exact Or.imp gd ldm
  rw [tlsSlots, tlsSlots]
  apply Nat.add_le_add
  · by_cases asked : e.tlsType &&& (gotTlsGd ||| gotTlsLdm) ≠ 0
    · rw [if_pos asked, if_pos (pair asked)]
    · rw [if_neg asked]
      exact Nat.zero_le _
  · by_cases asked : e.tlsType &&& gotTlsIe ≠ 0
    · rw [if_pos asked, if_pos (ie asked)]
    · rw [if_neg asked]
      exact Nat.zero_le _

omit [DecidableEq β] [DecidableEq η] in
theorem access_slots {e : GotEntry β η}
    (typed : e.tlsType &&& (gotTlsGd ||| gotTlsLdm ||| gotTlsIe) ≠ 0) : 1 ≤ tlsSlots e := by
  rw [tlsSlots]
  rcases (and_access e.tlsType).mp typed with pair | single
  · rw [if_pos pair]
    omega
  · rw [if_pos single]
    omega

theorem local_shared (area : η → GlobalGotArea) {e e' : GotEntry β η}
    (shared : mipsElfMultiGotEntryEq e e' = true) (plain : e.tlsType = 0) (plain' : e'.tlsType = 0) :
    e.localP area = e'.localP area := by
  rw [multi_got_entry_eq_iff, GotEntry.multiSlot, GotEntry.multiSlot, GotEntry.ldm, GotEntry.ldm, plain,
    plain'] at shared
  rw [GotEntry.localP, GotEntry.localP]
  revert shared
  cases e.key <;> cases e'.key <;> simp +contextual [TlsType.ldmP]

theorem slots_matched (area : η → GlobalGotArea) {e e' : GotEntry β η}
    (shared : mipsElfMultiGotEntryEq e e' = true) (within : TlsType.Within e.tlsType e'.tlsType)
    (typed : e'.tlsType ≠ 0 → e'.tlsType &&& (gotTlsGd ||| gotTlsLdm ||| gotTlsIe) ≠ 0) :
    localSlots area e + tlsSlots e ≤ localSlots area e' + tlsSlots e' ∧
      e.slots area ≤ e'.slots area := by
  have tls := tls_slots_mono within
  have one : localSlots area e + globalSlots area e ≤ 1 := by
    rw [localSlots, globalSlots]
    cases e.localP area <;> by_cases plain : e.tlsType = 0#8 <;> simp [plain]
  by_cases plain : e.tlsType = 0#8
  · by_cases plain' : e'.tlsType = 0#8
    · have same : localSlots area e = localSlots area e' ∧ globalSlots area e = globalSlots area e' := by
        simp only [localSlots, globalSlots, plain, plain', local_shared area shared plain plain', and_self]
      rw [GotEntry.slots, GotEntry.slots]
      omega
    · have access := access_slots (typed plain')
      have none : tlsSlots e = 0 := by
        rw [tlsSlots, plain]
        decide
      rw [GotEntry.slots, GotEntry.slots]
      omega
  · have none : localSlots area e = 0 ∧ globalSlots area e = 0 := by
      simp [localSlots, globalSlots, plain]
    rw [GotEntry.slots, GotEntry.slots]
    omega

theorem merge_into_le (area : η → GlobalGotArea) (walk : TableWalk β η) (arg : GotPerBfdArg β η)
    (b target : β) (amount : GotEntry β η → Nat) :
    total amount ((arg.mergeInto area walk b target).gots target).gotEntries ≤
      total amount (arg.gots b).gotEntries + total amount (arg.gots target).gotEntries := by
  have sum := total_enterAll_le mipsElfMultiGotEntryEq amount (arg.gots target).gotEntries
    (walk.entries.order (arg.gots b).gotEntries)
  rw [walk.entries.total_eq] at sum
  rw [merge_into_target, absorb_entries]
  omega

theorem merge_into_pages_le (area : η → GlobalGotArea) (walk : TableWalk β η) (arg : GotPerBfdArg β η)
    (b target : β) :
    total pageSlots ((arg.mergeInto area walk b target).gots target).gotPageEntries ≤
      total pageSlots (arg.gots b).gotPageEntries + total pageSlots (arg.gots target).gotPageEntries := by
  have sum := total_enterAll_le mipsGotPageEntryEq pageSlots (arg.gots target).gotPageEntries
    (walk.pages.order (arg.gots b).gotPageEntries)
  rw [walk.pages.total_eq] at sum
  rw [merge_into_target, absorb_pages]
  omega

theorem le_merge_into (area : η → GlobalGotArea) (walk : TableWalk β η) (arg : GotPerBfdArg β η)
    (b target : β) (amount : GotEntry β η → Nat) :
    total amount (arg.gots target).gotEntries ≤
      total amount ((arg.mergeInto area walk b target).gots target).gotEntries := by
  rw [merge_into_target, absorb_entries]
  have grown : (arg.gots target).gotEntries <+: enterAll mipsElfMultiGotEntryEq (arg.gots target).gotEntries
    (walk.entries.order (arg.gots b).gotEntries) := prefix_enterAll _ _
  rcases grown with ⟨more, joined⟩
  rw [← joined, total_append]
  exact Nat.le_add_right _ _

theorem pages_le_merge_into (area : η → GlobalGotArea) (walk : TableWalk β η) (arg : GotPerBfdArg β η)
    (b target : β) :
    total pageSlots (arg.gots target).gotPageEntries ≤
      total pageSlots ((arg.mergeInto area walk b target).gots target).gotPageEntries := by
  rw [merge_into_target, absorb_pages]
  have grown : (arg.gots target).gotPageEntries <+: enterAll mipsGotPageEntryEq
    (arg.gots target).gotPageEntries (walk.pages.order (arg.gots b).gotPageEntries) := prefix_enterAll _ _
  rcases grown with ⟨more, joined⟩
  rw [← joined, total_append]
  exact Nat.le_add_right _ _

theorem exact_need_merge_into (walk : TableWalk β η) (target : β) :
    exactNeed area limits arg target ≤ exactNeed area limits (arg.mergeInto area walk b target) target := by
  have pages := pages_le_merge_into area walk arg b target
  have locals := le_merge_into area walk arg b target (localSlots area)
  have tls := le_merge_into area walk arg b target tlsSlots
  have globals := le_merge_into area walk arg b target (globalSlots area)
  have primary : (arg.mergeInto area walk b target).primary = arg.primary := rfl
  rw [exactNeed, exactNeed, primary]
  by_cases isPrimary : arg.primary = some target
  · rw [if_pos isPrimary, if_pos isPrimary]
    omega
  · rw [if_neg isPrimary, if_neg isPrimary]
    omega

namespace Merging

theorem joined_total (merging : Merging area limits master (b :: rest) arg) (walk : TableWalk β η)
    (target : β) (amount : GotEntry β η → Nat) :
    total amount ((arg.mergeInto area walk b target).gots target).gotEntries =
      total amount (joinedEntries (arg.gots b) (arg.gots target)) := by
  have perm := walk.entries.perm (arg.gots b).gotEntries
  have distinct : Distinct mipsElfMultiGotEntryEq (walk.entries.order (arg.gots b).gotEntries) :=
    (perm.pairwise_iff multi_got_slots.apart).mpr
      (merging.tidy b (merging.pending b List.mem_cons_self).1).distinct
  rw [merge_into_target, absorb_entries, enterAll_eq_append multi_got_slots _ distinct, joinedEntries,
    total_append, total_append]
  exact congrArg _ (((perm.filter _).map amount).sum_eq)

theorem pages_sum_le (merging : Merging area limits master (b :: rest) arg) (walk : TableWalk β η)
    {target : β} (isTarget : arg.primary = some target ∨ target ∈ arg.current) :
    total pageSlots (arg.gots b).gotPageEntries + total pageSlots (arg.gots target).gotPageEntries ≤
      total pageSlots ((arg.mergeInto area walk b target).gots target).gotPageEntries := by
  have own := (merging.pending b List.mem_cons_self).1
  have live := (merging.targets target isTarget).1
  rw [← total_append]
  apply total_le_of_subset
  · apply ((merging.tidy b own).pagesDistinct.nodup page_slots).append
      ((merging.tidy target live).pagesDistinct.nodup page_slots)
    intro p first second
    have home := (merging.pageHomes b own p first).2
    exact merging.target_ne isTarget (Option.some.inj ((merging.pageHomes target live p second).2.symm.trans home))
  · intro p member
    rcases List.mem_append.mp member with first | second
    · apply merging.merged_paged walk isTarget p (merging.pageHomes b own p first).1
      exact (merge_into_mapped area walk arg b target p.abfd target).mpr
        (Or.inl ⟨merging.own_pages p first, rfl⟩)
    · rw [merge_into_target, absorb_pages]
      exact subset_enterAll _ _ second

theorem source_slots_le (merging : Merging area limits master (b :: rest) arg) (walk : TableWalk β η)
    {target : β} (isTarget : arg.primary = some target ∨ target ∈ arg.current)
    (kept : AccessKept (arg.gots b) (arg.gots target)) :
    total (fun e => localSlots area e + tlsSlots e) (arg.gots b).gotEntries ≤
        total (fun e => localSlots area e + tlsSlots e)
          ((arg.mergeInto area walk b target).gots target).gotEntries ∧
      total (GotEntry.slots area) (arg.gots b).gotEntries ≤
        total (GotEntry.slots area) ((arg.mergeInto area walk b target).gots target).gotEntries := by
  have own := (merging.pending b List.mem_cons_self).1
  have distinct := (merging.tidy b own).distinct
  have known : (arg.mergeInto area walk b target).bfd2got target = some target :=
    merging.merged_self walk isTarget b target
      ((merge_into_mapped area walk arg b target b target).mpr (Or.inl ⟨rfl, rfl⟩))
  have each : ∀ e ∈ (arg.gots b).gotEntries,
      ∃ e' ∈ ((arg.mergeInto area walk b target).gots target).gotEntries,
        mipsElfMultiGotEntryEq e e' = true ∧
          localSlots area e + tlsSlots e ≤ localSlots area e' + tlsSlots e' ∧
          e.slots area ≤ e'.slots area := by
    intro e member
    rcases merging.absorbed_within walk kept member with ⟨e', stored, shared, within⟩
    have inMaster := (merging.merged_homes walk isTarget target known e' stored).1
    exact ⟨e', stored, shared, slots_matched area shared within (master.types e' inMaster)⟩
  constructor
  · apply total_le_of_matched multi_got_slots _ distinct
    intro e member
    rcases each e member with ⟨e', stored, shared, least, _⟩
    exact ⟨e', stored, shared, least⟩
  · apply total_le_of_matched multi_got_slots _ distinct
    intro e member
    rcases each e member with ⟨e', stored, shared, _, least⟩
    exact ⟨e', stored, shared, least⟩

section Exact

theorem merged_counts_fit (merging : Merging area limits master (b :: rest) arg) (walk : TableWalk β η)
    {target : β} (fits : MergeFits area limits (arg.primary == some target) (arg.gots b) (arg.gots target)) :
    ((arg.mergeInto area walk b target).gots target).CountsFit area := by
  have sum := fits.estimate
  rw [mergeSum] at sum
  have locals := merge_into_le area walk arg b target (localSlots area)
  have tls := merge_into_le area walk arg b target tlsSlots
  refine ⟨by omega, ?_, by omega, lt_of_le_of_lt (merge_into_pages_le area walk arg b target) fits.pages⟩
  by_cases isPrimary : (arg.primary == some target) = true
  · rw [merging.joined_total]
    exact fits.globals isPrimary
  · have globals := merge_into_le area walk arg b target (globalSlots area)
    rw [if_neg isPrimary] at sum
    omega

theorem need_le_estimate (merging : Merging area limits master (b :: rest) arg) (walk : TableWalk β η)
    {target : β} (isTarget : arg.primary = some target ∨ target ∈ arg.current)
    (fits : MergeFits area limits (arg.primary == some target) (arg.gots b) (arg.gots target)) :
    (arg.mergeInto area walk b target).need limits target ≤
      (mergeEstimate limits (arg.primary == some target) (arg.gots b) (arg.gots target)).toNat := by
  have live := (merging.targets target isTarget).1
  have known := (merge_into_mapped area walk arg b target target target).mpr
    (Or.inr ⟨merging.target_ne isTarget, live⟩)
  have primary : (arg.mergeInto area walk b target).primary = arg.primary := rfl
  rw [need_eq (merging.merged_tidy walk isTarget) known (merging.merged_counts_fit walk fits),
    merge_estimate_toNat (merging.tidy b (merging.pending b List.mem_cons_self).1).counted
      (merging.tidy target live).counted _ fits.pages fits.estimate, exactNeed, mergeSum, primary]
  have pages := merge_into_pages_le area walk arg b target
  have locals := merge_into_le area walk arg b target (localSlots area)
  have tls := merge_into_le area walk arg b target tlsSlots
  have globals := merge_into_le area walk arg b target (globalSlots area)
  by_cases isPrimary : arg.primary = some target
  · simp only [isPrimary, beq_self_eq_true, if_true]
    omega
  · simp only [isPrimary, beq_iff_eq, if_false]
    omega

theorem merged_exact (merging : Merging area limits master (b :: rest) arg) (walk : TableWalk β η)
    {target : β} (isTarget : arg.primary = some target ∨ target ∈ arg.current)
    (room : mergeEstimate limits (arg.primary == some target) (arg.gots b) (arg.gots target) ≤
      limits.maxCount)
    (fits : MergeFits area limits (arg.primary == some target) (arg.gots b) (arg.gots target))
    (exact : CountsExact area limits (b :: rest) arg) :
    CountsExact area limits rest (arg.mergeInto area walk b target) where
  fit g known later := by
    by_cases isT : g = target
    · rw [isT]
      exact merging.merged_counts_fit walk fits
    · have before := merging.live_before walk isTarget known
      rw [merge_into_other area walk arg isT]
      apply exact.fit g before.2
      rw [List.mem_cons, not_or]
      exact ⟨before.1, later⟩
  within b' b'' g different first second := by
    by_cases isT : g = target
    · rw [isT]
      exact le_trans (merging.need_le_estimate walk isTarget fits) (BitVec.le_def.mp room)
    · have before : ∀ {x}, (arg.mergeInto area walk b target).bfd2got x = some g →
          arg.bfd2got x = some g := by
        intro x known
        rcases (merge_into_mapped area walk arg b target x g).mp known with ⟨_, is⟩ | ⟨_, before⟩
        · exact absurd is isT
        · exact before
      have bound := exact.within b' b'' g different (before first) (before second)
      simp only [GotPerBfdArg.need, merge_into_other area walk arg isT] at bound ⊢
      exact bound

theorem targeted_exact (merging : Merging area limits master (b :: rest) arg) {primary : Option β}
    {current : List β} (kept : ∀ g, g ≠ b → (primary = some g ↔ arg.primary = some g))
    (fit : (arg.gots b).CountsFit area) (exact : CountsExact area limits (b :: rest) arg) :
    CountsExact area limits rest { arg with primary := primary, current := current } where
  fit g known later := by
    by_cases isB : g = b
    · rw [isB]
      exact fit
    · apply exact.fit g known
      rw [List.mem_cons, not_or]
      exact ⟨isB, later⟩
  within b' b'' g different first second := by
    have other : g ≠ b := by
      rintro rfl
      have only := (merging.pending g List.mem_cons_self).2
      exact different ((only b' first).trans (only b'' second).symm)
    have bound := exact.within b' b'' g different first second
    simp only [GotPerBfdArg.need, kept g other] at bound ⊢
    exact bound

end Exact

section Overfull

theorem merged_overfull (merging : Merging area limits master (b :: rest) arg) (walk : TableWalk β η)
    {target : β} (full : Overfull area limits (b :: rest) arg) :
    Overfull area limits rest (arg.mergeInto area walk b target) := by
  rcases full with ⟨g, live, visited, reason⟩
  rw [List.mem_cons, not_or] at visited
  have moved := merge_into_mapped area walk arg b target
  refine ⟨g, (moved g g).mpr (Or.inr ⟨visited.1, live⟩), visited.2, ?_⟩
  have stays : ∀ {x}, arg.bfd2got x = some g → (arg.mergeInto area walk b target).bfd2got x = some g := by
    intro x known
    refine (moved x g).mpr (Or.inr ⟨?_, known⟩)
    rintro rfl
    exact visited.1 (Option.some.inj (known.symm.trans (merging.pending x List.mem_cons_self).1))
  by_cases isT : g = target
  · subst isT
    rcases reason with unfit | ⟨above, b', b'', different, first, second⟩
    · refine Or.inl fun fit => unfit ?_
      exact ⟨lt_of_le_of_lt (le_merge_into area walk arg b g _) fit.locals,
        lt_of_le_of_lt (le_merge_into area walk arg b g _) fit.globals,
        lt_of_le_of_lt (le_merge_into area walk arg b g _) fit.tls,
        lt_of_le_of_lt (pages_le_merge_into area walk arg b g) fit.pages⟩
    · exact Or.inr ⟨lt_of_lt_of_le above (exact_need_merge_into walk g), b', b'', different,
        stays first, stays second⟩
  · have same := merge_into_other area walk arg isT (b := b)
    have primary : (arg.mergeInto area walk b target).primary = arg.primary := rfl
    rw [same, exactNeed, same, primary]
    rcases reason with unfit | ⟨above, b', b'', different, first, second⟩
    · exact Or.inl unfit
    · exact Or.inr ⟨above, b', b'', different, stays first, stays second⟩

theorem merged_unfit (merging : Merging area limits master (b :: rest) arg) (walk : TableWalk β η)
    (bound : limits.maxCount.toNat < 2 ^ 31) {target : β}
    (isTarget : arg.primary = some target ∨ target ∈ arg.current)
    (kept : AccessKept (arg.gots b) (arg.gots target))
    (unfit : ¬ MergeFits area limits (arg.primary == some target) (arg.gots b) (arg.gots target)) :
    Overfull area limits rest (arg.mergeInto area walk b target) := by
  have live := merging.targets target isTarget
  have moved := merge_into_mapped area walk arg b target
  have pages := merging.pages_sum_le walk isTarget
  refine ⟨target, (moved target target).mpr (Or.inr ⟨merging.target_ne isTarget, live.1⟩),
    fun later => live.2 (List.mem_cons_of_mem _ later), ?_⟩
  by_cases pagesFit : total pageSlots (arg.gots b).gotPageEntries +
      total pageSlots (arg.gots target).gotPageEntries < 2 ^ 32
  · by_cases sumFits : mergeSum area limits (arg.primary == some target) (arg.gots b)
        (arg.gots target) < 2 ^ 32
    · refine Or.inl fun fit => unfit ⟨pagesFit, sumFits, fun _ => ?_⟩
      rw [← merging.joined_total walk]
      exact fit.globals
    · refine Or.inr ⟨?_, b, target, (merging.target_ne isTarget).symm,
        (moved b target).mpr (Or.inl ⟨rfl, rfl⟩),
        (moved target target).mpr (Or.inr ⟨merging.target_ne isTarget, live.1⟩)⟩
      -- The joined table needs as much as each of the two, so it needs half of the sum.
      have source := merging.source_slots_le walk isTarget kept
      rw [total_add, total_add, total_slots, total_slots] at source
      have locals := le_merge_into area walk arg b target (localSlots area)
      have tls := le_merge_into area walk arg b target tlsSlots
      have globals := le_merge_into area walk arg b target (globalSlots area)
      have primary : (arg.mergeInto area walk b target).primary = arg.primary := rfl
      rw [mergeSum] at sumFits
      rw [exactNeed, primary]
      by_cases isPrimary : arg.primary = some target
      · simp only [isPrimary, beq_self_eq_true, if_true] at sumFits ⊢
        omega
      · simp only [isPrimary, beq_iff_eq, if_false] at sumFits ⊢
        omega
  · refine Or.inl fun fit => ?_
    have small := fit.pages
    omega

theorem targeted_overfull (merging : Merging area limits master (b :: rest) arg)
    (nodup : (b :: rest).Nodup) {primary : Option β} {current : List β}
    (kept : ∀ g, g ≠ b → (primary = some g ↔ arg.primary = some g))
    (full : Overfull area limits (b :: rest) arg ∨ ¬ (arg.gots b).CountsFit area) :
    Overfull area limits rest { arg with primary := primary, current := current } := by
  rcases full with ⟨g, live, visited, reason⟩ | unfit
  · rw [List.mem_cons, not_or] at visited
    refine ⟨g, live, visited.2, reason.imp_right fun above => ⟨?_, above.2⟩⟩
    have need := above.1
    simp only [exactNeed, kept g visited.1] at need ⊢
    exact need
  · exact ⟨b, (merging.pending b List.mem_cons_self).1, (List.nodup_cons.mp nodup).1, Or.inl unfit⟩

end Overfull

omit [DecidableEq β] [DecidableEq η] in
theorem primary_kept (noPrimary : arg.primary = none) :
    ∀ g, g ≠ b → (some b = some g ↔ arg.primary = some g) := by
  intro g other
  rw [noPrimary]
  constructor
  · exact fun same => absurd (Option.some.inj same).symm other
  · exact fun same => by cases same

theorem step_exact (merging : Merging area limits master (b :: rest) arg) (walk : β → TableWalk β η)
    (fit : CountsFitAt area limits arg b) (exact : CountsExact area limits (b :: rest) arg) :
    CountsExact area limits rest (mipsElfMergeGots area limits walk arg b) := by
  rw [CountsFitAt] at fit
  rcases merging.merge_gots_cases walk with
    ⟨target, found, isTarget, room, result⟩ | ⟨missing, ⟨noPrimary, result⟩ | result⟩
  · rw [found] at fit
    rw [result]
    exact merging.merged_exact (walk b) isTarget room fit exact
  · rw [missing] at fit
    rw [result]
    exact merging.targeted_exact (primary_kept noPrimary) fit exact
  · rw [missing] at fit
    rw [result]
    exact merging.targeted_exact (fun _ _ => Iff.rfl) fit exact

theorem step_overfull (merging : Merging area limits master (b :: rest) arg) (nodup : (b :: rest).Nodup)
    (walk : β → TableWalk β η) (bound : limits.maxCount.toNat < 2 ^ 31)
    (kept : AccessKeptAt limits arg b)
    (full : Overfull area limits (b :: rest) arg ∨ ¬ CountsFitAt area limits arg b) :
    Overfull area limits rest (mipsElfMergeGots area limits walk arg b) := by
  rw [CountsFitAt] at full
  rcases merging.merge_gots_cases walk with
    ⟨target, found, isTarget, _, result⟩ | ⟨missing, ⟨noPrimary, result⟩ | result⟩
  · rw [found] at full
    rw [result]
    rcases full with before | unfit
    · exact merging.merged_overfull (walk b) before
    · exact merging.merged_unfit (walk b) bound isTarget (kept target found) unfit
  · rw [missing] at full
    rw [result]
    exact merging.targeted_overfull nodup (primary_kept noPrimary) full
  · rw [missing] at full
    rw [result]
    exact merging.targeted_overfull nodup (fun _ _ => Iff.rfl) full

theorem run_exact (merging : Merging area limits master rest arg) (nodup : rest.Nodup)
    (walk : β → TableWalk β η) (fit : EachVisit area limits walk (CountsFitAt area limits) rest arg)
    (exact : CountsExact area limits rest arg) :
    CountsExact area limits [] (rest.foldl (mipsElfMergeGots area limits walk) arg) := by
  induction rest generalizing arg with
  | nil => exact exact
  | cons b rest ih =>
      exact ih (merging.step nodup walk) (List.nodup_cons.mp nodup).2 fit.2
        (merging.step_exact walk fit.1 exact)

theorem run_overfull (merging : Merging area limits master rest arg) (nodup : rest.Nodup)
    (walk : β → TableWalk β η) (bound : limits.maxCount.toNat < 2 ^ 31)
    (kept : EachVisit area limits walk (AccessKeptAt limits) rest arg)
    (full : Overfull area limits rest arg ∨ ¬ EachVisit area limits walk (CountsFitAt area limits) rest arg) :
    Overfull area limits [] (rest.foldl (mipsElfMergeGots area limits walk) arg) := by
  induction rest generalizing arg with
  | nil => exact full.resolve_right fun unfit => unfit trivial
  | cons b rest ih =>
      have next := merging.step nodup walk
      have unvisited := (List.nodup_cons.mp nodup).2
      rcases full with before | unfit
      · exact ih next unvisited kept.2
          (Or.inl (merging.step_overfull nodup walk bound kept.1 (Or.inl before)))
      · by_cases now : CountsFitAt area limits arg b
        · exact ih next unvisited kept.2 (Or.inr fun later => unfit ⟨now, later⟩)
        · exact ih next unvisited kept.2
            (Or.inl (merging.step_overfull nodup walk bound kept.1 (Or.inr now)))

end Merging

end

end Openisa.Got
