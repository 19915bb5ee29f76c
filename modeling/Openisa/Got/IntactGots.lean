import Openisa.Got.MergedCounts

/-! Splitting and merging tables loses nothing, unless a count wraps or an entry is dropped that asks for
more TLS access types than the one in its slot. -/

namespace Openisa.Got

open Openisa.Library.SlotTable

variable {β η : Type} [DecidableEq β] [DecidableEq η]

/-- What is kept of the master table: every input has one table, which has all its entries with their
TLS access types, counts the slots of what it has, and is within the limit if inputs share it. -/
structure GotsIntact (area : η → GlobalGotArea) (limits : GotLimits) (master : MasterGot β η)
    (arg : GotPerBfdArg β η) : Prop where
  mapped : ∀ b, master.Refers b → ∃! g, arg.bfd2got b = some g
  matched : ∀ e ∈ master.gotEntries, ∀ b g, e.key.abfd = some b → arg.bfd2got b = some g →
    ∃ e' ∈ (arg.gots g).gotEntries, mipsElfMultiGotEntryEq e e' = true ∧
      TlsType.Within e.tlsType e'.tlsType
  paged : ∀ p ∈ master.gotPageEntries, ∀ g, arg.bfd2got p.abfd = some g →
    p ∈ (arg.gots g).gotPageEntries
  distinct : ∀ b g, arg.bfd2got b = some g → Distinct mipsElfMultiGotEntryEq (arg.gots g).gotEntries ∧
    Distinct mipsGotPageEntryEq (arg.gots g).gotPageEntries
  counted : ∀ b g, arg.bfd2got b = some g →
    (arg.gots g).localGotno.toNat = total (localSlots area) (arg.gots g).gotEntries ∧
      (arg.gots g).globalGotno.toNat = total (globalSlots area) (arg.gots g).gotEntries ∧
      (arg.gots g).tlsGotno.toNat = total tlsSlots (arg.gots g).gotEntries ∧
      (arg.gots g).pageGotno.toNat = total pageSlots (arg.gots g).gotPageEntries
  fits : ∀ b b' g, b ≠ b' → arg.bfd2got b = some g → arg.bfd2got b' = some g →
    arg.need limits g ≤ limits.maxCount.toNat

section

variable {area : η → GlobalGotArea} {limits : GotLimits} {master : MasterGot β η}
  {arg : GotPerBfdArg β η}

theorem SplitInto.exact (limits : GotLimits) {walk : TableWalk β η}
    (split : SplitInto area (walk.entries.order master.gotEntries)
      (walk.pages.order master.gotPageEntries) arg) (order : Walk β) :
    CountsExact area limits (order.order arg.inputs) arg := by
  have own : ∀ {b g}, arg.bfd2got b = some g → b ∈ arg.inputs ∧ g = b := by
    intro b g known
    rw [split.mapped] at known
    split at known
    · rename_i member
      exact ⟨member, (Option.some.inj known).symm⟩
    · cases known
  constructor
  · intro g live unvisited
    exact absurd (order.mem.mpr (own live).1) unvisited
  · intro b b' g different first second
    exact absurd ((own first).2.symm.trans (own second).2) different

theorem GotsIntact.counts_fit (intact : GotsIntact area limits master arg) {b g : β}
    (known : arg.bfd2got b = some g) : (arg.gots g).CountsFit area := by
  have counted := intact.counted b g known
  constructor
  · rw [← counted.1]
    exact BitVec.isLt _
  · rw [← counted.2.1]
    exact BitVec.isLt _
  · rw [← counted.2.2.1]
    exact BitVec.isLt _
  · rw [← counted.2.2.2]
    exact BitVec.isLt _

theorem GotsIntact.not_overfull (intact : GotsIntact area limits master arg) :
    ¬ Overfull area limits [] arg := by
  rintro ⟨g, live, _, unfit | ⟨above, b, b', different, first, second⟩⟩
  · exact unfit (intact.counts_fit live)
  · have counted := intact.counted g g live
    have within := intact.fits b b' g different first second
    rw [GotPerBfdArg.need, counted.1, counted.2.1, counted.2.2.1, counted.2.2.2] at within
    rw [exactNeed] at above
    omega

theorem GotsIntact.not_lost (intact : GotsIntact area limits master arg) :
    ¬ AccessLost master [] arg := by
  rintro ⟨e, inMaster, b, g, input, _, known, e', member, shared, lacks⟩
  rcases intact.matched e inMaster b g input known with ⟨e'', member', shared', within⟩
  have same := (intact.distinct b g known).1.shared_eq multi_got_slots member member'
    (multi_got_slots.trans (multi_got_slots.symm shared) shared')
  exact lacks (same ▸ within)

end

theorem multi_got_merging (area : η → GlobalGotArea) (limits : GotLimits) (walk : MultiGotWalk β η)
    (master : MasterGot β η) : Merging area limits master [] (mipsElfMultiGot area limits walk master) := by
  have split := master.split_gots area walk.master
  have nodup := ((walk.inputs.perm (splitGots area walk.master master).inputs).nodup_iff).mpr split.nodup
  exact (split.merging limits walk.inputs).run nodup walk.merged

instance decideEachVisit (area : η → GlobalGotArea) (limits : GotLimits) (walk : β → TableWalk β η)
    (ok : GotPerBfdArg β η → β → Prop) [∀ arg b, Decidable (ok arg b)] :
    ∀ rest arg, Decidable (EachVisit area limits walk ok rest arg)
  | [], _ => isTrue trivial
  | b :: rest, arg =>
      have := decideEachVisit area limits walk ok rest (mipsElfMergeGots area limits walk arg b)
      inferInstanceAs (Decidable (ok arg b ∧ _))

/-- The tables keep everything exactly if no visit merges tables whose counts wrap, or drops an entry for
one that lacks one of its access types. -/
theorem multi_got_intact (area : η → GlobalGotArea) (limits : GotLimits) (walk : MultiGotWalk β η)
    (master : MasterGot β η) (bound : limits.maxCount.toNat < 2 ^ 31) :
    GotsIntact area limits master (mipsElfMultiGot area limits walk master) ↔
      EachVisit area limits walk.merged (CountsFitAt area limits)
          (walk.inputs.order (splitGots area walk.master master).inputs) (splitGots area walk.master master) ∧
        EachVisit area limits walk.merged (AccessKeptAt limits)
          (walk.inputs.order (splitGots area walk.master master).inputs) (splitGots area walk.master master) := by
  have split := master.split_gots area walk.master
  have start := split.merging limits walk.inputs
  have nodup := ((walk.inputs.perm (splitGots area walk.master master).inputs).nodup_iff).mpr split.nodup
  have merged := multi_got_merging area limits walk master
  constructor
  · intro intact
    have kept : EachVisit area limits walk.merged (AccessKeptAt limits)
        (walk.inputs.order (splitGots area walk.master master).inputs) (splitGots area walk.master master) := by
      by_contra dropped
      exact intact.not_lost (start.run_lost nodup walk.merged (Or.inr dropped))
    refine ⟨?_, kept⟩
    by_contra unfit
    exact intact.not_overfull (start.run_overfull nodup walk.merged bound kept (Or.inr unfit))
  · rintro ⟨fit, kept⟩
    have exact := start.run_exact nodup walk.merged fit (split.exact limits walk.inputs)
    have live := merged.self
    refine ⟨?_, start.run_held nodup walk.merged kept split.held, merged.paged, ?_, ?_, exact.within⟩
    · intro b refers
      rcases merged.mapped b refers with ⟨g, known⟩
      exact ⟨g, known, fun g' known' => Option.some.inj (known'.symm.trans known)⟩
    · intro b g known
      have tidy := merged.tidy g (live b g known)
      exact ⟨tidy.distinct, tidy.pagesDistinct⟩
    · intro b g known
      exact counts_eq (merged.tidy g (live b g known)).counted
        (exact.fit g (live b g known) List.not_mem_nil)

/-- The limits of a link with 20 pages at most and no other global symbol. -/
def plainLimits : GotLimits := ⟨16377, 20, 0⟩

def forwardWalk : MultiGotWalk Nat Nat :=
  ⟨⟨.forward, .forward⟩, .forward, fun _ => ⟨.forward, .forward⟩⟩

/-- Two inputs refer to one thread-local symbol by its module and offset, and to symbols of their own. -/
def oneAccessType : MasterGot Nat Nat where
  gotEntries := [⟨.global 0 7, gotTlsGd⟩, ⟨.symbol 0 2 16, 0⟩, ⟨.global 1 7, gotTlsGd⟩, ⟨.symbol 1 2 16, 0⟩]
  gotPageEntries := [⟨0, 3, [⟨0, 4⟩], 1⟩, ⟨1, 3, [⟨0, 65540⟩], 2⟩]
  distinct := by decide
  pagesDistinct := by decide
  known := by decide
  ldmAlone := by
    intro e member isLdm
    simp only [List.mem_cons, List.not_mem_nil, or_false] at member
    rcases member with rfl | rfl | rfl | rfl <;> exact absurd isLdm (by decide)
  types := by decide

theorem multi_got_intact_shared :
    GotsIntact (fun _ => .none) plainLimits oneAccessType
        (mipsElfMultiGot (fun _ => .none) plainLimits forwardWalk oneAccessType) ∧
      (mipsElfMultiGot (fun _ => .none) plainLimits forwardWalk oneAccessType).bfd2got 1 = some 0 ∧
      ((mipsElfMultiGot (fun _ => .none) plainLimits forwardWalk oneAccessType).gots 0).gotEntries =
        [⟨.global 0 7, gotTlsGd⟩, ⟨.symbol 0 2 16, 0⟩, ⟨.symbol 1 2 16, 0⟩] ∧
      (mipsElfMultiGot (fun _ => .none) plainLimits forwardWalk oneAccessType).need plainLimits 0 = 7 :=
  ⟨(multi_got_intact (fun _ => .none) plainLimits forwardWalk oneAccessType (by decide)).mpr (by decide),
    by decide, by decide, by decide⟩

/-- Two inputs refer to one thread-local symbol, the first by its offset from the thread pointer and the
second by its module and offset. -/
def twoAccessTypes : MasterGot Nat Nat where
  gotEntries := [⟨.global 0 7, gotTlsIe⟩, ⟨.global 1 7, gotTlsGd⟩]
  gotPageEntries := []
  distinct := by decide
  pagesDistinct := List.Pairwise.nil
  known := by decide
  ldmAlone := by
    intro e member isLdm
    simp only [List.mem_cons, List.not_mem_nil, or_false] at member
    rcases member with rfl | rfl <;> exact absurd isLdm (by decide)
  types := by decide

theorem access_types_dropped :
    EachVisit (fun _ => .none) plainLimits forwardWalk.merged (CountsFitAt (fun _ => .none) plainLimits)
        (forwardWalk.inputs.order (splitGots (fun _ => .none) forwardWalk.master twoAccessTypes).inputs)
        (splitGots (fun _ => .none) forwardWalk.master twoAccessTypes) ∧
      ¬ GotsIntact (fun _ => .none) plainLimits twoAccessTypes
        (mipsElfMultiGot (fun _ => .none) plainLimits forwardWalk twoAccessTypes) := by
  constructor
  · decide
  · intro intact
    have table : ((mipsElfMultiGot (fun _ => .none) plainLimits forwardWalk twoAccessTypes).gots 0).gotEntries =
        [⟨.global 0 7, gotTlsIe⟩] := by decide
    have mapped : (mipsElfMultiGot (fun _ => .none) plainLimits forwardWalk twoAccessTypes).bfd2got 1 =
        some 0 := by decide
    rcases intact.matched ⟨.global 1 7, gotTlsGd⟩ (by decide) 1 0 rfl mapped with
      ⟨e', member, _, within⟩
    rw [table, List.mem_singleton] at member
    subst member
    revert within
    decide

end Openisa.Got
