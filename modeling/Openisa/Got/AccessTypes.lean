import Openisa.Got.MergedGots

/-! The TLS access types of entries, when a merge drops one for that in its slot. -/

namespace Openisa.Got

open Openisa.Library.SlotTable

def TlsType.Within (t u : TlsType) : Prop :=
  ∀ flag ∈ [gotTlsGd, gotTlsLdm, gotTlsIe], t &&& flag ≠ 0 → u &&& flag ≠ 0

instance (t u : TlsType) : Decidable (TlsType.Within t u) :=
  inferInstanceAs (Decidable (∀ flag ∈ [gotTlsGd, gotTlsLdm, gotTlsIe], _))

theorem TlsType.Within.refl (t : TlsType) : TlsType.Within t t := fun _ _ asked => asked

theorem TlsType.Within.trans {t u v : TlsType} (first : TlsType.Within t u)
    (second : TlsType.Within u v) : TlsType.Within t v :=
  fun flag member asked => second flag member (first flag member asked)

variable {β η : Type} [DecidableEq β] [DecidableEq η]

/-- An entry that shares a slot with one of the target asks for no access type that this lacks. -/
def AccessKept (source target : GotInfo β η) : Prop :=
  ∀ e ∈ source.gotEntries, ∀ e' ∈ target.gotEntries,
    mipsElfMultiGotEntryEq e e' = true → TlsType.Within e.tlsType e'.tlsType

instance (source target : GotInfo β η) : Decidable (AccessKept source target) :=
  inferInstanceAs (Decidable (∀ e ∈ source.gotEntries, ∀ e' ∈ target.gotEntries, _))

def AccessKeptAt (limits : GotLimits) (arg : GotPerBfdArg β η) (b : β) : Prop :=
  ∀ target, mergeTarget limits arg b = some target → AccessKept (arg.gots b) (arg.gots target)

instance (limits : GotLimits) (arg : GotPerBfdArg β η) (b : β) : Decidable (AccessKeptAt limits arg b) :=
  inferInstanceAs (Decidable (∀ target ∈ mergeTarget limits arg b, _))

def AccessHeld (master : MasterGot β η) (arg : GotPerBfdArg β η) : Prop :=
  ∀ e ∈ master.gotEntries, ∀ b g, e.key.abfd = some b → arg.bfd2got b = some g →
    ∃ e' ∈ (arg.gots g).gotEntries, mipsElfMultiGotEntryEq e e' = true ∧
      TlsType.Within e.tlsType e'.tlsType

/-- The slot of some entry of a visited input has one that lacks an access type. -/
def AccessLost (master : MasterGot β η) (rest : List β) (arg : GotPerBfdArg β η) : Prop :=
  ∃ e ∈ master.gotEntries, ∃ b g, e.key.abfd = some b ∧ b ∉ rest ∧ arg.bfd2got b = some g ∧
    ∃ e' ∈ (arg.gots g).gotEntries, mipsElfMultiGotEntryEq e e' = true ∧
      ¬ TlsType.Within e.tlsType e'.tlsType

section

variable {area : η → GlobalGotArea} {limits : GotLimits} {master : MasterGot β η} {b : β}
  {rest : List β} {arg : GotPerBfdArg β η}

theorem SplitInto.held {walk : TableWalk β η}
    (split : SplitInto area (walk.entries.order master.gotEntries)
      (walk.pages.order master.gotPageEntries) arg) : AccessHeld master arg := by
  intro e member b g input known
  refine ⟨e, ?_, multi_got_slots.refl e, TlsType.Within.refl e.tlsType⟩
  rw [split.mapped] at known
  split at known
  · cases known
    rw [split.entries, List.mem_filter, Walk.mem]
    exact ⟨member, by simp [input]⟩
  · cases known

theorem merge_into_lost (walk : TableWalk β η) {target : β}
    (lost : AccessLost master (b :: rest) arg) :
    AccessLost master rest (arg.mergeInto area walk b target) := by
  rcases lost with ⟨e, inMaster, b', g, input, visited, known, e', member, shared, lacks⟩
  have different : b' ≠ b := fun same => visited (same ▸ List.mem_cons_self)
  refine ⟨e, inMaster, b', g, input, fun later => visited (List.mem_cons_of_mem _ later), ?_, e', ?_,
    shared, lacks⟩
  · exact (merge_into_mapped area walk arg b target b' g).mpr (Or.inr ⟨different, known⟩)
  · by_cases isT : g = target
    · subst isT
      rw [GotPerBfdArg.mergeInto, GotPerBfdArg.setGot_same, absorb_entries]
      exact subset_enterAll _ _ member
    · rwa [GotPerBfdArg.mergeInto, GotPerBfdArg.setGot_other _ isT]

namespace Merging

theorem absorbed_within (merging : Merging area limits master (b :: rest) arg) (walk : TableWalk β η)
    {target : β} (kept : AccessKept (arg.gots b) (arg.gots target)) {e : GotEntry β η}
    (member : e ∈ (arg.gots b).gotEntries) :
    ∃ e' ∈ ((arg.mergeInto area walk b target).gots target).gotEntries,
      mipsElfMultiGotEntryEq e e' = true ∧ TlsType.Within e.tlsType e'.tlsType := by
  have distinct := (merging.tidy b (merging.pending b List.mem_cons_self).1).distinct
  rw [merge_into_target, absorb_entries]
  rcases enterAll_shares multi_got_slots (arg.gots target).gotEntries
    (walk.entries.mem.mpr member) with ⟨e', stored, shared⟩
  refine ⟨e', stored, shared, ?_⟩
  rcases of_mem_enterAll stored with old | new
  · exact kept e member e' old shared
  · rw [← distinct.shared_eq multi_got_slots member (walk.entries.mem.mp new) shared]
    exact TlsType.Within.refl e.tlsType

/-- Merging two tables keeps the access types when no entry in a taken slot asks for more. -/
theorem merged_held (merging : Merging area limits master (b :: rest) arg) (walk : TableWalk β η)
    {target : β} (live : arg.bfd2got target = some target)
    (kept : AccessKept (arg.gots b) (arg.gots target)) (held : AccessHeld master arg) :
    AccessHeld master (arg.mergeInto area walk b target) := by
  have own := (merging.pending b List.mem_cons_self).1
  intro e inMaster b' g input known
  rcases (merge_into_mapped area walk arg b target b' g).mp known with ⟨rfl, rfl⟩ | ⟨_, before⟩
  · rcases held e inMaster b' b' input own with ⟨e', member, shared, within⟩
    rcases merging.absorbed_within walk kept member with ⟨e'', stored, again, more⟩
    exact ⟨e'', stored, multi_got_slots.trans shared again, within.trans more⟩
  · rcases held e inMaster b' g input before with ⟨e', member, shared, within⟩
    refine ⟨e', ?_, shared, within⟩
    by_cases isT : g = target
    · subst isT
      rw [GotPerBfdArg.mergeInto, GotPerBfdArg.setGot_same, absorb_entries]
      exact subset_enterAll _ _ member
    · rwa [GotPerBfdArg.mergeInto, GotPerBfdArg.setGot_other _ isT]

theorem dropped_lost (merging : Merging area limits master (b :: rest) arg) (nodup : (b :: rest).Nodup)
    (walk : TableWalk β η) {target : β} (dropped : ¬ AccessKept (arg.gots b) (arg.gots target)) :
    AccessLost master rest (arg.mergeInto area walk b target) := by
  have own := (merging.pending b List.mem_cons_self).1
  simp only [AccessKept, not_forall] at dropped
  rcases dropped with ⟨e, member, e', taken, shared, lacks⟩
  refine ⟨e, (merging.homes b own e member).1, b, target, merging.own_entries e member,
    (List.nodup_cons.mp nodup).1, ?_, e', ?_, shared, lacks⟩
  · exact (merge_into_mapped area walk arg b target b target).mpr (Or.inl ⟨rfl, rfl⟩)
  · rw [GotPerBfdArg.mergeInto, GotPerBfdArg.setGot_same, absorb_entries]
    exact subset_enterAll _ _ taken

theorem step_held (merging : Merging area limits master (b :: rest) arg) (walk : β → TableWalk β η)
    (kept : AccessKeptAt limits arg b) (held : AccessHeld master arg) :
    AccessHeld master (mipsElfMergeGots area limits walk arg b) := by
  rcases merging.merge_gots_cases walk with
    ⟨target, found, isTarget, _, result⟩ | ⟨_, ⟨_, result⟩ | result⟩ <;> rw [result]
  · exact merging.merged_held (walk b) (merging.targets target isTarget).1 (kept target found) held
  · exact held
  · exact held

theorem step_lost (merging : Merging area limits master (b :: rest) arg) (nodup : (b :: rest).Nodup)
    (walk : β → TableWalk β η)
    (lost : AccessLost master (b :: rest) arg ∨ ¬ AccessKeptAt limits arg b) :
    AccessLost master rest (mipsElfMergeGots area limits walk arg b) := by
  have later : AccessLost master (b :: rest) arg → AccessLost master rest arg := by
    rintro ⟨e, inMaster, b', g, input, visited, kept⟩
    exact ⟨e, inMaster, b', g, input, fun member => visited (List.mem_cons_of_mem _ member), kept⟩
  rcases merging.merge_gots_cases walk with
    ⟨target, found, _, _, result⟩ | ⟨missing, results⟩
  · rw [result]
    rcases lost with before | dropped
    · exact merge_into_lost (walk b) before
    · apply merging.dropped_lost nodup (walk b)
      intro kept
      apply dropped
      intro target' found'
      rw [found] at found'
      cases found'
      exact kept
  · rcases lost with before | dropped
    · rcases results with ⟨_, result⟩ | result <;> rw [result] <;> exact later before
    · refine absurd ?_ dropped
      intro target' found'
      rw [missing] at found'
      cases found'

theorem run_held (merging : Merging area limits master rest arg) (nodup : rest.Nodup)
    (walk : β → TableWalk β η)
    (kept : EachVisit area limits walk (AccessKeptAt limits) rest arg) (held : AccessHeld master arg) :
    AccessHeld master (rest.foldl (mipsElfMergeGots area limits walk) arg) := by
  induction rest generalizing arg with
  | nil => exact held
  | cons b rest ih =>
      exact ih (merging.step nodup walk) (List.nodup_cons.mp nodup).2 kept.2
        (merging.step_held walk kept.1 held)

theorem run_lost (merging : Merging area limits master rest arg) (nodup : rest.Nodup)
    (walk : β → TableWalk β η)
    (lost : AccessLost master rest arg ∨ ¬ EachVisit area limits walk (AccessKeptAt limits) rest arg) :
    AccessLost master [] (rest.foldl (mipsElfMergeGots area limits walk) arg) := by
  induction rest generalizing arg with
  | nil =>
      rcases lost with before | dropped
      · exact before
      · exact absurd trivial dropped
  | cons b rest ih =>
      have next := merging.step nodup walk
      have unvisited := (List.nodup_cons.mp nodup).2
      rcases lost with before | dropped
      · exact ih next unvisited (Or.inl (merging.step_lost nodup walk (Or.inl before)))
      · by_cases now : AccessKeptAt limits arg b
        · exact ih next unvisited (Or.inr fun kept => dropped ⟨now, kept⟩)
        · exact ih next unvisited (Or.inl (merging.step_lost nodup walk (Or.inr now)))

end Merging

end

end Openisa.Got
