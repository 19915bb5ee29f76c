import Openisa.Elf.Reference
import Openisa.Stubs.Mips16Stubs

/-! No relocation goes to a MIPS16 stub that is discarded, and no stub is kept for nothing. -/

namespace Openisa.Stubs

open Openisa.Bfd
open Openisa.Elf
open Openisa.Dynamic
open Openisa.Library

variable {η σ : Type} [DecidableEq η] [DecidableEq σ]

/-- What is known of the stubs once some sections have been checked, and some relocations noticed. -/
structure StubsLoaded (done : List (CheckedSection η σ)) (seen : List (CheckedSection η σ × StubReloc η))
    (t : StubTable η σ) : Prop where
  once : HeldOnce t.stub
  known : ∀ place s, t.stub place = some s → ∃ sec ∈ done, sec.id = s ∧ sectionAllowsMips16RefsP sec.name = true
  discarded : ∀ s, t.exclude s = true → ∃ sec ∈ done, sec.id = s ∧ sectionAllowsMips16RefsP sec.name = true
  kept : ∀ place s, t.stub place = some s → t.exclude s = false
  noted : ∀ h, t.needFnStub h = true ↔ ∃ sec r, (sec, r) ∈ seen ∧ r.sym.map t.links.root = some h

section Check

variable {sections : List (CheckedSection η σ)} {sec : CheckedSection η σ} {t t' : StubTable η σ}
  {done : List (CheckedSection η σ)} {seen : List (CheckedSection η σ × StubReloc η)} {link : DynLink}

omit [DecidableEq η] [DecidableEq σ] in
theorem stubsLoaded_start : StubsLoaded ([] : List (CheckedSection η σ)) [] .start where
  once := HeldOnce.empty
  known _ _ none := by cases none
  discarded _ none := by cases none
  kept _ _ none := by cases none
  noted h := by simp [StubTable.start]

omit [DecidableEq σ] in
theorem record_stub (t : StubTable η σ) (place : Mips16Place η) (s : σ) :
    (t.record place s).stub = Function.update t.stub place (some s) := rfl

theorem discard_or_record (t : StubTable η σ) (sec : CheckedSection η σ) (given : Bool) (place : Mips16Place η) :
    (if given then (t.discard sec.id, false) else (t.record place sec.id, true)) = (t.discard sec.id, false) ∨
      ∃ target, (if given then (t.discard sec.id, false) else (t.record place sec.id, true)) =
        (t.record target sec.id, true) := by
  cases given with
  | true => exact .inl rfl
  | false => exact .inr ⟨place, rfl⟩

theorem recordStub_cases (sections : List (CheckedSection η σ)) (sec : CheckedSection η σ) (r : StubReloc η)
    (t : StubTable η σ) :
    recordStub sections sec r t = (t.discard sec.id, false) ∨
      ∃ place, recordStub sections sec r t = (t.record place sec.id, true) := by
  unfold recordStub
  split
  · split
    · split
      · exact .inr ⟨_, rfl⟩
      · exact .inl rfl
    · dsimp only
      exact discard_or_record t sec _ _
  · split
    · split
      · exact .inr ⟨_, rfl⟩
      · exact .inl rfl
    · dsimp only
      exact discard_or_record t sec _ _

theorem checkStubSection_cases {goOn : Bool} (ran : checkStubSection sections sec t = .ok (t', goOn)) :
    (sectionAllowsMips16RefsP sec.name = true ∧ t' = t.discard sec.id ∧ goOn = false) ∨
      (t' = t ∨ sectionAllowsMips16RefsP sec.name = true ∧ ∃ place, t' = t.record place sec.id) ∧ goOn = true := by
  unfold checkStubSection at ran
  split at ran
  · next stub =>
    have allows : sectionAllowsMips16RefsP sec.name = true := by
      rw [sectionAllowsMips16RefsP, stub, Bool.true_or]
    split at ran
    · cases ran
    · next r _ =>
      split at ran
      · cases ran
      · have same := Except.ok.inj ran
        rcases recordStub_cases sections sec r t with discards | ⟨place, records⟩
        · rw [discards] at same
          cases same
          exact .inl ⟨allows, rfl, rfl⟩
        · rw [records] at same
          cases same
          exact .inr ⟨.inr ⟨allows, place, rfl⟩, rfl⟩
  · cases ran
    exact .inr ⟨.inl rfl, rfl⟩

/-- The relocations of a section that are noticed. -/
def noticedIn (link : DynLink) (t : StubTable η σ) (sec : CheckedSection η σ) : List (CheckedSection η σ × StubReloc η) :=
  (sec.relocs.filter (noticedP link sec t)).map fun r => (sec, r)

omit [DecidableEq η] [DecidableEq σ] in
theorem mem_noticedIn {t : StubTable η σ} {sec o : CheckedSection η σ} {r : StubReloc η} :
    (o, r) ∈ noticedIn link t sec ↔ o = sec ∧ r ∈ sec.relocs ∧ noticedP link sec t r = true := by
  simp only [noticedIn, List.mem_map, List.mem_filter, Prod.mk.injEq]
  constructor
  · rintro ⟨x, both, rfl, rfl⟩
    exact ⟨rfl, both⟩
  · rintro ⟨rfl, both⟩
    exact ⟨r, both, rfl, rfl⟩

omit [DecidableEq η] [DecidableEq σ] in
theorem noticedP_congr {t t' : StubTable η σ} (links : t'.links = t.links) (defRegular : t'.defRegular = t.defRegular)
    (forcedLocal : t'.forcedLocal = t.forcedLocal) (r : StubReloc η) : noticedP link sec t' r = noticedP link sec t r := by
  rw [noticedP, noticedP, links, defRegular, forcedLocal]

omit [DecidableEq σ] in
theorem noteFnStub_all (link : DynLink) (sec : CheckedSection η σ) (relocs : List (StubReloc η)) (t : StubTable η σ) :
    (relocs.foldl (noteFnStub link sec) t).links = t.links ∧ (relocs.foldl (noteFnStub link sec) t).stub = t.stub ∧
      (relocs.foldl (noteFnStub link sec) t).exclude = t.exclude ∧
      ∀ h, (relocs.foldl (noteFnStub link sec) t).needFnStub h = true ↔ t.needFnStub h = true ∨
        ∃ r ∈ relocs, noticedP link sec t r = true ∧ r.sym.map t.links.root = some h := by
  induction relocs generalizing t with
  | nil => exact ⟨rfl, rfl, rfl, fun h => by simp⟩
  | cons r relocs ih =>
    have flags : (noteFnStub link sec t r).links = t.links ∧ (noteFnStub link sec t r).defRegular = t.defRegular ∧
        (noteFnStub link sec t r).forcedLocal = t.forcedLocal := by
      unfold noteFnStub
      split
      · split <;> exact ⟨rfl, rfl, rfl⟩
      · exact ⟨rfl, rfl, rfl⟩
    have first : (noteFnStub link sec t r).stub = t.stub ∧
        (noteFnStub link sec t r).exclude = t.exclude ∧ ∀ h, (noteFnStub link sec t r).needFnStub h = true ↔
          t.needFnStub h = true ∨ (noticedP link sec t r = true ∧ r.sym.map t.links.root = some h) := by
      unfold noteFnStub
      cases r.sym with
      | none => simp
      | some g =>
        by_cases noticed : noticedP link sec t r = true
        · simp only [noticed, if_true, Option.map_some, Option.some.injEq, true_and]
          intro h
          by_cases own : h = t.links.root g
          · simp [own]
          · simp [own, Ne.symm own]
        · simp [noticed]
    obtain ⟨links, stub, exclude, need⟩ := ih (noteFnStub link sec t r)
    rw [List.foldl_cons]
    refine ⟨links.trans flags.1, stub.trans first.1, exclude.trans first.2.1, fun h => ?_⟩
    rw [need, first.2.2, flags.1, or_assoc]
    simp only [noticedP_congr flags.1 flags.2.1 flags.2.2, List.exists_mem_cons_iff]

omit [DecidableEq η] [DecidableEq σ] in
theorem StubsLoaded.fresh (loaded : StubsLoaded done seen t) (new : sec.id ∉ done.map CheckedSection.id) :
    t.exclude sec.id = false := by
  cases excluded : t.exclude sec.id with
  | false => rfl
  | true =>
    obtain ⟨o, member, same, _⟩ := loaded.discarded sec.id excluded
    exact absurd (List.mem_map.mpr ⟨o, member, same⟩) new

omit [DecidableEq η] [DecidableEq σ] in
theorem StubsLoaded.unheld (loaded : StubsLoaded done seen t) (new : sec.id ∉ done.map CheckedSection.id)
    (place : Mips16Place η) : t.stub place ≠ some sec.id := by
  intro held
  obtain ⟨o, member, same, _⟩ := loaded.known place _ held
  exact new (List.mem_map.mpr ⟨o, member, same⟩)

omit [DecidableEq η] [DecidableEq σ] in
theorem StubsLoaded.skip (loaded : StubsLoaded done seen t) : StubsLoaded (done ++ [sec]) seen t where
  once := loaded.once
  known place s held := by
    obtain ⟨o, member, here⟩ := loaded.known place s held
    exact ⟨o, List.mem_append_left _ member, here⟩
  discarded s excluded := by
    obtain ⟨o, member, here⟩ := loaded.discarded s excluded
    exact ⟨o, List.mem_append_left _ member, here⟩
  kept := loaded.kept
  noted := loaded.noted

omit [DecidableEq η] in
theorem StubsLoaded.discard (loaded : StubsLoaded done seen t) (new : sec.id ∉ done.map CheckedSection.id)
    (stub : sectionAllowsMips16RefsP sec.name = true) :
    StubsLoaded (done ++ [sec]) (seen ++ noticedIn link t sec) (t.discard sec.id) where
  once := loaded.once
  known := loaded.skip.known
  discarded s excluded := by
    by_cases own : s = sec.id
    · exact ⟨sec, List.mem_append_right _ (List.mem_singleton.mpr rfl), own.symm, stub⟩
    · have before : t.exclude s = true := (Function.update_of_ne own _ _).symm.trans excluded
      exact loaded.skip.discarded s before
  kept place s held := by
    have own : s ≠ sec.id := fun same => loaded.unheld new place (same ▸ held)
    exact (Function.update_of_ne own _ _).trans (loaded.kept place s held)
  noted h := by
    -- nothing in a stub section needs a stub
    have none : noticedIn link t sec = [] := by
      rw [noticedIn, List.filter_eq_nil_iff.mpr, List.map_nil]
      intro r _ noticed
      rw [noticedP, needsFnStubP, stub] at noticed
      simp at noticed
    rw [none, List.append_nil]
    exact loaded.noted h

omit [DecidableEq σ] in
theorem StubsLoaded.record (loaded : StubsLoaded done seen t) (new : sec.id ∉ done.map CheckedSection.id)
    (allows : sectionAllowsMips16RefsP sec.name = true) (target : Mips16Place η) :
    StubsLoaded (done ++ [sec]) seen (t.record target sec.id) := by
  have held : ∀ place s, (t.record target sec.id).stub place = some s → t.stub place = some s ∨ sec.id = s := by
    intro place s holds
    rw [record_stub] at holds
    by_cases own : place = target
    · rw [own, Function.update_self] at holds
      exact .inr (Option.some.inj holds)
    · rw [Function.update_of_ne own] at holds
      exact .inl holds
  have before : StubsLoaded (done ++ [sec]) seen t := loaded.skip
  refine ⟨loaded.once.give target (loaded.unheld new), fun place s holds => ?_, before.discarded,
    fun place s holds => ?_, loaded.noted⟩
  · rcases held place s holds with old | own
    · exact before.known place s old
    · exact ⟨sec, List.mem_append_right _ (List.mem_singleton.mpr rfl), own, allows⟩
  · rcases held place s holds with old | own
    · exact loaded.kept place s old
    · exact own ▸ loaded.fresh new

omit [DecidableEq σ] in
theorem StubsLoaded.notice (loaded : StubsLoaded done seen t) :
    StubsLoaded done (seen ++ noticedIn link t sec) (sec.relocs.foldl (noteFnStub link sec) t) := by
  obtain ⟨links, stub, exclude, need⟩ := noteFnStub_all link sec sec.relocs t
  generalize sec.relocs.foldl (noteFnStub link sec) t = t' at links stub exclude need
  refine ⟨stub ▸ loaded.once, stub ▸ loaded.known, exclude ▸ loaded.discarded, ?_, fun h => ?_⟩
  · rw [stub, exclude]
    exact loaded.kept
  · rw [need, loaded.noted h, links]
    constructor
    · rintro (⟨o, r, old, leads⟩ | ⟨r, member, noticed, leads⟩)
      · exact ⟨o, r, List.mem_append_left _ old, leads⟩
      · exact ⟨sec, r, List.mem_append_right _ (mem_noticedIn.mpr ⟨rfl, member, noticed⟩), leads⟩
    · rintro ⟨o, r, either, leads⟩
      rcases List.mem_append.mp either with old | new
      · exact .inl ⟨o, r, old, leads⟩
      · have here := mem_noticedIn.mp new
        exact .inr ⟨r, here.2.1, here.2.2, leads⟩

omit [DecidableEq σ] in
theorem StubsLoaded.goOn {u : StubTable η σ} (loaded : StubsLoaded done seen t) (new : sec.id ∉ done.map CheckedSection.id)
    (recorded : u = t ∨ sectionAllowsMips16RefsP sec.name = true ∧ ∃ place, u = t.record place sec.id) :
    StubsLoaded (done ++ [sec]) (seen ++ noticedIn link t sec) (sec.relocs.foldl (noteFnStub link sec) u) := by
  rcases recorded with rfl | ⟨allows, target, rfl⟩
  · exact loaded.skip.notice
  · have same : noticedIn link t sec = noticedIn link (t.record target sec.id) sec := rfl
    rw [same]
    exact (loaded.record new allows target).notice

theorem StubsLoaded.check (loaded : StubsLoaded done seen t) (new : sec.id ∉ done.map CheckedSection.id)
    (ran : checkStubRelocs link sections t sec = .ok t') :
    StubsLoaded (done ++ [sec]) (seen ++ noticedIn link t sec) t' := by
  unfold checkStubRelocs at ran
  cases first : checkStubSection sections sec t with
  | error e =>
    rw [first] at ran
    cases ran
  | ok result =>
    obtain ⟨u, further⟩ := result
    rw [first] at ran
    have last := Except.ok.inj ran
    rcases checkStubSection_cases first with ⟨stub, rfl, rfl⟩ | ⟨recorded, rfl⟩
    · exact last ▸ loaded.discard new stub
    · exact last ▸ loaded.goOn new recorded

end Check

section Indirect

variable {t : StubTable η σ} {done : List (CheckedSection η σ)} {seen : List (CheckedSection η σ × StubReloc η)}

omit [DecidableEq σ] in
theorem copyStubs_need {ind dir : η} (apart : ind ≠ dir) (t : StubTable η σ) (h : η) :
    (copyStubs dir ind t).needFnStub h = true ↔
      (h = dir ∧ (t.needFnStub dir = true ∨ t.needFnStub ind = true)) ∨
        (h ≠ dir ∧ h ≠ ind ∧ t.needFnStub h = true) := by
  unfold copyStubs
  by_cases own : h = ind
  · subst own
    by_cases need : t.needFnStub h = true <;> simp [need, apart]
  · by_cases target : h = dir
    · subst target
      by_cases need : t.needFnStub ind = true <;> simp [need, own]
    · by_cases need : t.needFnStub ind = true <;> simp [need, own, target]

theorem leads_redirect (links : Forwarding η) (ind dir : η) (sym : Option η) (h : η) :
    sym.map (links.redirect ind dir).root = some h ↔
      (h = links.root dir ∧ (sym.map links.root = some (links.root dir) ∨ sym.map links.root = some (links.root ind))) ∨
        (h ≠ links.root dir ∧ h ≠ links.root ind ∧ sym.map links.root = some h) := by
  cases sym with
  | none => simp
  | some g =>
    simp only [Option.map_some, Option.some.injEq, Forwarding.redirect_root]
    by_cases moved : links.root g = links.root ind
    · rw [if_pos moved, moved]
      by_cases target : h = links.root dir
      · simp [target]
      · simp [target, Ne.symm target, eq_comm]
    · rw [if_neg moved]
      by_cases target : h = links.root dir
      · simp [target, moved]
      · simp only [target, false_and, ne_eq, not_false_eq_true, true_and, false_or]
        exact ⟨fun same => ⟨same ▸ moved, same⟩, And.right⟩

omit [DecidableEq σ] in
theorem StubsLoaded.indirect (loaded : StubsLoaded done seen t) {ind dir : η} (apart : t.links.root ind ≠ t.links.root dir) :
    StubsLoaded done seen
      { copyStubs (t.links.root dir) (t.links.root ind) t with links := t.links.redirect ind dir } where
  once := ((loaded.once.moved _ _).moved _ _).moved _ _
  known place s held := by
    obtain ⟨third, held⟩ := HeldOnce.of_move held
    obtain ⟨second, held⟩ := HeldOnce.of_move held
    obtain ⟨first, held⟩ := HeldOnce.of_move held
    exact loaded.known first s held
  discarded := loaded.discarded
  kept place s held := by
    obtain ⟨third, held⟩ := HeldOnce.of_move held
    obtain ⟨second, held⟩ := HeldOnce.of_move held
    obtain ⟨first, held⟩ := HeldOnce.of_move held
    exact loaded.kept first s held
  noted h := by
    refine (copyStubs_need apart t h).trans ?_
    simp only [loaded.noted, leads_redirect t.links]
    by_cases target : h = t.links.root dir
    · simp only [target, true_and, ne_eq, not_true_eq_false, false_and, or_false, and_or_left, exists_or]
    · simp only [target, false_and, ne_eq, not_false_eq_true, true_and, false_or]
      by_cases own : h = t.links.root ind
      · simp [own]
      · simp [own]

end Indirect

section Load

variable {sections : List (CheckedSection η σ)} {t t' : StubTable η σ} {done : List (CheckedSection η σ)}
  {seen : List (CheckedSection η σ × StubReloc η)} {link : DynLink}

def StubStep.section? : StubStep η σ → Option (CheckedSection η σ)
  | .check sec => some sec
  | .indirect .. => none
  | .resolve .. => none

def checkedSections (steps : List (StubStep η σ)) : List (CheckedSection η σ) := steps.filterMap StubStep.section?

/-- The relocations that are noticed in a run: whether a symbol is overridable is asked when its relocation is checked. -/
def noticedRelocs (link : DynLink) (sections : List (CheckedSection η σ)) :
    StubTable η σ → List (StubStep η σ) → List (CheckedSection η σ × StubReloc η)
  | _, [] => []
  | t, step :: steps =>
      (step.section?.elim [] (noticedIn link t)) ++
        match stubStep link sections t step with
        | .ok t' => noticedRelocs link sections t' steps
        | .error _ => []

omit [DecidableEq η] [DecidableEq σ] in
theorem StubsLoaded.resolve (loaded : StubsLoaded done seen t) (defRegular forcedLocal : η → Bool) :
    StubsLoaded done seen { t with defRegular, forcedLocal } :=
  ⟨loaded.once, loaded.known, loaded.discarded, loaded.kept, loaded.noted⟩

/-- The sections are checked once each, in any order, and symbols may become indirect or be found at any time. -/
theorem StubsLoaded.run (loaded : StubsLoaded done seen t) {steps : List (StubStep η σ)}
    (distinct : ((done ++ checkedSections steps).map CheckedSection.id).Nodup)
    (ran : steps.foldlM (stubStep link sections) t = .ok t') :
    StubsLoaded (done ++ checkedSections steps) (seen ++ noticedRelocs link sections t steps) t' := by
  induction steps generalizing t done seen with
  | nil =>
    cases ran
    rw [checkedSections, List.filterMap_nil, noticedRelocs, List.append_nil, List.append_nil]
    exact loaded
  | cons step steps ih =>
    rw [List.foldlM_cons] at ran
    cases first : stubStep link sections t step with
    | error e =>
      rw [first] at ran
      cases ran
    | ok next =>
      rw [first] at ran
      rw [noticedRelocs, first]
      cases step with
      | check sec =>
        have more : checkedSections (.check sec :: steps) = sec :: checkedSections steps := rfl
        rw [more, List.append_cons] at distinct ⊢
        have new : sec.id ∉ done.map CheckedSection.id := by
          rw [List.map_append, List.map_append, List.append_assoc] at distinct
          exact fun old => (List.nodup_append.mp distinct).2.2 _ old _ List.mem_cons_self rfl
        have all := ih (loaded.check new first) distinct ran
        rwa [List.append_assoc seen] at all
      | indirect ind dir =>
        rw [stubStep] at first
        by_cases joined : t.links.root ind = t.links.root dir
        · rw [if_pos joined] at first
          cases first
          exact ih loaded distinct ran
        · rw [if_neg joined] at first
          cases first
          exact ih (loaded.indirect joined) distinct ran
      | resolve h defRegular forcedLocal =>
        cases first
        exact ih (loaded.resolve _ _) distinct ran

end Load

section Discard

variable {isa : η → IsaMode} {dynamic : η → Bool}

def neededP (dynamic : η → Bool) (t : StubTable η σ) (h : η) : Bool :=
  t.needFnStub h || ((t.stub (.fnStub h)).isSome && dynamic h)

/-- The check of a symbol discards the section. -/
def Discards (isa : η → IsaMode) (dynamic : η → Bool) (t : StubTable η σ) (h : η) (s : σ) : Prop :=
  (t.stub (.fnStub h) = some s ∧ neededP dynamic t h = false) ∨
    (isa h = .mips16 ∧ (t.stub (.callStub h) = some s ∨ t.stub (.callFpStub h) = some s))

theorem exclude_one (isa : η → IsaMode) (dynamic : η → Bool) (t : StubTable η σ) (h : η) (s : σ) :
    (StubTable.mipsElfCheckMips16Stubs isa dynamic t h).exclude s = true ↔
      t.exclude s = true ∨ Discards isa dynamic t h s := by
  have checked : (StubTable.mipsElfCheckMips16Stubs isa dynamic t h).exclude s =
      (t.exclude s || (t.stub (.fnStub h) = some s && !neededP dynamic t h) ||
        (isa h = .mips16 && (t.stub (.callStub h) = some s || t.stub (.callFpStub h) = some s))) := rfl
  rw [checked]
  simp [Discards, or_assoc]

theorem checkMips16Symbols_all (isa : η → IsaMode) (dynamic : η → Bool) (traversal : List η) (t : StubTable η σ) :
    (checkMips16Symbols isa dynamic traversal t).links = t.links ∧
      (checkMips16Symbols isa dynamic traversal t).stub = t.stub ∧
      (∀ h, (checkMips16Symbols isa dynamic traversal t).needFnStub h =
        if h ∈ traversal then neededP dynamic t h else t.needFnStub h) ∧
      ∀ s, (checkMips16Symbols isa dynamic traversal t).exclude s = true ↔
        t.exclude s = true ∨ ∃ h ∈ traversal, Discards isa dynamic t h s := by
  induction traversal generalizing t with
  | nil => exact ⟨rfl, rfl, fun h => by simp [checkMips16Symbols], fun s => by simp [checkMips16Symbols]⟩
  | cons g traversal ih =>
    obtain ⟨links, stub, need, exclude⟩ := ih (StubTable.mipsElfCheckMips16Stubs isa dynamic t g)
    have needed : ∀ h, neededP dynamic (StubTable.mipsElfCheckMips16Stubs isa dynamic t g) h = neededP dynamic t h := by
      intro h
      unfold neededP StubTable.mipsElfCheckMips16Stubs
      by_cases own : h = g
      · subst own
        simp
      · simp [own]
    have once : checkMips16Symbols isa dynamic (g :: traversal) t =
        checkMips16Symbols isa dynamic traversal (StubTable.mipsElfCheckMips16Stubs isa dynamic t g) := rfl
    have discards : ∀ h s, Discards isa dynamic (StubTable.mipsElfCheckMips16Stubs isa dynamic t g) h s ↔
        Discards isa dynamic t h s := by
      intro h s
      unfold Discards
      rw [needed]
      rfl
    rw [once]
    refine ⟨links, stub, fun h => ?_, fun s => ?_⟩
    · rw [need, needed]
      by_cases own : h = g
      · subst own
        simp [StubTable.mipsElfCheckMips16Stubs, neededP]
      · simp [StubTable.mipsElfCheckMips16Stubs, own]
    · rw [exclude, exclude_one]
      simp only [discards, List.exists_mem_cons_iff, or_assoc]

variable {traversal : List η} {t : StubTable η σ} {done : List (CheckedSection η σ)}
  {seen : List (CheckedSection η σ × StubReloc η)}

structure StubsSettled (isa : η → IsaMode) (dynamic : η → Bool) (done : List (CheckedSection η σ))
    (seen : List (CheckedSection η σ × StubReloc η)) (t : StubTable η σ) : Prop where
  fnStub : ∀ h s, t.stub (.fnStub h) = some s → (t.exclude s = false ↔ t.needFnStub h = true)
  callStub : ∀ h s, isa h ≠ .mips16 → t.stub (.callStub h) = some s → t.exclude s = false
  callFpStub : ∀ h s, isa h ≠ .mips16 → t.stub (.callFpStub h) = some s → t.exclude s = false
  localStub : ∀ file n s, t.stub (.localStub file n) = some s → t.exclude s = false
  localCallStub : ∀ file n s, t.stub (.localCallStub file n) = some s → t.exclude s = false
  mips16 : ∀ h s, isa h = .mips16 → t.stub (.callStub h) = some s ∨ t.stub (.callFpStub h) = some s → t.exclude s = true
  plain : ∀ sec ∈ done, sectionAllowsMips16RefsP sec.name = false → t.exclude sec.id = false
  needed : ∀ h, t.needFnStub h = true ↔ (∃ s, t.stub (.fnStub h) = some s ∧ dynamic h = true) ∨
    ∃ sec r, (sec, r) ∈ seen ∧ r.sym.map t.links.root = some h

omit [DecidableEq η] [DecidableEq σ] in
theorem StubsLoaded.plainKept (loaded : StubsLoaded done seen t) (distinct : (done.map CheckedSection.id).Nodup)
    {sec : CheckedSection η σ} (member : sec ∈ done) (plain : sectionAllowsMips16RefsP sec.name = false) :
    t.exclude sec.id = false := by
  cases excluded : t.exclude sec.id with
  | false => rfl
  | true =>
    obtain ⟨o, member', same, stub⟩ := loaded.discarded sec.id excluded
    rw [List.inj_on_of_nodup_map distinct member' member same, plain] at stub
    cases stub

/-- The stub at a place is discarded once all symbols are checked. -/
def droppedP (isa : η → IsaMode) (dynamic : η → Bool) (t : StubTable η σ) : Mips16Place η → Bool
  | .fnStub h => !neededP dynamic t h
  | .callStub h | .callFpStub h => isa h = .mips16
  | .localStub _ _ | .localCallStub _ _ => false

omit [DecidableEq η] [DecidableEq σ] in
theorem StubsLoaded.stub_excluded {final : StubTable η σ} (loaded : StubsLoaded done seen t) (all : ∀ h, h ∈ traversal)
    (exclude : ∀ s, final.exclude s = true ↔ t.exclude s = true ∨ ∃ h ∈ traversal, Discards isa dynamic t h s)
    {place : Mips16Place η} {s : σ} (held : t.stub place = some s) :
    final.exclude s = droppedP isa dynamic t place := by
  rw [Bool.eq_iff_iff, exclude, loaded.kept place s held]
  constructor
  · rintro (before | ⟨h, _, ⟨there, unneeded⟩ | ⟨mips16, there | there⟩⟩)
    · cases before
    · rw [loaded.once _ _ s held there, droppedP, unneeded]
      rfl
    · rw [loaded.once _ _ s held there]
      exact decide_eq_true mips16
    · rw [loaded.once _ _ s held there]
      exact decide_eq_true mips16
  · intro dropped
    right
    cases place with
    | fnStub h => exact ⟨h, all h, .inl ⟨held, by simpa [droppedP] using dropped⟩⟩
    | callStub h => exact ⟨h, all h, .inr ⟨of_decide_eq_true dropped, .inl held⟩⟩
    | callFpStub h => exact ⟨h, all h, .inr ⟨of_decide_eq_true dropped, .inr held⟩⟩
    | localStub file n => cases dropped
    | localCallStub file n => cases dropped

omit [DecidableEq η] [DecidableEq σ] in
theorem Discards.held {h : η} {s : σ} (discards : Discards isa dynamic t h s) : ∃ place, t.stub place = some s := by
  rcases discards with ⟨there, _⟩ | ⟨_, there | there⟩
  · exact ⟨_, there⟩
  · exact ⟨_, there⟩
  · exact ⟨_, there⟩

theorem StubsLoaded.settle (loaded : StubsLoaded done seen t) (distinct : (done.map CheckedSection.id).Nodup)
    (all : ∀ h, h ∈ traversal) (isa : η → IsaMode) (dynamic : η → Bool) :
    StubsSettled isa dynamic done seen (checkMips16Symbols isa dynamic traversal t) := by
  obtain ⟨links, stub, need, exclude⟩ := checkMips16Symbols_all isa dynamic traversal t
  generalize checkMips16Symbols isa dynamic traversal t = final at links stub need exclude
  have needs : ∀ h, final.needFnStub h = neededP dynamic t h := fun h => by rw [need, if_pos (all h)]
  have dropped : ∀ place s, final.stub place = some s → final.exclude s = droppedP isa dynamic t place := by
    intro place s held
    rw [stub] at held
    exact loaded.stub_excluded all exclude held
  refine ⟨fun h s held => ?_, fun h s plain held => ?_, fun h s plain held => ?_, fun file n s => dropped _ s,
    fun file n s => dropped _ s, fun h s mips16 held => ?_, fun sec member plain => ?_, fun h => ?_⟩
  · rw [dropped _ s held, needs h]
    simp [droppedP]
  · rw [dropped _ s held]
    exact decide_eq_false plain
  · rw [dropped _ s held]
    exact decide_eq_false plain
  · rcases held with held | held
    · rw [dropped _ s held]
      exact decide_eq_true mips16
    · rw [dropped _ s held]
      exact decide_eq_true mips16
  · cases excluded : final.exclude sec.id with
    | false => rfl
    | true =>
      rcases (exclude sec.id).mp excluded with before | ⟨h, _, discards⟩
      · rw [loaded.plainKept distinct member plain] at before
        cases before
      · obtain ⟨place, held⟩ := discards.held
        obtain ⟨o, member', same, allows⟩ := loaded.known place sec.id held
        rw [List.inj_on_of_nodup_map distinct member' member same, plain] at allows
        cases allows
  · rw [needs h, neededP, Bool.or_eq_true, Bool.and_eq_true, Option.isSome_iff_exists, loaded.noted h, links, stub,
      or_comm, exists_and_right]

end Discard

section Relocate

omit [DecidableEq η] [DecidableEq σ]

variable (t : StubTable η σ) (place : σ → ElfSection) (entry : η → HashEntry)

def withStubs (h : η) : HashEntry :=
  { entry h with
    fnStub := (t.stub (.fnStub h)).map place
    needFnStub := t.needFnStub h
    callStub := (t.stub (.callStub h)).map place
    callFpStub := (t.stub (.callFpStub h)).map place }

def StubReloc.rela (file : Nat) (localSym : ElfSym) (localSec : ElfSection) (offset addend : BfdVma) (r : StubReloc η) :
    InternalRela where
  offset := offset
  type := r.type
  symndx := r.symndx
  sym := match r.sym with
    | some h => .global (withStubs t place entry (t.links.root h))
    | none => .local localSym localSec ((t.stub (.localStub file r.symndx)).map place)
        ((t.stub (.localCallStub file r.symndx)).map place)
  addend := addend

def StubReloc.fnPlace (file : Nat) (r : StubReloc η) : Mips16Place η :=
  match r.sym with
  | some h => .fnStub (t.links.root h)
  | none => .localStub file r.symndx

def StubReloc.fnStart (s : σ) (r : StubReloc η) : ElfSection × BfdVma :=
  ((r.sym.bind fun h => (entry (t.links.root h)).la25Stub)).getD (place s, 0)

/-- What a relocation against a symbol with stubs is redirected to. -/
structure Redirected (relocatable : Bool) (sec : CheckedSection η σ)
    (seen : List (CheckedSection η σ × StubReloc η)) (r : StubReloc η) (calls : Option ElfSection)
    (target u : Target) : Prop where
  toFnStub : ∀ s, relocatable = false → r.type ≠ .rMips16_26 → sectionAllowsMips16RefsP sec.name = false →
    t.stub (r.fnPlace t sec.file) = some s →
      (∀ h, r.sym = some h → (sec, r) ∈ seen ∨ t.needFnStub (t.links.root h) = true) →
        t.exclude s = false ∧ (∀ h, r.sym = some h → t.needFnStub (t.links.root h) = true) ∧
          u.sec = some (r.fnStart t place entry s).1 ∧
          u.symbol = (r.fnStart t place entry s).1.base + (r.fnStart t place entry s).2 ∧ u.is16Bit = false
  toCallStub : ∀ stub, relocatable = false → r.type = .rMips16_26 → target.is16Bit = false → calls = some stub →
    u.sec = some stub ∧ u.symbol = stub.base ∧ ∃ s, stub = place s ∧ t.exclude s = false

end Relocate

section Redirect

variable {t : StubTable η σ} {place : σ → ElfSection} {entry : η → HashEntry} {dynamic : η → Bool}
  {done : List (CheckedSection η σ)} {seen : List (CheckedSection η σ × StubReloc η)} {sec : CheckedSection η σ}
  {r : StubReloc η} {link : ElfLink} {inputSection : ElfSection} {localSym : ElfSym} {localSec : ElfSection}
  {offset addend : BfdVma} {target : Target}

omit [DecidableEq η] [DecidableEq σ] in
theorem StubsSettled.noticed (settled : StubsSettled (fun h => (entry h).isa) dynamic done seen t) {h : η}
    (sym : r.sym = some h) (noticed : (sec, r) ∈ seen ∨ t.needFnStub (t.links.root h) = true) :
    t.needFnStub (t.links.root h) = true := by
  rcases noticed with here | need
  · exact (settled.needed _).mpr (.inr ⟨sec, r, here, by rw [sym, Option.map_some]⟩)
  · exact need

omit [DecidableEq η] [DecidableEq σ] in
theorem StubsSettled.fnStub_of (settled : StubsSettled (fun h => (entry h).isa) dynamic done seen t)
    (place : σ → ElfSection) (localSym : ElfSym) (localSec : ElfSection) (offset addend : BfdVma) {s : σ}
    (held : t.stub (r.fnPlace t sec.file) = some s)
    (noticed : ∀ h, r.sym = some h → t.needFnStub (t.links.root h) = true) :
    t.exclude s = false ∧ fnStubOf (r.rela t place entry sec.file localSym localSec offset addend) =
      some (r.fnStart t place entry s) := by
  cases sym : r.sym with
  | none =>
    simp only [StubReloc.fnPlace, sym] at held
    refine ⟨settled.localStub _ _ s held, ?_⟩
    simp [fnStubOf, StubReloc.rela, StubReloc.fnStart, sym, held]
  | some h =>
    simp only [StubReloc.fnPlace, sym] at held
    have need := noticed h sym
    refine ⟨(settled.fnStub _ s held).mpr need, ?_⟩
    simp [fnStubOf, StubReloc.rela, StubReloc.fnStart, withStubs, sym, held, need]

omit [DecidableEq η] [DecidableEq σ] in
theorem StubsSettled.callStub_of (settled : StubsSettled (fun h => (entry h).isa) dynamic done seen t)
    (code32 : ∀ h, r.sym = some h → (entry (t.links.root h)).isa ≠ .mips16) {stub : ElfSection}
    (calls : callStubOf link (r.rela t place entry sec.file localSym localSec offset addend) = some stub) :
    ∃ s, stub = place s ∧ t.exclude s = false := by
  cases sym : r.sym with
  | none =>
    simp only [callStubOf, StubReloc.rela, sym, Option.map_eq_some_iff] at calls
    obtain ⟨s, held, rfl⟩ := calls
    exact ⟨s, rfl, settled.localCallStub _ _ s held⟩
  | some h =>
    have plain := code32 h sym
    simp only [callStubOf, StubReloc.rela, sym, withStubs] at calls
    cases call : t.stub (.callStub (t.links.root h)) with
    | none =>
      rw [call] at calls
      obtain ⟨s, held, rfl⟩ := Option.map_eq_some_iff.mp calls
      exact ⟨s, rfl, settled.callFpStub _ s plain held⟩
    | some a =>
      have keptCall := settled.callStub _ a plain call
      cases callFp : t.stub (.callFpStub (t.links.root h)) with
      | none =>
        rw [call, callFp] at calls
        exact ⟨a, (Option.some.inj calls).symm, keptCall⟩
      | some b =>
        have keptFp := settled.callFpStub _ b plain callFp
        rw [call, callFp] at calls
        have chosen : (if link.hasCallFpStubSection then place b else place a) = stub := Option.some.inj calls
        split at chosen
        · exact ⟨b, chosen.symm, keptFp⟩
        · exact ⟨a, chosen.symm, keptCall⟩

omit [DecidableEq η] [DecidableEq σ] in
theorem StubsSettled.redirected (settled : StubsSettled (fun h => (entry h).isa) dynamic done seen t)
    (name : inputSection.allowsMips16Refs = sectionAllowsMips16RefsP sec.name)
    (code : ∀ h, r.sym = some h → target.is16Bit = ((entry (t.links.root h)).isa == .mips16)) :
    Redirected t place entry link.relocatable sec seen r
      (callStubOf link (r.rela t place entry sec.file localSym localSec offset addend)) target
      (redirectToStub link inputSection (r.rela t place entry sec.file localSym localSec offset addend) target) where
  toFnStub s final notJump allows held known := by
    have noticed := fun h sym => settled.noticed sym (known h sym)
    obtain ⟨kept, stub⟩ := settled.fnStub_of place localSym localSec offset addend held noticed
    have type : (r.rela t place entry sec.file localSym localSec offset addend).type ≠ .rMips16_26 := notJump
    have redirects : redirectToStub link inputSection (r.rela t place entry sec.file localSym localSec offset addend) target =
        { target with
          sec := some (r.fnStart t place entry s).1
          symbol := (r.fnStart t place entry s).1.base + (r.fnStart t place entry s).2
          is16Bit := false } := by
      simp [redirectToStub, type, final, name, allows, stub]
    rw [redirects]
    exact ⟨kept, noticed, rfl, rfl, rfl⟩
  toCallStub stub final jump code32 calls := by
    have type : (r.rela t place entry sec.file localSym localSec offset addend).type = .rMips16_26 := jump
    have redirects : redirectToStub link inputSection (r.rela t place entry sec.file localSym localSec offset addend) target =
        { target with sec := some stub, symbol := stub.base } := by
      simp [redirectToStub, type, final, code32, calls]
    rw [redirects]
    refine ⟨rfl, rfl, settled.callStub_of (fun h sym mips16 => ?_) calls⟩
    rw [code h sym, mips16] at code32
    cases code32

end Redirect

section Link

variable {steps : List (StubStep η σ)} {loaded : StubTable η σ} {traversal : List η} {dynLink : DynLink}

theorem stubs_settled (ids : ((checkedSections steps).map CheckedSection.id).Nodup)
    (ran : steps.foldlM (stubStep dynLink (checkedSections steps)) .start = .ok loaded) (all : ∀ h, h ∈ traversal)
    (isa : η → IsaMode) (dynamic : η → Bool) :
    StubsSettled isa dynamic (checkedSections steps) (noticedRelocs dynLink (checkedSections steps) .start steps)
      (checkMips16Symbols isa dynamic traversal loaded) :=
  (stubsLoaded_start.run ids ran).settle ids all isa dynamic

/-- No relocation that was noticed goes to a stub that is discarded. -/
theorem redirected_to_kept_stub (ids : ((checkedSections steps).map CheckedSection.id).Nodup)
    (ran : steps.foldlM (stubStep dynLink (checkedSections steps)) .start = .ok loaded) (all : ∀ h, h ∈ traversal)
    (dynamic : η → Bool) (place : σ → ElfSection) (entry : η → HashEntry) (sec : CheckedSection η σ) (r : StubReloc η)
    (link : ElfLink) {inputSection : ElfSection}
    (name : inputSection.allowsMips16Refs = sectionAllowsMips16RefsP sec.name) (localSym : ElfSym)
    (localSec : ElfSection) (offset addend : BfdVma) {target : Target} (code : ∀ h, r.sym = some h →
      target.is16Bit = ((entry (loaded.links.root h)).isa == .mips16)) :
    let t := checkMips16Symbols (fun h => (entry h).isa) dynamic traversal loaded
    let rel := r.rela t place entry sec.file localSym localSec offset addend
    Redirected t place entry link.relocatable sec (noticedRelocs dynLink (checkedSections steps) .start steps) r
      (callStubOf link rel) target (redirectToStub link inputSection rel target) := by
  have settled := stubs_settled ids ran all (fun h => (entry h).isa) dynamic
  have links : (checkMips16Symbols (fun h => (entry h).isa) dynamic traversal loaded).links = loaded.links :=
    (checkMips16Symbols_all _ dynamic traversal loaded).1
  exact settled.redirected name (links ▸ code)

def sampleStubLink : DynLink :=
  { staticLink .big false with
    symbolic := false
    nocopyreloc := false
    usePltsAndCopyRelocs := false
    pltHeaderSize := 0
    pltEntrySize := 0
    gotHeaderSize := 8 }

/-- A stub for `f`, whose definition was found, a call to `g`, and `g` then turns out to be `f`. -/
def sampleStubSteps (call : MipsReloc) (callee : Bool) : List (StubStep Bool Nat) :=
  [.resolve true true false,
    .check ⟨0, 0, ".mips16.fn.f", [⟨.rMipsNone, 3, some true⟩]⟩,
    .check ⟨1, 0, ".text", [⟨call, 4, some callee⟩]⟩,
    .indirect false true]

def sampleLoad (call : MipsReloc) (callee : Bool) : Except StubError (StubTable Bool Nat) :=
  (sampleStubSteps call callee).foldlM (stubStep sampleStubLink (checkedSections (sampleStubSteps call callee))) .start

def sampleStubTable : StubTable Bool Nat := (sampleLoad .rMips26 false).toOption.getD .start

theorem sample_stubs_ran : sampleLoad .rMips26 false = .ok sampleStubTable := by
  rfl

def sampleNoticed : List (CheckedSection Bool Nat × StubReloc Bool) :=
  noticedRelocs sampleStubLink (checkedSections (sampleStubSteps .rMips26 false)) .start (sampleStubSteps .rMips26 false)

def sampleStubPlace (s : Nat) : ElfSection := keptSection 0x400000 (BitVec.ofNat 64 (16 * s))

def sampleStubEntry (_ : Bool) : HashEntry :=
  ⟨0, "f", .defined, 0, some (keptSection 0x400010 0), .mips16, true, false, none, false, none, none, none, false, true,
    true, false, false, true, false⟩

def sampleTarget : Target := ⟨0x400010, 0, some (keptSection 0x400010 0), none, "f", false, false, true, false⟩

def sampleCall : InternalRela :=
  StubReloc.rela (checkMips16Symbols (fun h => (sampleStubEntry h).isa) (fun _ => false) [true, false] sampleStubTable)
    sampleStubPlace sampleStubEntry 0 sectionSym (keptSection 0 0) 4 0 (⟨.rMips26, 4, some false⟩ : StubReloc Bool)

theorem redirected_to_kept_stub_call : sampleStubTable.links.root false = true ∧
    Redirected (checkMips16Symbols (fun h => (sampleStubEntry h).isa) (fun _ => false) [true, false] sampleStubTable)
      sampleStubPlace sampleStubEntry false ⟨1, 0, ".text", [⟨.rMips26, 4, some false⟩]⟩
      sampleNoticed ⟨.rMips26, 4, some false⟩ (callStubOf (staticLink .big false) sampleCall) sampleTarget
      (redirectToStub (staticLink .big false) (keptSection 0x400010 0) sampleCall sampleTarget) :=
  ⟨rfl, redirected_to_kept_stub (by decide) sample_stubs_ran (by decide) (fun _ => false) sampleStubPlace sampleStubEntry
    ⟨1, 0, ".text", [⟨.rMips26, 4, some false⟩]⟩ ⟨.rMips26, 4, some false⟩ (staticLink .big false) rfl sectionSym
    (keptSection 0 0) 4 0 fun h sym => rfl⟩

/-- For the GOT page of a symbol that is not overridable nothing is noted, and the stub is discarded. -/
example : (sampleLoad .rMipsGotPage true).map
    (fun loaded => (checkMips16Symbols (fun _ => .mips16) (fun _ => false) [true, false] loaded).exclude 0) =
      .ok true := by
  decide

end Link

end Openisa.Stubs
