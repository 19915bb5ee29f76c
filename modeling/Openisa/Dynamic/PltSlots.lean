import Openisa.Dynamic.AbsoluteRoom
import Openisa.Library.JoinRun
import Openisa.Library.Numbering

/-! Which PLT entries and lazy-binding stubs the symbols get when they are adjusted one after another. -/

namespace Openisa.Dynamic

open Openisa.Bfd
open Openisa.Elf
open Openisa.Got
open Openisa.Library

/-- The link as its dynamic sections were created. The PLT of a program has a header of eight words and entries of
four; a shared library has no PLT, as `BFD_ASSERT (!info->shared)` says where it would be finished. -/
structure DynLink.PltCreated (link : DynLink) : Prop where
  plain : link.isVxworks = false
  gotHeader : link.gotHeaderSize = 8
  program : link.usePltsAndCopyRelocs = true → link.shared = false
  header : link.shared = false → link.pltHeaderSize = 32
  entry : link.shared = false → link.pltEntrySize = 16

structure PltSections.Holds (plt : PltSections) (count : Nat) : Prop where
  splt : plt.splt = if count = 0 then 0 else 32 + 16 * count
  sgotplt : plt.sgotplt = if count = 0 then 0 else 8 + 4 * count
  srelplt : plt.srelplt = 8 * count

theorem PltSections.Holds.entry {link : DynLink} (created : link.PltCreated) (program : link.shared = false)
    {plt : PltSections} {count : Nat} (holds : plt.Holds count) :
    (plt.header link).splt = 32 + 16 * count ∧ ((plt.header link).entry link).Holds (count + 1) := by
  obtain ⟨splt, sgotplt, srelplt⟩ := holds
  have rel : relSize link = 8 := by simp [relSize, created.plain]
  unfold PltSections.entry PltSections.header
  rw [created.plain, created.header program, created.entry program, created.gotHeader, rel]
  by_cases first : count = 0
  · rw [if_pos first] at splt sgotplt
    subst first
    rw [if_neg (by simp [splt])]
    refine ⟨by simp [splt], ⟨by simp [splt], by simp [sgotplt], by simp [srelplt]⟩⟩
  · rw [if_neg first] at splt sgotplt
    rw [if_pos (by omega)]
    refine ⟨splt, ⟨?_, ?_, ?_⟩⟩
    · dsimp only
      rw [if_neg (by omega)]
      omega
    · dsimp only
      rw [if_neg (by omega)]
      omega
    · dsimp only
      omega

variable {η : Type}

structure MipsSymbol.SameStubs (old new : MipsSymbol η) : Prop where
  pltOffset : new.pltOffset = old.pltOffset
  needsLazyStub : new.needsLazyStub = old.needsLazyStub
  noFnStub : new.noFnStub = old.noFnStub
  typeFunc : new.typeFunc = old.typeFunc

theorem MipsSymbol.SameStubs.refl (s : MipsSymbol η) : s.SameStubs s := ⟨rfl, rfl, rfl, rfl⟩

/-- The generic linker leaves the PLT entry and the stub of a symbol to the MIPS backend. -/
structure Generic.KeepsStubs (generic : Generic η) : Prop where
  dynamicCopy : ∀ s : MipsSymbol η, s.SameStubs (s.settle (generic.dynamicCopy s))
  copyFlags : ∀ dir ind : MipsSymbol η,
    dir.SameStubs (dir.settle (generic.copyFlags dir ind).1) ∧ ind.SameStubs (ind.settle (generic.copyFlags dir ind).2)

variable [DecidableEq η]

/-- A symbol is adjusted once, and not settled anew after that. Functions have no aliases. -/
def AdjustStep.Sound (st : AdjustState η) : AdjustStep η → Prop
  | .adjust h => (st.table.symbol h).pltOffset = none ∧ (st.table.symbol h).needsLazyStub = false
  | .alias dir _ => (st.table.symbol dir).typeFunc = false
  | .resolve h s => (st.table.symbol h).SameStubs ((st.table.symbol h).settle s)

def AdjustsTo (link : DynLink) (generic : Generic η) (step : AdjustStep η) (st st' : AdjustState η) : Prop :=
  adjustStep link generic st step = .ok st' ∧ step.Sound st

/-- The PLT entries are numbered in the order in which they were given, and the stubs are counted. -/
structure PltSlots (link : DynLink) (st : AdjustState η) (number : η → Option Nat) (owners marked : List η) : Prop where
  numbered : Numbered number owners
  used : owners ≠ [] → link.usePltsAndCopyRelocs = true
  offset : ∀ h, (st.table.symbol h).pltOffset = (number h).map fun n => 32 + 16 * n
  sections : st.plt.Holds owners.length
  distinct : marked.Nodup
  lazy : ∀ h, (st.table.symbol h).needsLazyStub = true ↔ h ∈ marked
  count : st.lazyStubCount = marked.length
  callsOnly : ∀ h ∈ marked, (st.table.symbol h).noFnStub = false
  static : ∀ h, (st.table.symbol h).typeFunc = true → (st.table.symbol h).entry.hasStaticRelocs = true →
    (st.table.symbol h).noFnStub = true
  addressed : ∀ h ∈ owners, (st.table.symbol h).noFnStub = true

section Step

variable {link : DynLink} {generic : Generic η} {st st' : AdjustState η}

theorem adjustDynamicSymbol_cases (plain : link.isVxworks = false) (keeps : generic.KeepsStubs) {h : η}
    (ran : adjustDynamicSymbol link generic.dynamicCopy h st = .ok st') :
    (st' = { st with
        table := st.table.modify h fun s => { s with needsLazyStub := true }
        lazyStubCount := st.lazyStubCount + 1 } ∧ (st.table.symbol h).noFnStub = false) ∨
      (∃ plt, plt = st.plt.header link ∧ takesPltP link (st.table.symbol h) = true ∧
        st' = { st with table := st.table.modify h (MipsSymbol.assignPlt link plt.splt), plt := plt.entry link }) ∨
      ((∀ g, (st.table.symbol g).SameStubs (st'.table.symbol g) ∧
          (st'.table.symbol g).entry.hasStaticRelocs = (st.table.symbol g).entry.hasStaticRelocs) ∧
        st'.plt = st.plt ∧ st'.lazyStubCount = st.lazyStubCount) := by
  have one : ∀ (f : MipsSymbol η → MipsSymbol η) (t : AdjustState η), t.table = st.table.modify h f →
      (st.table.symbol h).SameStubs (f (st.table.symbol h)) →
      (f (st.table.symbol h)).entry.hasStaticRelocs = (st.table.symbol h).entry.hasStaticRelocs →
      ∀ g, (st.table.symbol g).SameStubs (t.table.symbol g) ∧
        (t.table.symbol g).entry.hasStaticRelocs = (st.table.symbol g).entry.hasStaticRelocs := by
    intro f t table same static g
    rw [table]
    by_cases own : g = h
    · subst own
      rw [SymbolTable.modify_symbol]
      exact ⟨same, static⟩
    · rw [SymbolTable.modify_symbol_ne _ _ _ own]
      exact ⟨.refl _, rfl⟩
  unfold adjustDynamicSymbol at ran
  dsimp only at ran
  split at ran
  · next stub =>
    split at ran <;> cases ran
    · exact .inr (.inr ⟨fun _ => ⟨.refl _, rfl⟩, rfl, rfl⟩)
    · refine .inl ⟨rfl, ?_⟩
      simp [MipsSymbol.callsOnly] at stub
      exact stub.1.2.2
  · split at ran
    · next taken =>
      cases ran
      exact .inr (.inl ⟨_, rfl, taken, rfl⟩)
    · split at ran
      · next weakdef _ =>
        cases ran
        have moved := one (fun s => { s with entry := { s.entry with
          sec := (st.table.symbol weakdef).entry.sec, value := (st.table.symbol weakdef).entry.value } })
        exact .inr (.inr ⟨moved _ rfl ⟨rfl, rfl, rfl, rfl⟩ rfl, rfl, rfl⟩)
      · split at ran
        · cases ran
          exact .inr (.inr ⟨fun _ => ⟨.refl _, rfl⟩, rfl, rfl⟩)
        · split at ran
          · cases ran
            exact .inr (.inr ⟨fun _ => ⟨.refl _, rfl⟩, rfl, rfl⟩)
          · split at ran
            · cases ran
            · have copied := fun t table => one (MipsSymbol.assignCopy generic.dynamicCopy) t table
                ⟨(keeps.dynamicCopy _).pltOffset, (keeps.dynamicCopy _).needsLazyStub, (keeps.dynamicCopy _).noFnStub,
                  (keeps.dynamicCopy _).typeFunc⟩ rfl
              split at ran
              · cases ran
                exact .inr (.inr ⟨copied _ rfl, rfl, rfl⟩)
              · rw [if_neg (by simp [plain])] at ran
                cases ran
                exact .inr (.inr ⟨copied _ rfl, rfl, rfl⟩)

variable {number : η → Option Nat} {owners marked : List η}

omit [DecidableEq η] in
theorem PltSlots.of_same (slots : PltSlots link st number owners marked)
    (symbols : ∀ g, (st.table.symbol g).SameStubs (st'.table.symbol g))
    (static : ∀ g, (st.table.symbol g).typeFunc = true → (st'.table.symbol g).entry.hasStaticRelocs = true →
      (st.table.symbol g).entry.hasStaticRelocs = true)
    (plt : st'.plt = st.plt) (count : st'.lazyStubCount = st.lazyStubCount) : PltSlots link st' number owners marked where
  numbered := slots.numbered
  used := slots.used
  offset h := (symbols h).pltOffset.trans (slots.offset h)
  sections := plt ▸ slots.sections
  distinct := slots.distinct
  lazy h := by rw [(symbols h).needsLazyStub, slots.lazy h]
  count := count.trans slots.count
  callsOnly h member := (symbols h).noFnStub.trans (slots.callsOnly h member)
  static h function marked := by
    rw [(symbols h).typeFunc] at function
    rw [(symbols h).noFnStub]
    exact slots.static h function (static h function marked)
  addressed h member := (symbols h).noFnStub.trans (slots.addressed h member)

theorem PltSlots.mark (slots : PltSlots link st number owners marked) {h : η}
    (new : (st.table.symbol h).needsLazyStub = false) (callsOnly : (st.table.symbol h).noFnStub = false) :
    PltSlots link { st with
      table := st.table.modify h fun s => { s with needsLazyStub := true }
      lazyStubCount := st.lazyStubCount + 1 } number owners (h :: marked) := by
  have fresh : h ∉ marked := fun member => by
    rw [(slots.lazy h).mpr member] at new
    cases new
  have others : ∀ g, (st.table.modify h fun s => { s with needsLazyStub := true }).symbol g =
      { st.table.symbol g with needsLazyStub := if g = h then true else (st.table.symbol g).needsLazyStub } := by
    intro g
    by_cases own : g = h
    · subst own
      rw [SymbolTable.modify_symbol, if_pos rfl]
    · rw [SymbolTable.modify_symbol_ne _ _ _ own, if_neg own]
  refine ⟨slots.numbered, slots.used, fun g => ?_, slots.sections, List.nodup_cons.mpr ⟨fresh, slots.distinct⟩, fun g => ?_,
    by rw [slots.count, List.length_cons], fun g member => ?_, fun g => ?_, fun g member => ?_⟩
  all_goals rw [others g]
  · exact slots.offset g
  · rw [List.mem_cons]
    by_cases own : g = h
    · simp [own]
    · simpa [own] using slots.lazy g
  · rcases List.mem_cons.mp member with own | old
    · exact own ▸ callsOnly
    · exact slots.callsOnly g old
  · exact slots.static g
  · exact slots.addressed g member

omit [DecidableEq η] in
theorem PltSlots.takes_plt (plain : link.isVxworks = false) (slots : PltSlots link st number owners marked) {h : η}
    (taken : takesPltP link (st.table.symbol h) = true) : (st.table.symbol h).noFnStub = true := by
  have function : (st.table.symbol h).typeFunc = true := by
    unfold takesPltP at taken
    cases calls : (st.table.symbol h).callsOnly <;> simp_all
  exact slots.static h function (takes_plt_static plain taken)

theorem PltSlots.assign (created : link.PltCreated) (slots : PltSlots link st number owners marked) {h : η}
    (new : (st.table.symbol h).pltOffset = none) (taken : takesPltP link (st.table.symbol h) = true) :
    PltSlots link { st with
        table := st.table.modify h (MipsSymbol.assignPlt link (st.plt.header link).splt)
        plt := (st.plt.header link).entry link }
      (Function.update number h (some owners.length)) (owners ++ [h]) marked := by
  have unnumbered : number h = none := by
    have offset := slots.offset h
    rw [new] at offset
    exact Option.map_eq_none_iff.mp offset.symm
  have uses : link.usePltsAndCopyRelocs = true := by
    unfold takesPltP at taken
    simp_all
  obtain ⟨start, sections⟩ := slots.sections.entry created (created.program uses)
  have others : ∀ g, ((st.table.modify h (MipsSymbol.assignPlt link (st.plt.header link).splt)).symbol g) =
      if g = h then MipsSymbol.assignPlt link (st.plt.header link).splt (st.table.symbol g) else st.table.symbol g := by
    intro g
    by_cases own : g = h
    · subst own
      rw [SymbolTable.modify_symbol, if_pos rfl]
    · rw [SymbolTable.modify_symbol_ne _ _ _ own, if_neg own]
  have kept : ∀ g (s : MipsSymbol η), s = (st.table.modify h
      (MipsSymbol.assignPlt link (st.plt.header link).splt)).symbol g →
        s.needsLazyStub = (st.table.symbol g).needsLazyStub ∧ s.noFnStub = (st.table.symbol g).noFnStub ∧
          s.typeFunc = (st.table.symbol g).typeFunc ∧
          s.entry.hasStaticRelocs = (st.table.symbol g).entry.hasStaticRelocs := by
    rintro g s rfl
    rw [others g]
    unfold MipsSymbol.assignPlt
    split
    · dsimp only
      split <;> exact ⟨rfl, rfl, rfl, rfl⟩
    · exact ⟨rfl, rfl, rfl, rfl⟩
  refine ⟨slots.numbered.append unnumbered, fun _ => uses, fun g => ?_, ?_, slots.distinct, fun g => ?_, slots.count,
    fun g member => ?_, fun g => ?_, fun g member => ?_⟩
  · rw [others g]
    by_cases own : g = h
    · rw [if_pos own, own, Function.update_self, Option.map_some, ← start]
      rfl
    · rw [if_neg own, Function.update_of_ne own]
      exact slots.offset g
  · rw [List.length_append, List.length_singleton]
    exact sections
  · rw [(kept g _ rfl).1]
    exact slots.lazy g
  · rw [(kept g _ rfl).2.1]
    exact slots.callsOnly g member
  · rw [(kept g _ rfl).2.1, (kept g _ rfl).2.2.1, (kept g _ rfl).2.2.2]
    exact slots.static g
  · rw [(kept g _ rfl).2.1]
    rcases List.mem_append.mp member with old | last
    · exact slots.addressed g old
    · rw [List.mem_singleton.mp last]
      exact slots.takes_plt created.plain taken

theorem copyAlias_same (keeps : generic.KeepsStubs) (dir ind : η) (g : η) :
    (st.table.symbol g).SameStubs ((copyAlias generic.copyFlags dir ind st.table).symbol g) ∧
      (g ≠ dir → ((copyAlias generic.copyFlags dir ind st.table).symbol g).entry.hasStaticRelocs =
        (st.table.symbol g).entry.hasStaticRelocs) := by
  obtain ⟨toDir, toInd⟩ := keeps.copyFlags (st.table.symbol dir) (st.table.symbol ind)
  unfold copyAlias
  split
  · exact ⟨.refl _, fun _ => rfl⟩
  · dsimp only
    by_cases target : g = dir
    · subst target
      rw [Function.update_self]
      exact ⟨⟨toDir.pltOffset, toDir.needsLazyStub, toDir.noFnStub, toDir.typeFunc⟩, fun other => absurd rfl other⟩
    · rw [Function.update_of_ne target]
      by_cases source : g = ind
      · subst source
        rw [Function.update_self]
        exact ⟨⟨toInd.pltOffset, toInd.needsLazyStub, toInd.noFnStub, toInd.typeFunc⟩, fun _ => rfl⟩
      · rw [Function.update_of_ne source]
        exact ⟨.refl _, fun _ => rfl⟩

theorem PltSlots.step (created : link.PltCreated) (keeps : generic.KeepsStubs)
    (slots : PltSlots link st number owners marked) {step : AdjustStep η} (taken : AdjustsTo link generic step st st') :
    ∃ number owners marked, PltSlots link st' number owners marked := by
  obtain ⟨ran, sound⟩ := taken
  cases step with
  | adjust h =>
    obtain ⟨unassigned, unmarked⟩ := sound
    rcases adjustDynamicSymbol_cases created.plain keeps ran with
      ⟨rfl, calls⟩ | ⟨plt, rfl, takes, rfl⟩ | ⟨symbols, plt, count⟩
    · exact ⟨number, owners, h :: marked, slots.mark unmarked calls⟩
    · exact ⟨_, owners ++ [h], marked, slots.assign created unassigned takes⟩
    · exact ⟨number, owners, marked,
        slots.of_same (fun g => (symbols g).1) (fun g _ after => (symbols g).2 ▸ after) plt count⟩
  | «alias» dir ind =>
    cases ran
    have noFunction : (st.table.symbol dir).typeFunc = false := sound
    refine ⟨number, owners, marked, slots.of_same (fun g => (copyAlias_same keeps dir ind g).1) ?_ rfl rfl⟩
    intro g function after
    have other : g ≠ dir := by
      rintro rfl
      rw [noFunction] at function
      cases function
    exact (copyAlias_same keeps dir ind g).2 other ▸ after
  | resolve h s =>
    cases ran
    have settled : ∀ g, (st.table.symbol g).SameStubs ((st.table.modify h fun old => old.settle s).symbol g) ∧
        ((st.table.modify h fun old => old.settle s).symbol g).entry.hasStaticRelocs =
          (st.table.symbol g).entry.hasStaticRelocs := by
      intro g
      by_cases own : g = h
      · subst own
        rw [SymbolTable.modify_symbol]
        exact ⟨sound, rfl⟩
      · rw [SymbolTable.modify_symbol_ne _ _ _ own]
        exact ⟨.refl _, rfl⟩
    exact ⟨number, owners, marked,
      slots.of_same (fun g => (settled g).1) (fun g _ after => (settled g).2 ▸ after) rfl rfl⟩

theorem PltSlots.run (created : link.PltCreated) (keeps : generic.KeepsStubs) {steps : List (AdjustStep η)}
    (slots : PltSlots link st number owners marked) (run : Run (AdjustsTo link generic) steps st st') :
    ∃ number owners marked, PltSlots link st' number owners marked := by
  have kept : ∀ step ∈ steps, ∀ s t, AdjustsTo link generic step s t →
      (∃ number owners marked, PltSlots link s number owners marked) →
        ∃ number owners marked, PltSlots link t number owners marked := by
    rintro step - s t taken ⟨_, _, _, before⟩
    exact before.step created keeps taken
  exact run.invariant kept ⟨number, owners, marked, slots⟩

end Step

section Load

variable {link : DynLink}

omit [DecidableEq η] in
theorem noteReloc_static (plain : link.isVxworks = false) (r : LinkReloc η) (h : MipsSymbol η)
    (before : h.entry.hasStaticRelocs = true → h.noFnStub = true)
    (marked : (noteReloc link r h).entry.hasStaticRelocs = true) : (noteReloc link r h).noFnStub = true := by
  have dynamic : ∀ s : MipsSymbol η, (noteDynamic link r s).entry.hasStaticRelocs = s.entry.hasStaticRelocs ∧
      (noteDynamic link r s).noFnStub = s.noFnStub := by
    intro s
    unfold noteDynamic
    split
    · exact ⟨rfl, rfl⟩
    · split <;> exact ⟨rfl, rfl⟩
  have static : (noteStatic link r h).noFnStub = h.noFnStub ∧
      (relocUse r.type = .got ∨ relocUse r.type = .hint →
        (noteStatic link r h).entry.hasStaticRelocs = h.entry.hasStaticRelocs) := by
    unfold noteStatic
    cases use : relocUse r.type <;> simp
    split
    · rfl
    · split <;> rfl
  have calls : callRelocP r.type = true → relocUse r.type = .got := by
    unfold callRelocP
    cases r.type <;> decide
  have pages : ∀ defRegular forcedLocal, forgetsSymbolP link r.type defRegular forcedLocal = true →
      relocUse r.type = .got := by
    intro defRegular forcedLocal forgotten
    unfold forgetsSymbolP at forgotten
    revert forgotten
    cases r.type <;> simp [MipsReloc.gotPageRelocP, MipsReloc.tlsLdmRelocP, relocUse]
  have marks := note_reloc_static link r h
  by_cases idle : relocUse r.type = .got ∨ relocUse r.type = .hint
  · have kept := before (by rw [← static.2 idle, ← marks]; exact marked)
    rw [noteReloc, noteStub]
    split
    · rw [(dynamic _).2, static.1, kept]
    · rw [(dynamic _).2, static.1, kept]
      rfl
  · push Not at idle
    have uncalled : callRelocP r.type = false := by
      by_contra called
      exact idle.1 (calls (by simpa using called))
    rw [noteReloc, noteStub, if_neg fun forgotten => idle.1 (pages _ _ forgotten)]
    simp [uncalled, idle.2, plain]

theorem loaded_static (plain : link.isVxworks = false) (copy : CopyFlags η) (id : η → Nat) (name : η → String)
    {steps : List (LoadStep η)} {st : LoadState η} (ran : loadAll link copy (LoadState.start id name) steps = .ok st)
    (h : η) : (st.table.symbol h).entry.hasStaticRelocs = true → (st.table.symbol h).noFnStub = true := by
  have one : ∀ (table : SymbolTable η) g (f : MipsSymbol η → MipsSymbol η),
      (∀ h, (table.symbol h).entry.hasStaticRelocs = true → (table.symbol h).noFnStub = true) →
      ((f (table.symbol g)).entry.hasStaticRelocs = true → (f (table.symbol g)).noFnStub = true) →
        ∀ h, ((table.modify g f).symbol h).entry.hasStaticRelocs = true → ((table.modify g f).symbol h).noFnStub = true := by
    intro table g f before changed h
    by_cases own : h = g
    · subst own
      rwa [SymbolTable.modify_symbol]
    · rw [SymbolTable.modify_symbol_ne _ _ _ own]
      exact before h
  have kept : ∀ step ∈ steps, ∀ s t : LoadState η, loadStep link copy s step = .ok t →
      (∀ h, (s.table.symbol h).entry.hasStaticRelocs = true → (s.table.symbol h).noFnStub = true) →
        ∀ h, (t.table.symbol h).entry.hasStaticRelocs = true → (t.table.symbol h).noFnStub = true := by
    rintro step - s t ran before
    cases step with
    | check r =>
      unfold loadStep checkReloc at ran
      dsimp only at ran
      split at ran
      · cases ran
      · split at ran
        · cases ran
        · split at ran
          · cases ran
          · cases ran
            split
            · unfold checkLocal
              split <;> exact before
            · next g _ => exact one _ g _ before (noteReloc_static plain r _ (before g))
    | indirect ind dir =>
      cases ran
      unfold makeIndirect
      dsimp only
      split
      · exact before
      · intro h
        dsimp only
        by_cases target : h = s.table.links.root dir
        · rw [target, Function.update_self]
          intro marked
          rcases Bool.or_eq_true_iff.mp marked with own | other
          · exact Bool.or_eq_true_iff.mpr (.inl (before _ own))
          · exact Bool.or_eq_true_iff.mpr (.inr (before _ other))
        · rw [Function.update_of_ne target]
          by_cases source : h = s.table.links.root ind
          · rw [source, Function.update_self]
            exact before _
          · rw [Function.update_of_ne source]
            exact before h
    | resolve g s' =>
      cases ran
      exact one _ g (fun old => old.settle s') before (before g)
  have start : ∀ h, ((LoadState.start id name).table.symbol h).entry.hasStaticRelocs = true →
      ((LoadState.start id name).table.symbol h).noFnStub = true := fun _ none => by
    simp [LoadState.start, MipsSymbol.new] at none
  exact (Run.of_foldlM ran).invariant kept start h

end Load

/-- Nothing is adjusted yet, and the symbols are as loading has left them. -/
structure AdjustState.Fresh (st : AdjustState η) : Prop where
  sections : st.plt.Holds 0
  pltOffset : ∀ h, (st.table.symbol h).pltOffset = none
  needsLazyStub : ∀ h, (st.table.symbol h).needsLazyStub = false
  count : st.lazyStubCount = 0

theorem AdjustState.Fresh.slots {link : DynLink} (created : link.PltCreated) {copy : CopyFlags η} {id : η → Nat}
    {name : η → String} {loads : List (LoadStep η)} {loaded : LoadState η}
    (loading : loadAll link copy (LoadState.start id name) loads = .ok loaded) {st : AdjustState η}
    (same : st.table = loaded.table) (fresh : st.Fresh) : PltSlots link st (fun _ => none) [] [] where
  numbered := .nil fun _ => rfl
  used some := absurd rfl some
  offset := fresh.pltOffset
  sections := fresh.sections
  distinct := List.nodup_nil
  lazy h := by simp [fresh.needsLazyStub h]
  count := fresh.count
  callsOnly _ none := absurd none List.not_mem_nil
  static h _ marked := by
    rw [same] at marked ⊢
    exact loaded_static created.plain copy id name loading h marked
  addressed _ none := absurd none List.not_mem_nil

/-- Whatever is loaded, and however the symbols are then adjusted: the PLT entries are numbered without gaps, no two
symbols share one, the sections are as large as the entries need, the stubs are counted, and `no_fn_stub` tells the
symbols with PLT entries from those with stubs. -/
theorem linked_plt_slots {link : DynLink} {generic : Generic η} (created : link.PltCreated) (keeps : generic.KeepsStubs)
    {id : η → Nat} {name : η → String} {loads : List (LoadStep η)} {loaded : LoadState η}
    (loading : loadAll link generic.copyFlags (LoadState.start id name) loads = .ok loaded) {st st' : AdjustState η}
    (same : st.table = loaded.table) (fresh : st.Fresh) {adjusts : List (AdjustStep η)}
    (run : Run (AdjustsTo link generic) adjusts st st') :
    ∃ number owners marked, PltSlots link st' number owners marked :=
  (fresh.slots created loading same).run created keeps run

def programLink : DynLink := { sharedLink with shared := false, pltHeaderSize := 32, pltEntrySize := 16 }

def calledFunction : MipsSymbol Unit :=
  { externalFunction with
    entry := { externalFunction.entry with hasStaticRelocs := true, needFnStub := true }
    noFnStub := true }

def calledLoaded : LoadState Unit := ⟨⟨.own, fun _ => calledFunction⟩, .empty, false, false⟩

def calledStart : AdjustState Unit := ⟨calledLoaded.table, .empty, ⟨0, 0, 0, 0, 0⟩, 0⟩

def calledAdjusted : AdjustState Unit where
  table := calledStart.table.modify () (MipsSymbol.assignPlt programLink 32)
  relDyn := .empty
  plt := ⟨48, 12, 8, 0, 0⟩
  lazyStubCount := 0

theorem called_run : Run (AdjustsTo programLink plainGeneric) [.adjust ()] calledStart calledAdjusted :=
  .cons ⟨rfl, rfl, rfl⟩ (.nil _)

theorem programLink_created : programLink.PltCreated := ⟨rfl, rfl, fun _ => rfl, fun _ => rfl, fun _ => rfl⟩

theorem plainGeneric_keeps : plainGeneric.KeepsStubs :=
  ⟨fun _ => ⟨rfl, rfl, rfl, rfl⟩, fun _ _ => ⟨⟨rfl, rfl, rfl, rfl⟩, ⟨rfl, rfl, rfl, rfl⟩⟩⟩

theorem called_loaded : loadAll programLink plainGeneric.copyFlags (LoadState.start (fun _ => 0) fun _ => "f")
    [.resolve () externalFunction, .check (functionReloc .rMips26 0)] = .ok calledLoaded := rfl

theorem linked_plt_slots_called : ∃ number owners marked, PltSlots programLink calledAdjusted number owners marked :=
  linked_plt_slots programLink_created plainGeneric_keeps called_loaded rfl
    ⟨⟨rfl, rfl, rfl⟩, fun _ => rfl, fun _ => rfl, rfl⟩ called_run

end Openisa.Dynamic
