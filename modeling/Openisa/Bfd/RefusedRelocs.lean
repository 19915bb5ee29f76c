import Openisa.Bfd.AddressLimits

/-! The statuses that the relocation loop has no answer to, and the sections that it returns from. -/

namespace Openisa.Bfd

open Openisa.Library
open Openisa.Library.ByteStore

variable {lib : BfdLib} (order : Endian)

def answeredP : BfdRelocStatus → Bool
  | .ok | .undefined | .dangerous | .overflow => true
  | .outofrange | .continue | .notsupported => false

/-- A gp-relative relocation for which gp is found, at a bad address. -/
def GprelRefused (ctx : LinkContext) (job : LinkOrder) (parent : Arelent) (s : RelocState) : Prop :=
  (mipsElfFinalGp ctx.outsymbols parent.sym job.relocatable s).1 = .ok ∧
    parent.address > job.inputSection.limit

def keptExternalP (job : LinkOrder) (parent : Arelent) : Bool :=
  job.relocatable && !parent.sym.flags.sectionSym && parent.sym.flags.isLocal

/-- The relocations that make the loop abort. Those that are left to libbfd are up to it. -/
def Refused (ctx : LinkContext) (job : LinkOrder) (parent : Arelent) (s : RelocState) : Prop :=
  if job.gpFound && parent.howto.specialFunction == some .bfdMipsElf32Gprel16Reloc then
    parent.address > job.inputSection.limit
  else if job.relocatable && parent.sym.asection.kind == .absolute then False
  else match parent.howto.specialFunction with
    | some .bfdMipsElfGenericReloc | some .bfdMipsElfHi16Reloc | some .bfdMipsElfGot16Reloc
    | some .bfdMipsElfLo16Reloc => parent.address > job.inputSection.limit
    | some .bfdMipsElf32Gprel16Reloc =>
        (ctx.lib.literalRelocP parent.howto.type && keptExternalP job parent) = true ∨
          GprelRefused ctx job parent s
    | some .mips16GprelReloc => keptExternalP job parent = false ∧ GprelRefused ctx job parent s
    | some .mipsElfGprel32Reloc => keptExternalP job parent = true ∨ GprelRefused ctx job parent s
    | some .mips3264bitReloc => (reloc32Of ctx.order parent).address > job.inputSection.limit
    | some .bfdElfGenericReloc | some .bfdElfRelVtableRelocFn | none =>
        answeredP (relocateParent ctx job parent s).status = false

variable {ctx : LinkContext} {job : LinkOrder}

theorem field_status_refused {status : BfdRelocStatus} (field : fieldStatusP status = true) :
    answeredP status = false ↔ status = .outofrange := by
  revert field
  cases status <;> decide

theorem gprel16_with_gp_refused (verdicts : lib.OkOrOverflow) (symbol : Asymbol) (entry : Arelent)
    (inputSection : Asection) (relocatable : Bool) (data : DataPtr) (gp : BfdVma) (s : RelocState) :
    (bfdMipsElfGprel16WithGp lib order symbol entry inputSection relocatable data gp s).status = .outofrange ↔
      entry.address > inputSection.limit := by
  by_cases outside : entry.address > inputSection.limit
  · simp [bfdMipsElfGprel16WithGp, outside]
  · simp only [outside, iff_false, bfdMipsElfGprel16WithGp, if_false]
    generalize (if (!relocatable || symbol.flags.sectionSym) = true then
      entry.addend + (gprelRelocation symbol - gp) else entry.addend) = val
    split
    · rcases verdicts entry.howto order val (s.mem data) entry.address.toNat with ok | overflow
      · simp [ok]
      · simp [overflow]
    · exact fun refused => BfdRelocStatus.noConfusion refused

theorem final_gp_status (outsymbols : Option (List OutSymbol)) (symbol : Asymbol) (relocatable : Bool)
    (s : RelocState) : answeredP (mipsElfFinalGp outsymbols symbol relocatable s).1 = true := by
  rw [mipsElfFinalGp]
  split
  · rfl
  · split
    · split
      · rfl
      · split <;> rfl
    · rfl

theorem gprel16_at_location_status (verdicts : lib.OkOrOverflow) (outsymbols : Option (List OutSymbol))
    (entry : Arelent) (symbol : Asymbol) (data : DataPtr) (inputSection : Asection) (relocatable : Bool)
    (s : RelocState) :
    let r := gprel16AtLocation lib order outsymbols entry symbol data inputSection relocatable s
    r.status ≠ .continue ∧ (answeredP r.status = false ↔
      (mipsElfFinalGp outsymbols symbol relocatable s).1 = .ok ∧ entry.address > inputSection.limit) := by
  have answered := final_gp_status outsymbols symbol relocatable s
  rw [gprel16AtLocation]
  generalize mipsElfFinalGp outsymbols symbol relocatable s = found at answered ⊢
  rcases found with ⟨ret, gp, s', message⟩
  cases ret with
  | ok =>
      have field : fieldStatusP (bfdMipsElfGprel16WithGp lib order symbol entry inputSection relocatable data gp
          (s'.setData data (bfdMipsElfRelocUnshuffle order entry.howto.type false (s'.mem data)
            entry.address.toNat))).status = true := gprel16_with_gp_status verdicts _ _ _ _ _ _ _
      have refused := gprel16_with_gp_refused order verdicts symbol entry inputSection relocatable data gp
        (s'.setData data (bfdMipsElfRelocUnshuffle order entry.howto.type false (s'.mem data)
          entry.address.toNat))
      refine ⟨(field_status_finished field).1, ?_⟩
      rw [field_status_refused field, refused]
      simp
  | undefined | dangerous | overflow => exact ⟨by simp, by simp [answeredP]⟩
  | outofrange | «continue» | notsupported => cases answered

theorem gprel32_status (outsymbols : Option (List OutSymbol)) (entry : Arelent) (data : DataPtr)
    (inputSection : Asection) (relocatable : Bool) (s : RelocState) :
    let r := mipsElfGprel32Reloc order outsymbols entry entry.sym data inputSection relocatable s
    r.status ≠ .continue ∧ (answeredP r.status = false ↔
      (relocatable && !entry.sym.flags.sectionSym && entry.sym.flags.isLocal) = true ∨
      (mipsElfFinalGp outsymbols entry.sym relocatable s).1 = .ok ∧ entry.address > inputSection.limit) := by
  have answered := final_gp_status outsymbols entry.sym relocatable s
  rw [mipsElfGprel32Reloc]
  split
  · rename_i kept
    simp [kept, answeredP]
  · rename_i live
    generalize mipsElfFinalGp outsymbols entry.sym relocatable s = found at answered ⊢
    rcases found with ⟨ret, gp, s', message⟩
    cases ret with
    | ok =>
        by_cases outside : entry.address > inputSection.limit
        · simp [gprel32WithGp, outside, answeredP]
        · simp only [gprel32WithGp, outside, if_false]
          split <;> simp [live, answeredP]
    | undefined | dangerous | overflow => exact ⟨by simp, by simp [answeredP, live]⟩
    | outofrange | «continue» | notsupported => cases answered

theorem lo16_reloc_refused (silence : lib.NeverComplains) (verdicts : lib.OkOrOverflow) (entry : Arelent)
    (symbol : Asymbol) (data : DataPtr) (inputSection : Asection) (relocatable : Bool) (s : RelocState)
    (ready : s.Ready) :
    (bfdMipsElfLo16Reloc lib order entry symbol data inputSection relocatable s).status = .outofrange ↔
      entry.address > inputSection.limit := by
  by_cases outside : entry.address > inputSection.limit
  · simp [bfdMipsElfLo16Reloc, outside]
  · have drained := fun t => drain_installable order silence symbol data relocatable s.mipsHi16List ready t
    simp only [bfdMipsElfLo16Reloc, if_neg outside, RelocState.setData_list, (drained _).1, ne_eq,
      not_true_eq_false, if_false]
    exact generic_reloc_refused order verdicts entry symbol data inputSection relocatable _

theorem hi16_reloc_refused (entry : Arelent) (data : DataPtr) (inputSection : Asection) (relocatable : Bool)
    (s : RelocState) :
    (bfdMipsElfHi16Reloc entry data inputSection relocatable s).status = .outofrange ↔
      entry.address > inputSection.limit := by
  by_cases outside : entry.address > inputSection.limit
  · simp [bfdMipsElfHi16Reloc, outside]
  · simp [bfdMipsElfHi16Reloc, outside]

theorem reloc64_status (special : lib.ReturnsSpecial) (verdicts : lib.OkOrOverflow) (entry : Arelent)
    (data : DataPtr) (inputSection : Asection) (relocatable : Bool) (s : RelocState)
    (live : ¬ (relocatable && entry.sym.asection.kind == .absolute) = true) :
    let r := mips3264bitReloc lib order entry data inputSection relocatable s
    fieldStatusP r.status = true ∧
      (r.status = .outofrange ↔ (reloc32Of order entry).address > inputSection.limit) := by
  have state := reloc64_state order lib entry data inputSection relocatable s
  dsimp only at state ⊢
  rw [state.1, inner_called order special verdicts _ _ _ _ _ live]
  exact ⟨generic_reloc_status verdicts _ _ _ _ _ _, generic_reloc_refused order verdicts _ _ _ _ _ _⟩

theorem got16_reloc_refused (verdicts : lib.OkOrOverflow) (entry : Arelent) (data : DataPtr)
    (inputSection : Asection) (relocatable : Bool) (s : RelocState) :
    let r := bfdMipsElfGot16Reloc lib order entry entry.sym data inputSection relocatable s
    fieldStatusP r.status = true ∧ (r.status = .outofrange ↔ entry.address > inputSection.limit) := by
  rw [bfdMipsElfGot16Reloc]
  split
  · exact ⟨generic_reloc_status verdicts _ _ _ _ _ _, generic_reloc_refused order verdicts _ _ _ _ _ _⟩
  · exact ⟨hi16_reloc_status _ _ _ _ _, hi16_reloc_refused _ _ _ _ _⟩

theorem gprel16_reloc_refused (verdicts : lib.OkOrOverflow) (outsymbols : Option (List OutSymbol))
    (entry : Arelent) (data : DataPtr) (inputSection : Asection) (relocatable : Bool) (s : RelocState) :
    let r := bfdMipsElf32Gprel16Reloc lib order outsymbols entry entry.sym data inputSection relocatable s
    r.status ≠ .continue ∧ (answeredP r.status = false ↔
      (lib.literalRelocP entry.howto.type &&
          (relocatable && !entry.sym.flags.sectionSym && entry.sym.flags.isLocal)) = true ∨
        (mipsElfFinalGp outsymbols entry.sym relocatable s).1 = .ok ∧ entry.address > inputSection.limit) := by
  rw [bfdMipsElf32Gprel16Reloc, ← Bool.and_assoc, ← Bool.and_assoc]
  split
  · rename_i kept
    simp [kept, answeredP]
  · rename_i live
    have status := gprel16_at_location_status order verdicts outsymbols entry entry.sym data inputSection
      relocatable s
    refine ⟨status.1, ?_⟩
    rw [status.2]
    simp only [live, Bool.false_eq_true, false_or]

theorem mips16_gprel_refused (verdicts : lib.OkOrOverflow) (outsymbols : Option (List OutSymbol))
    (entry : Arelent) (data : DataPtr) (inputSection : Asection) (relocatable : Bool) (s : RelocState) :
    let r := mips16GprelReloc lib order outsymbols entry entry.sym data inputSection relocatable s
    r.status ≠ .continue ∧ (answeredP r.status = false ↔
      (relocatable && !entry.sym.flags.sectionSym && entry.sym.flags.isLocal) = false ∧
        (mipsElfFinalGp outsymbols entry.sym relocatable s).1 = .ok ∧ entry.address > inputSection.limit) := by
  rw [mips16GprelReloc]
  split
  · rename_i kept
    simp [kept, answeredP]
  · rename_i live
    have status := gprel16_at_location_status order verdicts outsymbols entry entry.sym data inputSection
      relocatable s
    refine ⟨status.1, ?_⟩
    rw [status.2]
    simp only [live, true_and]

theorem refused_iff (cooperates : ctx.lib.Cooperates) (parent : Arelent) (s : RelocState) (ready : s.Ready) :
    answeredP (relocateParent ctx job parent s).status = false ↔ Refused ctx job parent s := by
  rw [Refused]
  by_cases early : (job.gpFound && parent.howto.specialFunction == some .bfdMipsElf32Gprel16Reloc) = true
  · rw [if_pos early, relocateParent, if_pos early,
      field_status_refused (gprel16_with_gp_status cooperates.verdicts _ _ _ _ _ _ _)]
    exact gprel16_with_gp_refused _ cooperates.verdicts _ _ _ _ _ _ _
  rw [if_neg early, relocate_parent_perform early]
  by_cases kept : (job.relocatable && parent.sym.asection.kind == .absolute) = true
  · rw [if_pos kept]
    rw [Bool.and_eq_true, beq_iff_eq] at kept
    rw [kept.1, cooperates.absolute _ _ _ _ _ kept.2]
    simp [answeredP]
  rw [if_neg kept]
  have present : job.relocatable = true → parent.sym.asection.kind ≠ .absolute := by
    intro isPartial absolute
    exact kept (by rw [Bool.and_eq_true, beq_iff_eq]; exact ⟨isPartial, absolute⟩)
  have returned := fun f => cooperates.special (fun s => runSpecialFunction ctx.lib ctx.order ctx.outsymbols f
    parent job.data job.inputSection job.relocatable s) parent job.data job.inputSection job.relocatable s present
  have answered := fun f (goes : (runSpecialFunction ctx.lib ctx.order ctx.outsymbols f parent job.data
      job.inputSection job.relocatable s).status ≠ .continue) =>
    (congrArg (fun r : SpecialResult => answeredP r.status = false) (returned f goes)).to_iff
  have refused := fun f (field : fieldStatusP (runSpecialFunction ctx.lib ctx.order ctx.outsymbols f parent
      job.data job.inputSection job.relocatable s).status = true) =>
    (answered f (field_status_finished field).1).trans (field_status_refused field)
  cases isF : parent.howto.specialFunction with
  | none => rfl
  | some f =>
      cases f with
      | bfdMipsElfGenericReloc =>
          have field : fieldStatusP (bfdMipsElfGenericReloc ctx.lib ctx.order parent parent.sym job.data
              job.inputSection job.relocatable s).status = true :=
            generic_reloc_status cooperates.verdicts _ _ _ _ _ _
          exact (refused .bfdMipsElfGenericReloc field).trans
            (generic_reloc_refused _ cooperates.verdicts _ _ _ _ _ _)
      | bfdMipsElfHi16Reloc =>
          exact (refused .bfdMipsElfHi16Reloc (hi16_reloc_status _ _ _ _ _)).trans
            (hi16_reloc_refused _ _ _ _ _)
      | bfdMipsElfGot16Reloc =>
          have status := got16_reloc_refused ctx.order cooperates.verdicts parent job.data job.inputSection
            job.relocatable s
          exact (refused .bfdMipsElfGot16Reloc status.1).trans status.2
      | bfdMipsElfLo16Reloc =>
          have field : fieldStatusP (bfdMipsElfLo16Reloc ctx.lib ctx.order parent parent.sym job.data
              job.inputSection job.relocatable s).status = true :=
            lo16_reloc_status cooperates.verdicts _ _ _ _ _ _
          exact (refused .bfdMipsElfLo16Reloc field).trans
            (lo16_reloc_refused _ cooperates.silence cooperates.verdicts _ _ _ _ _ _ ready)
      | bfdMipsElf32Gprel16Reloc =>
          have status := gprel16_reloc_refused ctx.order cooperates.verdicts ctx.outsymbols parent job.data job.inputSection
            job.relocatable s
          exact (answered .bfdMipsElf32Gprel16Reloc status.1).trans status.2
      | mipsElfGprel32Reloc =>
          have status := gprel32_status ctx.order ctx.outsymbols parent job.data job.inputSection
            job.relocatable s
          exact (answered .mipsElfGprel32Reloc status.1).trans status.2
      | mips16GprelReloc =>
          have status := mips16_gprel_refused ctx.order cooperates.verdicts ctx.outsymbols parent job.data job.inputSection
            job.relocatable s
          exact (answered .mips16GprelReloc status.1).trans status.2
      | mips3264bitReloc =>
          have status := reloc64_status ctx.order cooperates.special cooperates.verdicts parent job.data
            job.inputSection job.relocatable s kept
          exact (refused .mips3264bitReloc status.1).trans status.2
      | bfdElfGenericReloc | bfdElfRelVtableRelocFn => rfl

theorem push_action {parent : Arelent} {x : MipsHi16} (pushes : hi16Action job parent = .push x) :
    x.rel = parent ∧ (parent.howto.specialFunction = some .bfdMipsElfHi16Reloc ∨
      parent.howto.specialFunction = some .bfdMipsElfGot16Reloc) := by
  rw [hi16Action] at pushes
  split at pushes
  · cases pushes
  · split at pushes
    · rename_i isHi16
      cases pushes
      exact ⟨rfl, Or.inl isHi16⟩
    · rename_i isGot16
      split at pushes
      · cases pushes
      · cases pushes
        exact ⟨rfl, Or.inr isGot16⟩
    · cases pushes
    · cases pushes

theorem turn_queued_only (cooperates : ctx.lib.Cooperates) (parent : Arelent) (known : parent.KnownHowto)
    (s : LinkState) (queued : s.reloc.QueuedOnly) (goes : turnOutcome ctx job parent s = .data) :
    (s.turn ctx job parent).reloc.QueuedOnly := by
  have acts := turn_acts cooperates parent known s queued.ready goes
  have list := congrArg PendingQueue.Queue.pending acts.queue
  intro hi member
  have inside := (acts.ready hi member).inside
  change hi ∈ (s.turn ctx job parent).reloc.queue.pending at member
  rw [list, PendingQueue.Queue.step] at member
  cases action : hi16Action job parent with
  | push x =>
      rw [action] at member
      rcases List.mem_cons.mp member with rfl | earlier
      · rcases push_action action with ⟨isParent, special⟩
        rw [← isParent] at known special
        exact ⟨known, special, inside⟩
      · exact queued hi earlier
  | drain key =>
      rw [action] at member
      exact absurd member List.not_mem_nil
  | skip =>
      rw [action] at member
      exact queued hi member

theorem loop_queued_only (cooperates : ctx.lib.Cooperates) (relocs : List Arelent)
    (known : ∀ parent ∈ relocs, parent.KnownHowto) (s : LinkState) (queued : s.reloc.QueuedOnly)
    (completed : (relocateLoop ctx job relocs s).1 = .data) : (relocateLoop ctx job relocs s).2.reloc.QueuedOnly := by
  induction relocs generalizing s with
  | nil => exact queued
  | cons parent rest ih =>
      cases goes : turnOutcome ctx job parent s with
      | data =>
          rw [relocate_loop_cons parent rest s goes] at completed ⊢
          exact ih (fun later member => known later (List.mem_cons_of_mem _ member)) _
            (turn_queued_only cooperates parent (known parent List.mem_cons_self) s queued goes) completed
      | null | abort =>
          rw [relocateLoop, goes] at completed
          cases completed

theorem turn_abort_iff (parent : Arelent) (s : LinkState) :
    turnOutcome ctx job parent s = .abort ↔ answeredP (relocateParent ctx job parent s.reloc).status = false := by
  rw [turnOutcome, respond]
  cases (relocateParent ctx job parent s.reloc).status with
  | ok => simp [answeredP]
  | undefined | dangerous | overflow =>
      simp only [answeredP]
      split <;> simp
  | outofrange | «continue» | notsupported => simp [answeredP]

theorem relocate_loop_abort_iff (relocs : List Arelent) (s : LinkState) :
    (relocateLoop ctx job relocs s).1 = .abort ↔ ∃ front parent back, relocs = front ++ parent :: back ∧
      (relocateLoop ctx job front s).1 = .data ∧
      turnOutcome ctx job parent (relocateLoop ctx job front s).2 = .abort := by
  induction relocs generalizing s with
  | nil =>
      constructor
      · intro aborts
        cases aborts
      · rintro ⟨front, parent, back, split, _⟩
        exact absurd split (by simp)
  | cons parent rest ih =>
      cases goes : turnOutcome ctx job parent s with
      | data =>
          rw [relocate_loop_cons parent rest s goes, ih]
          constructor
          · rintro ⟨front, later, back, rfl, reached, aborts⟩
            refine ⟨parent :: front, later, back, rfl, ?_⟩
            rw [relocate_loop_cons parent front s goes]
            exact ⟨reached, aborts⟩
          · rintro ⟨front, later, back, split, reached, aborts⟩
            cases front with
            | nil =>
                obtain ⟨rfl, rfl⟩ := List.cons.inj split
                have stops : turnOutcome ctx job parent s = .abort := aborts
                rw [goes] at stops
                cases stops
            | cons first front =>
                obtain ⟨rfl, rfl⟩ := List.cons.inj split
                rw [relocate_loop_cons parent front s goes] at reached aborts
                exact ⟨front, later, back, rfl, reached, aborts⟩
      | null =>
          simp only [relocateLoop, goes, reduceCtorEq, false_iff]
          rintro ⟨front, later, back, split, reached, aborts⟩
          cases front with
          | nil =>
              obtain ⟨rfl, rfl⟩ := List.cons.inj split
              have stops : turnOutcome ctx job parent s = .abort := aborts
              rw [goes] at stops
              cases stops
          | cons first front =>
              obtain ⟨rfl, rfl⟩ := List.cons.inj split
              simp only [relocateLoop, goes, reduceCtorEq] at reached
      | abort =>
          simp only [relocateLoop, goes, true_iff]
          exact ⟨[], parent, rest, rfl, rfl, goes⟩

def NeverRefused (ctx : LinkContext) (job : LinkOrder) (relocs : List Arelent) (s : LinkState) : Prop :=
  ∀ front parent back, relocs = front ++ parent :: back → (relocateLoop ctx job front s).1 = .data →
    ¬ Refused ctx job parent (relocateLoop ctx job front s).2.reloc

theorem relocate_loop_safe_iff (cooperates : ctx.lib.Cooperates) (relocs : List Arelent)
    (known : ∀ parent ∈ relocs, parent.KnownHowto) (s : LinkState) (ready : s.reloc.Ready) :
    (relocateLoop ctx job relocs s).1 ≠ .abort ↔ NeverRefused ctx job relocs s := by
  rw [ne_eq, relocate_loop_abort_iff]
  have reached : ∀ front parent back, relocs = front ++ parent :: back →
      (relocateLoop ctx job front s).1 = .data →
      (turnOutcome ctx job parent (relocateLoop ctx job front s).2 = .abort ↔
        Refused ctx job parent (relocateLoop ctx job front s).2.reloc) := by
    intro front parent back split goes
    have queue := loop_queue cooperates front
      (fun earlier member => known earlier (by rw [split]; exact List.mem_append_left _ member)) s ready goes
    rw [turn_abort_iff]
    exact refused_iff cooperates parent _ queue.2
  constructor
  · intro safe front parent back split goes refused
    exact safe ⟨front, parent, back, split, goes, (reached front parent back split goes).mpr refused⟩
  · rintro never ⟨front, parent, back, split, goes, aborts⟩
    exact never front parent back split goes ((reached front parent back split goes).mp aborts)

/-- What a section must be for the function to return: it cannot be read, has no relocations, or none
of them is refused with the gp that is found. -/
def SectionAccepted (ctx : LinkContext) (inputSection : Asection) (data : DataPtr) (relocatable : Bool)
    (source : SectionSource) (s : LinkState) : Prop :=
  ∀ contents relocs, source.contents = some contents → source.relocs = some relocs → relocs ≠ [] →
    ∃ gpFound gp, lookupGp (if source.sameFormat then none else source.gpEntry) = some (gpFound, gp) ∧
      NeverRefused ctx ⟨inputSection, data, relocatable, gpFound, gp⟩ relocs
        { s with reloc := s.reloc.setData data contents }

theorem get_relocated_returns_iff (cooperates : ctx.lib.Cooperates) (inputSection : Asection) (data : DataPtr)
    (relocatable : Bool) (source : SectionSource)
    (known : ∀ relocs, source.relocs = some relocs → ∀ parent ∈ relocs, parent.KnownHowto) (s : LinkState)
    (ready : s.reloc.Ready) :
    (bfdElfMipsGetRelocatedSectionContents ctx inputSection data relocatable source s).1 ≠ .abort ↔
      SectionAccepted ctx inputSection data relocatable source s := by
  rcases source with ⟨contents, relocs, sameFormat, gpEntry⟩
  cases contents with
  | none => simp [bfdElfMipsGetRelocatedSectionContents, SectionAccepted]
  | some contents =>
      cases relocs with
      | none => simp [bfdElfMipsGetRelocatedSectionContents, SectionAccepted]
      | some relocs =>
          cases relocs with
          | nil => simp [bfdElfMipsGetRelocatedSectionContents, SectionAccepted]
          | cons parent rest =>
              cases found : lookupGp (if sameFormat = true then none else gpEntry) with
              | none =>
                  simp [bfdElfMipsGetRelocatedSectionContents, SectionAccepted, found]
              | some pair =>
                  rcases pair with ⟨gpFound, gp⟩
                  let job : LinkOrder := ⟨inputSection, data, relocatable, gpFound, gp⟩
                  let start : LinkState := { s with reloc := s.reloc.setData data contents }
                  have loop : (relocateLoop ctx job (parent :: rest) start).1 ≠ .abort ↔
                      NeverRefused ctx job (parent :: rest) start :=
                    relocate_loop_safe_iff cooperates (parent :: rest) (known _ rfl) start ready
                  simp only [bfdElfMipsGetRelocatedSectionContents, found]
                  rw [loop]
                  constructor
                  · intro never contents' relocs' isContents isRelocs _
                    obtain rfl := Option.some.inj isContents
                    obtain rfl := Option.some.inj isRelocs
                    exact ⟨gpFound, gp, found, never⟩
                  · intro accepted
                    rcases accepted contents (parent :: rest) rfl rfl (by simp) with ⟨gpFound', gp', found', never⟩
                    obtain ⟨rfl, rfl⟩ := Prod.mk.inj (Option.some.inj (found.symm.trans found'))
                    exact never

/-- The special functions keep to their sections exactly where their words lie inside, and write to no other bytes; the
loop keeps the pending list as they expect it; and the function returns exactly for the sections without a refused
relocation. -/
theorem bad_addresses_rejected_iff (ctx : LinkContext) (cooperates : ctx.lib.Cooperates) :
    (∀ (call : LimitedCall) (s : RelocState), s.QueuedOnly →
        (call.Clean ctx.lib ctx.order s ↔ call.KeepsInside ctx.order s)) ∧
      (ctx.lib.StoresSum → ∀ (call : LimitedCall) (s : RelocState), call.Confined ctx.lib ctx.order s) ∧
      (∀ job relocs (s : LinkState), (∀ parent ∈ relocs, parent.KnownHowto) → s.reloc.QueuedOnly →
        (relocateLoop ctx job relocs s).1 = .data → (relocateLoop ctx job relocs s).2.reloc.QueuedOnly) ∧
      ∀ inputSection data relocatable (source : SectionSource) (s : LinkState),
        (∀ relocs, source.relocs = some relocs → ∀ parent ∈ relocs, parent.KnownHowto) → s.reloc.QueuedOnly →
          ((bfdElfMipsGetRelocatedSectionContents ctx inputSection data relocatable source s).1 ≠ .abort ↔
            SectionAccepted ctx inputSection data relocatable source s) := by
  refine ⟨?_, ?_, ?_, ?_⟩
  · intro call s queued
    exact call.clean_iff ctx.order cooperates.special cooperates.absolute cooperates.silence
      cooperates.verdicts s queued
  · intro sums call s
    exact call.frame ctx.order sums cooperates.special cooperates.absolute cooperates.verdicts s
  · intro job relocs s known queued completed
    exact loop_queued_only cooperates relocs known s queued completed
  · intro inputSection data relocatable source s known queued
    exact get_relocated_returns_iff cooperates inputSection data relocatable source known s queued.ready

def sampleCall (address : BfdVma) : LimitedCall where
  f := .bfdMipsElfGenericReloc
  entry := relocAt .rMips32 address (symbolAt 0x2000 0)
  data := 0
  inputSection := sectionAt 0x1000 8
  relocatable := false
  limited := rfl
  known := rfl
  special := rfl

theorem bad_addresses_rejected_word :
    (sampleCall 4).Clean referenceLib .big (startState fun _ => 0) ∧
      (bfdElfMipsGetRelocatedSectionContents referenceContext (sectionAt 0x1000 8) 0 false
        ⟨some fun _ => 0, some [(sampleCall 4).entry], true, none⟩ (startLink fun _ => 0)).1 ≠ .abort := by
  obtain ⟨clean, _, _, returns⟩ := bad_addresses_rejected_iff referenceContext reference_cooperates
  have empty : (startState fun _ => 0).QueuedOnly := fun hi member => absurd member List.not_mem_nil
  refine ⟨(clean (sampleCall 4) (startState fun _ => 0) empty).mpr (Or.inr (Or.inr (by decide))), ?_⟩
  apply (returns _ _ _ _ _ ?_ empty).mpr
  · intro contents relocs _ isRelocs _
    obtain rfl := Option.some.inj isRelocs
    refine ⟨false, _, rfl, fun front parent back split _ refused => ?_⟩
    have only : parent = (sampleCall 4).entry := by
      cases front with
      | nil => exact (List.cons.inj split).1.symm
      | cons first front => cases front <;> cases (List.cons.inj split).2
    subst only
    have behind : (4 : BfdVma) > 8 := refused
    exact absurd behind (by decide)
  · intro relocs isRelocs parent member
    rw [← Option.some.inj isRelocs, List.mem_singleton] at member
    exact member ▸ (sampleCall 4).known

/-- A word that starts two bytes before the end of its section is read and written, and an address
behind the end makes the loop abort. -/
theorem bad_addresses_accepted :
    ¬ (sampleCall 6).Clean referenceLib .big (startState fun _ => 0) ∧
      (bfdElfMipsGetRelocatedSectionContents referenceContext (sectionAt 0x1000 8) 0 false
        ⟨some fun _ => 0, some [relocAt .rMips32 9 (symbolAt 0x2000 0)], true, none⟩
        (startLink fun _ => 0)).1 = .abort := by
  refine ⟨?_, rfl⟩
  have accesses : (sampleCall 6).accesses referenceLib .big (startState fun _ => 0) = [⟨0, 8, 6, 4⟩] := rfl
  rintro (inside | refused)
  · rw [accesses] at inside
    have word := inside _ List.mem_cons_self
    revert word
    decide
  · exact absurd refused.1 (by decide)

end Openisa.Bfd
