import Openisa.Bfd.Reference
import Openisa.Bfd.SpecialStatus

/-! The list of pending high parts over whole links: which relocations fill and empty it, and when
none of its entries is lost or relocated for another symbol or section. -/

namespace Openisa.Bfd

open Openisa.Library
open Openisa.Library.ByteStore
open Openisa.Library.PendingQueue (Action Event Paired Clean)

/-- What a pending high part waits for: its own symbol, while its own data is processed. -/
def MipsHi16.own (hi : MipsHi16) : Asymbol × DataPtr := (hi.rel.sym, hi.data)

def hi16Action (job : LinkOrder) (parent : Arelent) : Action MipsHi16 (Asymbol × DataPtr) :=
  if job.relocatable && parent.sym.asection.kind == .absolute then .skip else
  match parent.howto.specialFunction with
  | some .bfdMipsElfHi16Reloc => .push ⟨job.data, job.inputSection, parent⟩
  | some .bfdMipsElfGot16Reloc =>
      if got16GlobalP parent.sym then .skip else .push ⟨job.data, job.inputSection, parent⟩
  | some .bfdMipsElfLo16Reloc => .drain (parent.sym, job.data)
  | _ => .skip

/-- The howto of a relocation is the one of its type in the tables. -/
def Arelent.KnownHowto (entry : Arelent) : Prop :=
  entry.howto = mipsElf32RtypeToHowto entry.howto.type

/-- A pending high part that can be relocated without complaint. -/
structure MipsHi16.Installable (hi : MipsHi16) : Prop where
  inside : ¬ hi.rel.address > hi.inputSection.limit
  silent : hi.withHi16Howto.rel.howto.complainOnOverflow = .dont

theorem lo16_special_type (type : MipsReloc)
    (special : (mipsElf32RtypeToHowto type).specialFunction = some .bfdMipsElfLo16Reloc) :
    type = .rMips16Lo16 := by
  revert special
  cases type <;> decide

theorem queueing_type (type : MipsReloc)
    (special : (mipsElf32RtypeToHowto type).specialFunction = some .bfdMipsElfHi16Reloc ∨
      (mipsElf32RtypeToHowto type).specialFunction = some .bfdMipsElfGot16Reloc) :
    type = .rMips16Hi16 ∨ type = .rMipsGot16 ∨ type = .rMips16Got16 ∨ type = .rMicromipsGot16 := by
  revert special
  cases type <;> decide

variable {lib : BfdLib} {order : Endian} {ctx : LinkContext} {job : LinkOrder} {parent : Arelent}

theorem queued_silent (parent : Arelent) (known : parent.KnownHowto)
    (special : parent.howto.specialFunction = some .bfdMipsElfHi16Reloc ∨
      parent.howto.specialFunction = some .bfdMipsElfGot16Reloc) (data : DataPtr) (inputSection : Asection) :
    (MipsHi16.withHi16Howto ⟨data, inputSection, parent⟩).rel.howto.complainOnOverflow = .dont := by
  rw [known] at special
  rcases queueing_type _ special with type | type | type | type <;>
    simp only [MipsHi16.withHi16Howto, type]
  · rw [known, type]
    rfl
  · rfl
  · rfl
  · rfl

theorem with_hi16_howto_address (hi : MipsHi16) : hi.withHi16Howto.rel.address = hi.rel.address := by
  rw [MipsHi16.withHi16Howto]
  split <;> rfl

theorem generic_reloc_silent (order : Endian) (silence : lib.NeverComplains) (entry : Arelent) (symbol : Asymbol)
    (data : DataPtr) (inputSection : Asection) (relocatable : Bool) (s : RelocState)
    (inside : ¬ entry.address > inputSection.limit) (silent : entry.howto.complainOnOverflow = .dont) :
    (bfdMipsElfGenericReloc lib order entry symbol data inputSection relocatable s).status = .ok := by
  have ok := fun val d => silence entry.howto order val d entry.address.toNat silent
  rw [bfdMipsElfGenericReloc, if_neg inside]
  dsimp only
  split
  · rfl
  · simp [relocateField, ok]

theorem drain_installable (order : Endian) (silence : lib.NeverComplains) (symbol : Asymbol) (data : DataPtr)
    (relocatable : Bool) (pending : List MipsHi16) (installable : ∀ hi ∈ pending, hi.Installable)
    (s : RelocState) :
    (drainHi16List lib order symbol data relocatable pending s).1 = .ok ∧
      (drainHi16List lib order symbol data relocatable pending s).2.queue =
        ⟨[], s.history ++ pending.map fun hi => Event.drained hi (symbol, data)⟩ := by
  induction pending generalizing s with
  | nil => exact ⟨rfl, by simp [drainHi16List, RelocState.queue]⟩
  | cons hi next ih =>
      obtain ⟨inside, silent⟩ := installable hi (List.mem_cons_self ..)
      have inside' : ¬ hi.withHi16Howto.rel.address > hi.inputSection.limit := by
        rw [with_hi16_howto_address]
        exact inside
      have ok := generic_reloc_silent order silence hi.withHi16Howto.rel symbol hi.data
        hi.inputSection relocatable s inside' silent
      have queue : (bfdMipsElfGenericReloc lib order hi.withHi16Howto.rel symbol hi.data hi.inputSection
          relocatable s).state.history = s.history :=
        congrArg PendingQueue.Queue.history (generic_reloc_queue _ _ _ _ _ _)
      have rest := fun s => ih (fun later member => installable later (List.mem_cons_of_mem _ member)) s
      simp only [drainHi16List, ok, ne_eq, not_true_eq_false, if_false, reduceCtorEq, List.map_cons]
      refine ⟨(rest _).1, ?_⟩
      rw [(rest _).2]
      change (⟨[], (_ ++ _) ++ _⟩ : PendingQueue.Queue _ _) = _
      rw [← queue, List.append_assoc]
      rfl

theorem hi16_reloc_inside {parent : Arelent} {data : DataPtr} {inputSection : Asection}
    {relocatable : Bool} {s : RelocState}
    (done : (bfdMipsElfHi16Reloc parent data inputSection relocatable s).status ≠ .outofrange) :
    ¬ parent.address > inputSection.limit := by
  intro outside
  rw [bfdMipsElfHi16Reloc, if_pos outside] at done
  exact done rfl

theorem lo16_reloc_inside {entry : Arelent} {symbol : Asymbol} {data : DataPtr} {inputSection : Asection}
    {relocatable : Bool} {s : RelocState}
    (done : (bfdMipsElfLo16Reloc lib order entry symbol data inputSection relocatable s).status ≠
      .outofrange) : ¬ entry.address > inputSection.limit := by
  intro outside
  rw [bfdMipsElfLo16Reloc, if_pos outside] at done
  exact done rfl

theorem lo16_reloc_queue (order : Endian) (silence : lib.NeverComplains) (entry : Arelent) (symbol : Asymbol)
    (data : DataPtr) (inputSection : Asection) (relocatable : Bool) (s : RelocState)
    (inside : ¬ entry.address > inputSection.limit) (installable : ∀ hi ∈ s.mipsHi16List, hi.Installable) :
    (bfdMipsElfLo16Reloc lib order entry symbol data inputSection relocatable s).state.queue =
      s.queue.step (.drain (symbol, data)) := by
  simp only [bfdMipsElfLo16Reloc, if_neg inside, RelocState.setData_list]
  obtain ⟨ok, queue⟩ := drain_installable order silence symbol data relocatable
    s.mipsHi16List installable (s.setData data (bfdMipsElfRelocShuffle order entry.howto.type false
      (bfdMipsElfRelocUnshuffle order entry.howto.type false (s.mem data) entry.address.toNat)
      entry.address.toNat))
  simp only [ok, ne_eq, not_true_eq_false, if_false, generic_reloc_queue, queue]
  rfl

theorem assign_gp_queue (outsymbols : Option (List OutSymbol)) (s : RelocState) :
    (mipsElfAssignGp outsymbols s).2.2.queue = s.queue := by
  rw [mipsElfAssignGp]
  split
  · rfl
  · split <;> rfl

theorem final_gp_queue (outsymbols : Option (List OutSymbol)) (symbol : Asymbol) (relocatable : Bool)
    (s : RelocState) : (mipsElfFinalGp outsymbols symbol relocatable s).2.2.1.queue = s.queue := by
  have assigned := assign_gp_queue outsymbols s
  rw [mipsElfFinalGp]
  split
  · rfl
  · split
    · split
      · rfl
      · split
        all_goals
          rename_i gp s' result
          rw [result] at assigned
          exact assigned
    · rfl

theorem gprel16_with_gp_queue (symbol : Asymbol) (entry : Arelent) (inputSection : Asection)
    (relocatable : Bool) (data : DataPtr) (gp : BfdVma) (s : RelocState) :
    (bfdMipsElfGprel16WithGp lib order symbol entry inputSection relocatable data gp s).state.queue =
      s.queue := by
  rw [bfdMipsElfGprel16WithGp]
  split
  · rfl
  · dsimp only
    generalize (if (!relocatable || symbol.flags.sectionSym) = true then
      entry.addend + (gprelRelocation symbol - gp) else entry.addend) = val
    split
    · split <;> rfl
    · rfl

theorem gprel16_at_location_queue (outsymbols : Option (List OutSymbol)) (entry : Arelent)
    (symbol : Asymbol) (data : DataPtr) (inputSection : Asection) (relocatable : Bool) (s : RelocState) :
    (gprel16AtLocation lib order outsymbols entry symbol data inputSection relocatable s).state.queue =
      s.queue := by
  have found := final_gp_queue outsymbols symbol relocatable s
  rw [gprel16AtLocation]
  split
  · rename_i gp s' message result
    rw [result] at found
    rw [RelocState.setData_queue, gprel16_with_gp_queue, RelocState.setData_queue]
    exact found
  · rename_i ret gp s' message other result
    rw [result] at found
    exact found

theorem gprel32_with_gp_queue (symbol : Asymbol) (entry : Arelent) (inputSection : Asection)
    (relocatable : Bool) (data : DataPtr) (gp : BfdVma) (s : RelocState) :
    (gprel32WithGp order symbol entry inputSection relocatable data gp s).state.queue = s.queue := by
  rw [gprel32WithGp]
  split
  · rfl
  · dsimp only
    split <;> rfl

theorem run_special_queue (pending : lib.LeavesPending) (outsymbols : Option (List OutSymbol))
    (f : SpecialFunction) (notHi : f ≠ .bfdMipsElfHi16Reloc) (notGot : f ≠ .bfdMipsElfGot16Reloc)
    (notLo : f ≠ .bfdMipsElfLo16Reloc) (entry : Arelent) (data : DataPtr) (inputSection : Asection)
    (relocatable : Bool) (s : RelocState) :
    (runSpecialFunction lib order outsymbols f entry data inputSection relocatable s).state.queue =
      s.queue := by
  cases f with
  | bfdMipsElfGenericReloc => exact generic_reloc_queue _ _ _ _ _ _
  | bfdMipsElfHi16Reloc => exact absurd rfl notHi
  | bfdMipsElfGot16Reloc => exact absurd rfl notGot
  | bfdMipsElfLo16Reloc => exact absurd rfl notLo
  | bfdMipsElf32Gprel16Reloc =>
      rw [runSpecialFunction, bfdMipsElf32Gprel16Reloc]
      split
      · rfl
      · exact gprel16_at_location_queue _ _ _ _ _ _ _
  | mipsElfGprel32Reloc =>
      have found := final_gp_queue outsymbols entry.sym relocatable s
      rw [runSpecialFunction, mipsElfGprel32Reloc]
      split
      · rfl
      · split
        · rename_i gp s' message result
          rw [result] at found
          exact (gprel32_with_gp_queue _ _ _ _ _ _ _).trans found
        · rename_i ret gp s' message other result
          rw [result] at found
          exact found
  | mips16GprelReloc =>
      rw [runSpecialFunction, mips16GprelReloc]
      split
      · rfl
      · exact gprel16_at_location_queue _ _ _ _ _ _ _
  | mips3264bitReloc =>
      refine pending _ _ _ _ _ _ ?_
      rintro special isGeneric
      obtain rfl := Option.some.inj isGeneric
      exact generic_reloc_queue _ _ _ _ _ _
  | bfdElfGenericReloc => rfl
  | bfdElfRelVtableRelocFn => rfl

def RelocState.Ready (s : RelocState) : Prop := ∀ hi ∈ s.mipsHi16List, hi.Installable

/-- What is assumed of libbfd for the pending list. -/
structure BfdLib.Cooperates (lib : BfdLib) : Prop where
  special : lib.ReturnsSpecial
  absolute : lib.KeepsAbsolute
  pending : lib.LeavesPending
  silence : lib.NeverComplains
  verdicts : lib.OkOrOverflow

theorem hi16_reloc_queue (parent : Arelent) (known : parent.KnownHowto)
    (special : parent.howto.specialFunction = some .bfdMipsElfHi16Reloc ∨
      parent.howto.specialFunction = some .bfdMipsElfGot16Reloc) (data : DataPtr) (inputSection : Asection)
    (relocatable : Bool) (s : RelocState) (ready : s.Ready) (inside : ¬ parent.address > inputSection.limit) :
    (bfdMipsElfHi16Reloc parent data inputSection relocatable s).state.queue =
        s.queue.step (.push ⟨data, inputSection, parent⟩) ∧
      (bfdMipsElfHi16Reloc parent data inputSection relocatable s).state.Ready := by
  rw [bfdMipsElfHi16Reloc, if_neg inside]
  refine ⟨rfl, ?_⟩
  intro hi member
  rcases List.mem_cons.mp member with rfl | member
  · exact ⟨inside, queued_silent parent known special data inputSection⟩
  · exact ready hi member

theorem ready_of_queue {s t : RelocState} (same : t.queue = s.queue) (ready : s.Ready) : t.Ready := by
  have list := congrArg PendingQueue.Queue.pending same
  change t.mipsHi16List = s.mipsHi16List at list
  rw [RelocState.Ready, list]
  exact ready

theorem turn_inside {parent : Arelent} {s : LinkState} (goes : turnOutcome ctx job parent s = .data) :
    (relocateParent ctx job parent s.reloc).status ≠ .outofrange := by
  intro outside
  rw [turnOutcome, respond, outside] at goes
  cases goes

/-- The pending list after an action, in a state whose entries can be relocated. -/
structure ActsAs (s t : RelocState) (action : Action MipsHi16 (Asymbol × DataPtr)) : Prop where
  queue : t.queue = s.queue.step action
  ready : t.Ready

theorem acts_as_skip {s t : RelocState} (same : t.queue = s.queue) (ready : s.Ready) : ActsAs s t .skip where
  queue := by
    simp only [same, PendingQueue.Queue.step, PendingQueue.after, PendingQueue.emitted, List.append_nil]
  ready := ready_of_queue same ready

theorem run_special_acts (silence : lib.NeverComplains) (pending : lib.LeavesPending)
    (outsymbols : Option (List OutSymbol)) (parent : Arelent) (known : parent.KnownHowto) (f : SpecialFunction)
    (isF : parent.howto.specialFunction = some f)
    (live : (job.relocatable && parent.sym.asection.kind == .absolute) = false) (s : RelocState)
    (ready : s.Ready)
    (inside : (runSpecialFunction lib order outsymbols f parent job.data job.inputSection job.relocatable
      s).status ≠ .outofrange) :
    ActsAs s (runSpecialFunction lib order outsymbols f parent job.data job.inputSection job.relocatable
      s).state (hi16Action job parent) := by
  cases f with
  | bfdMipsElfHi16Reloc =>
      have action : hi16Action job parent = .push ⟨job.data, job.inputSection, parent⟩ := by
        simp only [hi16Action, live, isF, Bool.false_eq_true, if_false]
      rw [action]
      obtain ⟨queue, ready'⟩ := hi16_reloc_queue parent known (Or.inl isF) job.data job.inputSection
        job.relocatable s ready (hi16_reloc_inside inside)
      exact ⟨queue, ready'⟩
  | bfdMipsElfGot16Reloc =>
      rw [runSpecialFunction, bfdMipsElfGot16Reloc] at inside ⊢
      by_cases isGlobal : got16GlobalP parent.sym = true
      · have action : hi16Action job parent = .skip := by
          simp only [hi16Action, live, isF, isGlobal, Bool.false_eq_true, if_false, if_true]
        rw [if_pos isGlobal, action]
        exact acts_as_skip (generic_reloc_queue _ _ _ _ _ _) ready
      · have action : hi16Action job parent = .push ⟨job.data, job.inputSection, parent⟩ := by
          simp only [hi16Action, live, isF, isGlobal, Bool.false_eq_true, if_false]
        rw [if_neg isGlobal] at inside ⊢
        rw [action]
        obtain ⟨queue, ready'⟩ := hi16_reloc_queue parent known (Or.inr isF) job.data job.inputSection
          job.relocatable s ready (hi16_reloc_inside inside)
        exact ⟨queue, ready'⟩
  | bfdMipsElfLo16Reloc =>
      have action : hi16Action job parent = .drain (parent.sym, job.data) := by
        simp only [hi16Action, live, isF, Bool.false_eq_true, if_false]
      have queue := lo16_reloc_queue order silence parent parent.sym job.data job.inputSection
        job.relocatable s (lo16_reloc_inside inside) ready
      have list := congrArg PendingQueue.Queue.pending queue
      rw [action]
      refine ⟨queue, ?_⟩
      intro hi member
      change hi ∈ (bfdMipsElfLo16Reloc _ _ _ _ _ _ _ _).state.queue.pending at member
      rw [list] at member
      cases member
  | bfdMipsElfGenericReloc | bfdMipsElf32Gprel16Reloc | mipsElfGprel32Reloc | mips16GprelReloc
  | mips3264bitReloc | bfdElfGenericReloc | bfdElfRelVtableRelocFn =>
      have action : hi16Action job parent = .skip := by
        simp only [hi16Action, live, isF, Bool.false_eq_true, if_false]
      rw [action]
      exact acts_as_skip (run_special_queue pending outsymbols _ (by decide) (by decide) (by decide) parent
        job.data job.inputSection job.relocatable s) ready

theorem relocate_parent_perform
    (late : ¬ (job.gpFound && parent.howto.specialFunction == some .bfdMipsElf32Gprel16Reloc) = true)
    (s : RelocState) :
    relocateParent ctx job parent s = ctx.lib.performRelocation
      (parent.howto.specialFunction.map fun f => runSpecialFunction ctx.lib ctx.order ctx.outsymbols f parent
        job.data job.inputSection job.relocatable) parent job.data job.inputSection job.relocatable s := by
  rw [relocateParent, if_neg late]

def sharesPendingP : SpecialFunction → Bool
  | .bfdMipsElfHi16Reloc | .bfdMipsElfGot16Reloc | .bfdMipsElfLo16Reloc => true
  | _ => false

theorem turn_acts (cooperates : ctx.lib.Cooperates) (parent : Arelent) (known : parent.KnownHowto)
    (s : LinkState) (ready : s.reloc.Ready) (goes : turnOutcome ctx job parent s = .data) :
    ActsAs s.reloc (s.turn ctx job parent).reloc (hi16Action job parent) := by
  have inside := turn_inside goes
  change ActsAs s.reloc (relocateParent ctx job parent s.reloc).state (hi16Action job parent)
  by_cases early : (job.gpFound && parent.howto.specialFunction == some .bfdMipsElf32Gprel16Reloc) = true
  · have isGprel : parent.howto.specialFunction = some .bfdMipsElf32Gprel16Reloc := by
      simpa using (Bool.and_eq_true_iff.mp early).2
    have action : hi16Action job parent = .skip := by simp [hi16Action, isGprel]
    rw [relocateParent, if_pos early, action]
    exact acts_as_skip (gprel16_with_gp_queue _ _ _ _ _ _ _) ready
  by_cases kept : job.relocatable = true ∧ parent.sym.asection.kind = .absolute
  · have action : hi16Action job parent = .skip := by simp [hi16Action, kept.1, kept.2]
    rw [relocate_parent_perform early, kept.1, cooperates.absolute _ _ _ _ _ kept.2, action]
    exact acts_as_skip rfl ready
  have present : job.relocatable = true → parent.sym.asection.kind ≠ .absolute :=
    fun isPartial absolute => kept ⟨isPartial, absolute⟩
  have live : (job.relocatable && parent.sym.asection.kind == .absolute) = false := by
    simpa using present
  cases isF : parent.howto.specialFunction with
  | none =>
      have action : hi16Action job parent = .skip := by simp [hi16Action, isF]
      rw [relocate_parent_perform early, isF, action]
      exact acts_as_skip (cooperates.pending _ _ _ _ _ _ (fun _ given => by cases given)) ready
  | some f =>
      by_cases shares : sharesPendingP f = true
      · have installing : installingSpecialP f = true ∧ f ≠ .bfdMipsElf32Gprel16Reloc := by
          revert shares
          cases f <;> decide
        rw [relocate_parent_installing cooperates.verdicts cooperates.special f installing.1 installing.2
          parent isF present] at inside ⊢
        exact run_special_acts cooperates.silence cooperates.pending _ parent known f isF live _ ready inside
      · have action : hi16Action job parent = .skip := by
          cases f <;> first | exact absurd rfl shares | simp [hi16Action, isF]
        rw [relocate_parent_perform early, isF, action]
        refine acts_as_skip (cooperates.pending _ _ _ _ _ _ ?_) ready
        intro special isSpecial
        obtain rfl := Option.some.inj isSpecial
        refine run_special_queue cooperates.pending ctx.outsymbols f ?_ ?_ ?_ parent job.data job.inputSection
          job.relocatable s.reloc
        all_goals
          rintro rfl
          exact shares rfl

theorem loop_queue (cooperates : ctx.lib.Cooperates) (relocs : List Arelent)
    (known : ∀ parent ∈ relocs, parent.KnownHowto) (s : LinkState) (ready : s.reloc.Ready)
    (completed : (relocateLoop ctx job relocs s).1 = .data) :
    (relocateLoop ctx job relocs s).2.reloc.queue = s.reloc.queue.run (relocs.map (hi16Action job)) ∧
      (relocateLoop ctx job relocs s).2.reloc.Ready := by
  induction relocs generalizing s with
  | nil => exact ⟨rfl, ready⟩
  | cons parent rest ih =>
      cases goes : turnOutcome ctx job parent s with
      | data =>
          obtain ⟨queue, ready'⟩ := turn_acts cooperates parent (known parent (List.mem_cons_self ..)) s
            ready goes
          rw [relocate_loop_cons parent rest s goes] at completed ⊢
          rw [List.map_cons, PendingQueue.run_cons, ← queue]
          exact ih (fun later member => known later (List.mem_cons_of_mem _ member)) _ ready' completed
      | null | abort =>
          rw [relocateLoop, goes] at completed
          cases completed

structure SectionJob where
  job : LinkOrder
  relocs : List Arelent

def linkSections (ctx : LinkContext) : List SectionJob → LinkState → Outcome × LinkState
  | [], s => (.data, s)
  | sec :: rest, s =>
      match relocateLoop ctx sec.job sec.relocs s with
      | (.data, s) => linkSections ctx rest s
      | stopped => stopped

/-- Between two states: nothing is pending afterwards, every high part queued in between has been
relocated once, and all were relocated for their own symbol while their own data was processed. -/
structure AllRelocated (s t : RelocState) : Prop where
  empty : t.mipsHi16List = []
  events : ∃ es, t.history = s.history ++ es ∧ Clean MipsHi16.own es ∧
    ∀ hi, es.countP (Event.drains hi) = es.countP (Event.pushes hi)

/-- No pending high part is lost or misapplied in any of the sections. -/
def NoneLost (ctx : LinkContext) : List SectionJob → LinkState → Prop
  | [], _ => True
  | sec :: rest, s =>
      let t := (relocateLoop ctx sec.job sec.relocs s).2
      AllRelocated s.reloc t.reloc ∧ NoneLost ctx rest t

/-- In the section, the next `R_MIPS16_LO16` after each high part that is queued is one against the same
symbol. -/
def SectionJob.Paired (sec : SectionJob) : Prop :=
  PendingQueue.Paired MipsHi16.own (sec.relocs.map (hi16Action sec.job))

theorem all_relocated_iff (cooperates : ctx.lib.Cooperates) (sec : SectionJob)
    (known : ∀ parent ∈ sec.relocs, parent.KnownHowto) (s : LinkState) (empty : s.reloc.mipsHi16List = [])
    (completed : (relocateLoop ctx sec.job sec.relocs s).1 = .data) :
    AllRelocated s.reloc (relocateLoop ctx sec.job sec.relocs s).2.reloc ↔ sec.Paired := by
  have ready : s.reloc.Ready := by
    intro hi member
    rw [empty] at member
    cases member
  have queue := (loop_queue cooperates sec.relocs known s ready completed).1
  have pending := congrArg PendingQueue.Queue.pending queue
  have history := congrArg PendingQueue.Queue.history queue
  have start : s.reloc.queue.pending = [] := empty
  have paired := PendingQueue.run_clean_iff MipsHi16.own s.reloc.queue (sec.relocs.map (hi16Action sec.job))
  have balance := PendingQueue.run_balance s.reloc.queue (sec.relocs.map (hi16Action sec.job))
  rw [PendingQueue.run_history] at history
  change (relocateLoop ctx sec.job sec.relocs s).2.reloc.mipsHi16List = _ at pending
  change (relocateLoop ctx sec.job sec.relocs s).2.reloc.history = s.reloc.history ++ _ at history
  rw [start] at history paired balance
  simp only [List.not_mem_nil, false_implies, implies_true, true_and] at paired
  rw [SectionJob.Paired, ← paired]
  constructor
  · rintro ⟨none, es, appended, clean, -⟩
    rw [history, List.append_cancel_left_eq] at appended
    rw [← pending, appended]
    exact ⟨none, clean⟩
  · rintro ⟨none, clean⟩
    refine ⟨pending.trans none, _, history, clean, fun hi => ?_⟩
    have once := balance hi
    rw [none] at once
    simpa using once.symm

/-- Over any sequence of sections, no pending high part is lost or misapplied exactly when in each
section every queued high part is next met by an `R_MIPS16_LO16` against its symbol. -/
theorem pending_high_parts_iff (ctx : LinkContext) (cooperates : ctx.lib.Cooperates) (sections : List SectionJob)
    (known : ∀ sec ∈ sections, ∀ parent ∈ sec.relocs, parent.KnownHowto) (s : LinkState)
    (empty : s.reloc.mipsHi16List = []) (completed : (linkSections ctx sections s).1 = .data) :
    NoneLost ctx sections s ↔ ∀ sec ∈ sections, sec.Paired := by
  induction sections generalizing s with
  | nil => simp [NoneLost]
  | cons sec rest ih =>
      rw [linkSections] at completed
      split at completed
      · rename_i t linked
        have done : (relocateLoop ctx sec.job sec.relocs s).1 = .data := by rw [linked]
        have after : (relocateLoop ctx sec.job sec.relocs s).2 = t := by rw [linked]
        have first := all_relocated_iff cooperates sec (known sec (List.mem_cons_self ..)) s empty done
        rw [after] at first
        have later := fun emptied => ih (fun other member => known other (List.mem_cons_of_mem _ member)) t
          emptied completed
        simp only [NoneLost, after, List.mem_cons, forall_eq_or_imp]
        constructor
        · rintro ⟨here, others⟩
          exact ⟨first.mp here, (later here.empty).mp others⟩
        · rintro ⟨here, others⟩
          have all := first.mpr here
          exact ⟨all, (later all.empty).mpr others⟩
      · rename_i unfinished
        exact (unfinished _ (Prod.ext completed rfl)).elim

def localSymbol : Asymbol := ⟨"local", sectionAt 0x8000 16, 4, ⟨false, false, false, true⟩⟩

theorem reference_cooperates : referenceLib.Cooperates where
  special := reference_returns_special
  absolute := reference_keeps_absolute
  pending := reference_leaves_pending
  silence := reference_never_complains
  verdicts := reference_ok_or_overflow

theorem pending_high_parts_mips16 :
    NoneLost referenceContext [⟨finalJob (sectionAt 0x1000 12), [relocAt .rMips16Hi16 0 localSymbol,
      relocAt .rMips16Hi16 4 localSymbol, relocAt .rMips16Lo16 8 localSymbol]⟩] (startLink fun _ => 0) := by
  refine (pending_high_parts_iff referenceContext reference_cooperates _ ?_ _ rfl rfl).mpr ?_
  · intro sec member parent reloc
    obtain rfl := List.mem_singleton.mp member
    simp only [List.mem_cons, List.not_mem_nil, or_false] at reloc
    rcases reloc with rfl | rfl | rfl <;> rfl
  · intro sec member
    obtain rfl := List.mem_singleton.mp member
    exact ⟨rfl, rfl, trivial⟩

theorem pending_got16_left :
    ¬ NoneLost referenceContext [⟨finalJob (sectionAt 0x1000 8), [relocAt .rMipsGot16 0 localSymbol,
      relocAt .rMipsLo16 4 localSymbol]⟩] (startLink fun _ => 0) := by
  rintro ⟨section_done, -⟩
  have left : (relocateLoop referenceContext (finalJob (sectionAt 0x1000 8))
      [relocAt .rMipsGot16 0 localSymbol, relocAt .rMipsLo16 4 localSymbol]
      (startLink fun _ => 0)).2.reloc.mipsHi16List =
        [⟨0, sectionAt 0x1000 8, relocAt .rMipsGot16 0 localSymbol⟩] := rfl
  have none := section_done.empty
  rw [left] at none
  cases none

end Openisa.Bfd
