import Openisa.Dynamic.CheckRelocs

/-! What the counters of `check_relocs` hold once all input files are loaded. -/

namespace Openisa.Dynamic

open Openisa.Bfd
open Openisa.Elf
open Openisa.Got
open Openisa.Library

variable {η : Type}

/-- What happens to the symbols while the input files are loaded, in any order: a relocation is checked, a
symbol becomes indirect, or the generic linker changes one. -/
inductive LoadStep (η : Type) where
  | check (r : LinkReloc η)
  | indirect (ind dir : η)
  | resolve (h : η) (s : MipsSymbol η)

def LoadStep.reloc? : LoadStep η → Option (LinkReloc η)
  | .check r => some r
  | .indirect .. => none
  | .resolve .. => none

def checkedRelocs (steps : List (LoadStep η)) : List (LinkReloc η) := steps.filterMap LoadStep.reloc?

def MipsSymbol.new (id : Nat) (name : String) : MipsSymbol η :=
  { entry :=
      { id := id, name := name, type := .new, value := 0, sec := none, isa := .standard
        defaultVisibility := true, optional := false, fnStub := none, needFnStub := false, callStub := none
        callFpStub := none, la25Stub := none, gotOnlyForCalls := true, callsLocal := false
        referencesLocal := false, gotNormal := true, defDynamic := false, defRegular := false
        hasStaticRelocs := false }
    needsPlt := false, typeFunc := false, weakdef := none, dynamic := false, forcedLocal := false
    pointerEqualityNeeded := false, needsCopy := false, pltOffset := none, possiblyDynamicRelocs := 0
    readonlyReloc := false, noFnStub := false, needsLazyStub := false, globalGotArea := .none }

def LoadState.start (id : η → Nat) (name : η → String) : LoadState η :=
  ⟨⟨Forwarding.own, fun h => .new (id h) (name h)⟩, .empty, false, false⟩

variable [DecidableEq η]

/-- A symbol gives way to another. Nothing happens where both are at the end of one chain. -/
def makeIndirect (copy : CopyFlags η) (ind dir : η) (table : SymbolTable η) : SymbolTable η :=
  let i := table.links.root ind
  let d := table.links.root dir
  if i = d then table else
  let (dir', ind') := mipsElfCopyIndirectSymbol copy (table.symbol d) (table.symbol i)
  { links := table.links.redirect ind dir
    symbol := Function.update (Function.update table.symbol i ind') d dir' }

def loadStep (link : DynLink) (copy : CopyFlags η) (st : LoadState η) :
    LoadStep η → Except CheckError (LoadState η)
  | .check r => checkReloc link r st
  | .indirect ind dir => .ok { st with table := makeIndirect copy ind dir st.table }
  | .resolve h s => .ok { st with table := st.table.modify h fun old => old.settle s }

def loadAll (link : DynLink) (copy : CopyFlags η) (st : LoadState η) (steps : List (LoadStep η)) :
    Except CheckError (LoadState η) := steps.foldlM (loadStep link copy) st

def allocAbsoluteP (r : LinkReloc η) : Bool := relocUse r.type = .absolute && r.input.sec.alloc

def LinkReloc.hash? (r : LinkReloc η) : Option η := r.sym.hash?

def localAbsoluteP (input symndx : Nat) (r : LinkReloc η) : Bool :=
  allocAbsoluteP r && r.hash?.isNone && r.input.abfd.id == input && r.symndx == symndx

def absoluteLoad (links : Forwarding η) (relocs : List (LinkReloc η)) (h : η) : Nat :=
  links.load LinkReloc.hash? allocAbsoluteP relocs h

/-- The counters agree with the relocations checked so far. Where a program has static references to a
symbol, nothing is said of its counter. -/
structure Counted (link : DynLink) (relocs : List (LinkReloc η)) (st : LoadState η) : Prop where
  counter : ∀ h, st.table.links.root h = h →
    link.shared = true ∨ (st.table.symbol h).entry.hasStaticRelocs = false →
      (st.table.symbol h).possiblyDynamicRelocs = BitVec.ofNat 32 (absoluteLoad st.table.links relocs h)
  locals : ∀ input symndx, st.relDyn.reserved (.local input symndx) =
    if link.shared then relocs.countP (localAbsoluteP input symndx) else 0
  globals : ∀ h, st.relDyn.reserved (.global h) = 0

theorem counted_start (link : DynLink) (id : η → Nat) (name : η → String) :
    Counted link [] (LoadState.start id name) where
  counter _ _ _ := rfl
  locals _ _ := by simp [LoadState.start, RelDyn.reserved, RelDyn.empty]
  globals _ := rfl

section Note

variable (link : DynLink) (r : LinkReloc η) (h : MipsSymbol η)

omit [DecidableEq η] in
theorem note_static_name : (noteStatic link r h).entry.name = h.entry.name := by
  unfold noteStatic
  cases relocUse r.type <;> simp only
  split
  · rfl
  · split <;> rfl

omit [DecidableEq η] in
theorem note_static_possibly : (noteStatic link r h).possiblyDynamicRelocs = h.possiblyDynamicRelocs := by
  unfold noteStatic
  cases relocUse r.type <;> simp only
  split
  · rfl
  · split <;> rfl

omit [DecidableEq η] in
theorem note_stub_kept : (noteStub link r h).entry.hasStaticRelocs = h.entry.hasStaticRelocs ∧
    (noteStub link r h).possiblyDynamicRelocs = h.possiblyDynamicRelocs := by
  unfold noteStub
  split <;> exact ⟨rfl, rfl⟩

omit [DecidableEq η] in
theorem note_reloc_static :
    (noteReloc link r h).entry.hasStaticRelocs = (noteStatic link r h).entry.hasStaticRelocs := by
  rw [noteReloc, (note_stub_kept link r _).1]
  unfold noteDynamic
  split
  · rfl
  · split <;> rfl

omit [DecidableEq η] in
theorem note_static_of_static (static : h.entry.hasStaticRelocs = true) :
    (noteStatic link r h).entry.hasStaticRelocs = true := by
  unfold noteStatic
  cases relocUse r.type <;> simp only
  · exact static
  · exact static
  · split
    · exact static
    · split
      · exact static
      · rfl

omit [DecidableEq η] in
theorem can_make_dynamic_congr {h' : MipsSymbol η} (same : h'.entry.name = h.entry.name) :
    canMakeDynamicP link r (some h') = canMakeDynamicP link r (some h) := by
  simp [canMakeDynamicP, same]

omit [DecidableEq η] in
theorem call_not_absolute {rType : MipsReloc} (call : callRelocP rType = true) : relocUse rType ≠ .absolute := by
  intro absolute
  rcases absolute_type absolute with rfl | rfl | rfl
  all_goals cases call

omit [DecidableEq η] in
theorem note_reloc_possibly : (noteReloc link r h).possiblyDynamicRelocs =
    h.possiblyDynamicRelocs +
      if relocUse r.type = .absolute ∧ canMakeDynamicP link r (some h) = true then 1 else 0 := by
  have name := note_static_name link r h
  have counter := note_static_possibly link r h
  rw [noteReloc, (note_stub_kept link r _).2]
  unfold noteDynamic
  rw [can_make_dynamic_congr link r h name]
  by_cases call : callRelocP r.type = true
  · simp [call, counter, call_not_absolute call]
  · by_cases dynamic : relocUse r.type = .absolute ∧ canMakeDynamicP link r (some h) = true
    · simp [call, dynamic, counter]
    · rw [if_neg dynamic]
      simp only [Bool.and_eq_true, decide_eq_true_eq, call, dynamic, if_false, Bool.false_eq_true]
      simpa using counter

omit [DecidableEq η] in
theorem can_make_dynamic_of_counted
    (known : link.shared = true ∨ (noteReloc link r h).entry.hasStaticRelocs = false) :
    (relocUse r.type = .absolute ∧ canMakeDynamicP link r (some h) = true) ↔ allocAbsoluteP r = true := by
  have form : allocAbsoluteP r = true ↔ relocUse r.type = .absolute ∧ r.input.sec.alloc = true := by
    simp [allocAbsoluteP]
  rw [form]
  constructor
  · rintro ⟨absolute, dynamic⟩
    exact ⟨absolute, (Bool.and_eq_true _ _ ▸ dynamic).2⟩
  · rintro ⟨absolute, alloc⟩
    refine ⟨absolute, ?_⟩
    rcases known with shared | unmarked
    · simp [canMakeDynamicP, shared, alloc]
    · rw [note_reloc_static] at unmarked
      by_contra refused
      have kept : r.input.debugging = false := by
        by_contra debugging
        have := r.input.debugging_not_alloc (by simpa using debugging)
        simp [alloc] at this
      simp [noteStatic, absolute, refused, kept] at unmarked

end Note

section Step

variable {link : DynLink} {relocs : List (LinkReloc η)} {st : LoadState η} {r : LinkReloc η}

omit [DecidableEq η] in
theorem hash_none_iff : st.table.hash? r.sym = none ↔ r.hash? = none := by
  simp [SymbolTable.hash?, LinkReloc.hash?]

theorem load_checked (i : η) : absoluteLoad st.table.links (relocs ++ [r]) i =
    absoluteLoad st.table.links relocs i +
      if allocAbsoluteP r = true ∧ st.table.hash? r.sym = some i then 1 else 0 := by
  unfold absoluteLoad
  rw [Forwarding.load_append_singleton]
  simp [Forwarding.under, SymbolTable.hash?, LinkReloc.hash?]

theorem checked_local (counted : Counted link relocs st) (isLocal : st.table.hash? r.sym = none) :
    Counted link (relocs ++ [r]) (checkLocal link r st) := by
  have table : (checkLocal link r st).table = st.table := by
    unfold checkLocal
    split <;> rfl
  have own : r.hash?.isNone = true := by
    rw [hash_none_iff.mp isLocal]
    rfl
  constructor
  · intro h rooted known
    rw [table] at rooted known ⊢
    rw [counted.counter h rooted known, load_checked]
    simp [isLocal]
  · intro input symndx
    rw [List.countP_append, List.countP_singleton]
    have before := counted.locals input symndx
    unfold checkLocal
    by_cases dynamic : relocUse r.type = .absolute ∧ canMakeDynamicP link r none = true
    · have shared : link.shared = true := by
        have := dynamic.2
        simp_all [canMakeDynamicP]
      have alloc : allocAbsoluteP r = true := by
        have := dynamic.2
        simp_all [canMakeDynamicP, allocAbsoluteP]
      rw [if_pos (by simpa using dynamic), RelDyn.reserved_allocate, before, rel_room_one]
      simp [shared, localAbsoluteP, alloc, own]
    · rw [if_neg (by simpa using dynamic), before]
      by_cases shared : link.shared = true
      · have refused : allocAbsoluteP r = false := by
          by_contra kept
          apply dynamic
          simp_all [canMakeDynamicP, allocAbsoluteP]
        simp [localAbsoluteP, refused]
      · simp [shared]
  · intro h
    rw [← counted.globals h]
    unfold checkLocal
    split
    · simp [RelDyn.reserved_allocate]
    · rfl

theorem checked_global (counted : Counted link relocs st) {h : η} (found : st.table.hash? r.sym = some h) :
    Counted link (relocs ++ [r]) (checkGlobal link r h st) := by
  have isGlobal : r.hash? ≠ none := by
    intro none
    simp [hash_none_iff.mpr none] at found
  have asked : ∀ who, (∀ h', who ≠ .gott h') →
      (checkGlobal link r h st).relDyn.reserved who = st.relDyn.reserved who := by
    intro who notGott
    unfold checkGlobal
    dsimp only
    split
    · rw [RelDyn.reserved_allocate, if_neg (Ne.symm (notGott h)), Nat.add_zero]
    · rfl
  constructor
  · intro h' rooted known
    change st.table.links.root h' = h' at rooted
    change _ = BitVec.ofNat 32 (absoluteLoad st.table.links (relocs ++ [r]) h')
    change link.shared = true ∨
      ((st.table.modify h (noteReloc link r)).symbol h').entry.hasStaticRelocs = false at known
    change ((st.table.modify h (noteReloc link r)).symbol h').possiblyDynamicRelocs = _
    rw [load_checked, found]
    by_cases own : h' = h
    · subst own
      rw [SymbolTable.modify_symbol] at known ⊢
      have earlier : link.shared = true ∨ (st.table.symbol h').entry.hasStaticRelocs = false := by
        refine known.imp_right fun unmarked => ?_
        by_contra marked
        rw [note_reloc_static, note_static_of_static link r _ (by simpa using marked)] at unmarked
        simp at unmarked
      rw [note_reloc_possibly, counted.counter h' rooted earlier,
        ite_cond_congr (propext (can_make_dynamic_of_counted link r _ known))]
      by_cases alloc : allocAbsoluteP r = true
      · simp [alloc, BitVec.ofNat_add]
      · simp [alloc]
    · rw [SymbolTable.modify_symbol_ne _ _ _ own] at known ⊢
      rw [counted.counter h' rooted known]
      simp [Ne.symm own]
  · intro input symndx
    rw [asked _ (by simp), counted.locals input symndx, List.countP_append, List.countP_singleton]
    simp [localAbsoluteP, isGlobal]
  · intro h'
    rw [asked _ (by simp), counted.globals h']

theorem counted_check (counted : Counted link relocs st) {st' : LoadState η}
    (checked : checkReloc link r st = .ok st') : Counted link (relocs ++ [r]) st' := by
  unfold checkReloc at checked
  dsimp only at checked
  split at checked
  · cases checked
  split at checked
  · cases checked
  split at checked
  · cases checked
  have flagged : ∀ staticTls, Counted link relocs { st with staticTls := staticTls } := fun _ =>
    ⟨counted.counter, counted.locals, counted.globals⟩
  cases found : st.table.hash? r.sym with
  | none =>
    rw [found] at checked
    cases checked
    exact checked_local (flagged _) found
  | some h =>
    rw [found] at checked
    cases checked
    exact checked_global (flagged _) found

omit [DecidableEq η] in
theorem copy_indirect_static (copy : CopyFlags η) (dir ind : MipsSymbol η) :
    (mipsElfCopyIndirectSymbol copy dir ind).1.entry.hasStaticRelocs =
      (dir.entry.hasStaticRelocs || ind.entry.hasStaticRelocs) := rfl

omit [DecidableEq η] in
theorem copy_indirect_possibly (copy : CopyFlags η) (dir ind : MipsSymbol η) :
    (mipsElfCopyIndirectSymbol copy dir ind).1.possiblyDynamicRelocs =
      dir.possiblyDynamicRelocs + ind.possiblyDynamicRelocs := rfl

theorem counted_indirect (copy : CopyFlags η) (counted : Counted link relocs st) (ind dir : η) :
    Counted link relocs { st with table := makeIndirect copy ind dir st.table } := by
  refine ⟨?_, counted.locals, counted.globals⟩
  intro h rooted known
  dsimp only at rooted known ⊢
  unfold makeIndirect at rooted known ⊢
  by_cases joined : st.table.links.root ind = st.table.links.root dir
  · rw [if_pos joined] at rooted known ⊢
    exact counted.counter h rooted known
  · rw [if_neg joined] at rooted known ⊢
    obtain ⟨earlier, notSource⟩ := st.table.links.root_of_redirect joined rooted
    by_cases target : h = st.table.links.root dir
    · -- the target takes over the relocations, and the counter with them
      subst target
      dsimp only at known ⊢
      rw [Function.update_self, copy_indirect_static] at known
      rw [Function.update_self, copy_indirect_possibly]
      have both : link.shared = true ∨ (st.table.symbol (st.table.links.root dir)).entry.hasStaticRelocs = false ∧
          (st.table.symbol (st.table.links.root ind)).entry.hasStaticRelocs = false := by
        simpa using known
      rw [counted.counter _ (st.table.links.root_root dir) (both.imp_right And.left),
        counted.counter _ (st.table.links.root_root ind) (both.imp_right And.right), ← BitVec.ofNat_add]
      congr 1
      exact (Forwarding.load_redirect_target joined relocs).symm
    · dsimp only at known ⊢
      rw [Function.update_of_ne target, Function.update_of_ne notSource] at known ⊢
      rw [counted.counter h earlier known]
      congr 1
      exact (Forwarding.load_redirect_other notSource target relocs).symm

theorem counted_resolve (counted : Counted link relocs st) (h : η) (s : MipsSymbol η) :
    Counted link relocs { st with table := st.table.modify h fun old => old.settle s } := by
  refine ⟨?_, counted.locals, counted.globals⟩
  intro h' rooted known
  dsimp only [SymbolTable.modify_links] at rooted known ⊢
  by_cases own : h' = h
  · subst own
    rw [SymbolTable.modify_symbol] at known ⊢
    exact counted.counter h' rooted known
  · rw [SymbolTable.modify_symbol_ne _ _ _ own] at known ⊢
    exact counted.counter h' rooted known

theorem counted_step (copy : CopyFlags η) (counted : Counted link relocs st) {st' : LoadState η}
    {step : LoadStep η} (ran : loadStep link copy st step = .ok st') :
    Counted link (relocs ++ checkedRelocs [step]) st' := by
  cases step with
  | check r => exact counted_check counted ran
  | indirect ind dir =>
    cases ran
    have nothing : checkedRelocs [LoadStep.indirect ind dir] = [] := rfl
    rw [nothing, List.append_nil]
    exact counted_indirect copy counted ind dir
  | resolve h s =>
    cases ran
    have nothing : checkedRelocs [LoadStep.resolve h s] = [] := rfl
    rw [nothing, List.append_nil]
    exact counted_resolve counted h s

theorem counted_run (copy : CopyFlags η) (steps : List (LoadStep η)) {st' : LoadState η}
    (counted : Counted link relocs st) (ran : loadAll link copy st steps = .ok st') :
    Counted link (relocs ++ checkedRelocs steps) st' := by
  induction steps generalizing relocs st with
  | nil =>
    cases ran
    simpa [checkedRelocs] using counted
  | cons step rest ih =>
    unfold loadAll at ran
    rw [List.foldlM_cons] at ran
    cases first : loadStep link copy st step with
    | error e =>
      rw [first] at ran
      cases ran
    | ok next =>
      rw [first] at ran
      have whole := ih (counted_step copy counted first) ran
      rw [List.append_assoc] at whole
      have joined : checkedRelocs [step] ++ checkedRelocs rest = checkedRelocs (step :: rest) := by
        rw [checkedRelocs, checkedRelocs, checkedRelocs, ← List.filterMap_append, List.singleton_append]
      rwa [joined] at whole

end Step

end Openisa.Dynamic
