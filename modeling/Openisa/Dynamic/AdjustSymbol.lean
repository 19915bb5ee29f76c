import Openisa.Dynamic.CheckRelocs

/-! The second pass: symbols of dynamic objects get lazy-binding stubs, PLT entries or copy relocations, and
the relocations that were counted for them may be given up. -/

namespace Openisa.Dynamic

open Openisa.Bfd
open Openisa.Elf
open Openisa.Got
open Openisa.Library

structure PltSections where
  splt : Nat
  sgotplt : Nat
  srelplt : Nat
  srelplt2 : Nat
  srelbss : Nat
  deriving DecidableEq, Repr

variable {η : Type}

structure AdjustState (η : Type) where
  table : SymbolTable η
  relDyn : RelDyn η
  plt : PltSections
  lazyStubCount : Nat

inductive AdjustError where
  | nonDynamicRelocs (symbol : String)
  deriving DecidableEq, Repr

def MipsSymbol.callsOnly (s : MipsSymbol η) : Bool := s.needsPlt && !s.noFnStub

/-- The symbol does not stop at a lazy-binding stub and gets a PLT entry. -/
def takesPltP (link : DynLink) (s : MipsSymbol η) : Bool :=
  !(!link.isVxworks && s.callsOnly) &&
    ((s.callsOnly || (s.typeFunc && s.entry.hasStaticRelocs)) &&
      link.usePltsAndCopyRelocs && !s.entry.callsLocal &&
      !(!s.entry.defaultVisibility && s.entry.type == .undefweak))

def PltSections.header (link : DynLink) (plt : PltSections) : PltSections :=
  if plt.splt ≠ 0 then plt else
  { plt with
    splt := plt.splt + link.pltHeaderSize
    sgotplt := if link.isVxworks then plt.sgotplt else plt.sgotplt + link.gotHeaderSize
    srelplt2 := if link.isVxworks && !link.shared then plt.srelplt2 + 2 * 12 else plt.srelplt2 }

def PltSections.entry (link : DynLink) (plt : PltSections) : PltSections :=
  { plt with
    splt := plt.splt + link.pltEntrySize
    sgotplt := plt.sgotplt + 4
    srelplt := plt.srelplt + relSize link
    srelplt2 := if link.isVxworks && !link.shared then plt.srelplt2 + 3 * 12 else plt.srelplt2 }

/-- The symbol with the PLT entry at `offset`, which a program also takes as its address. -/
def MipsSymbol.assignPlt (link : DynLink) (offset : Nat) (s : MipsSymbol η) : MipsSymbol η :=
  { s with
    pltOffset := some offset
    possiblyDynamicRelocs := 0
    entry := if !link.shared && !s.entry.defRegular
      then { s.entry with
        sec := link.splt
        value := BitVec.ofNat 64 (if link.isVxworks then offset + 8 else offset) }
      else s.entry }

/-- What `_bfd_elf_adjust_dynamic_copy` makes of a symbol. -/
abbrev DynamicCopy (η : Type) := MipsSymbol η → MipsSymbol η

def MipsSymbol.assignCopy (dynamicCopy : DynamicCopy η) (s : MipsSymbol η) : MipsSymbol η :=
  let s := { s with
    needsCopy := s.needsCopy || s.entry.sec.any ElfSection.alloc
    possiblyDynamicRelocs := 0 }
  s.settle (dynamicCopy s)

section Table

variable [DecidableEq η]

def adjustDynamicSymbol (link : DynLink) (dynamicCopy : DynamicCopy η) (h : η) (st : AdjustState η) :
    Except AdjustError (AdjustState η) :=
  let s := st.table.symbol h
  let update (f : MipsSymbol η → MipsSymbol η) : AdjustState η := { st with table := st.table.modify h f }
  if !link.isVxworks && s.callsOnly && (!link.dynamicSectionsCreated || !s.entry.defRegular) then
    if !link.dynamicSectionsCreated then .ok st
    else .ok { update fun s => { s with needsLazyStub := true } with lazyStubCount := st.lazyStubCount + 1 }
  else if takesPltP link s then
    let plt := st.plt.header link
    .ok { update (MipsSymbol.assignPlt link plt.splt) with plt := plt.entry link }
  else
    match s.weakdef with
    | some weakdef =>
        let entry := (st.table.symbol weakdef).entry
        .ok (update fun s => { s with entry := { s.entry with sec := entry.sec, value := entry.value } })
    | none =>
        if s.entry.defRegular then .ok st
        else if !s.entry.hasStaticRelocs then .ok st
        else if !link.usePltsAndCopyRelocs || link.shared then .error (.nonDynamicRelocs s.entry.name)
        else
          let st' := update (MipsSymbol.assignCopy dynamicCopy)
          if !s.entry.sec.any ElfSection.alloc then .ok st'
          else if link.isVxworks then
            .ok { st' with plt := { st.plt with srelbss := st.plt.srelbss + 12 } }
          else .ok { st' with relDyn := st.relDyn.mipsElfAllocateDynamicRelocations link (.copy h) 1 }

/-- What happens to the symbols while they are adjusted, in any order. The generic linker copies the flags
of a weak alias to its definition, and settles a symbol before it is adjusted. -/
inductive AdjustStep (η : Type) where
  | adjust (h : η)
  | «alias» (dir ind : η)
  | resolve (h : η) (s : MipsSymbol η)

structure Generic (η : Type) where
  copyFlags : CopyFlags η
  dynamicCopy : DynamicCopy η

def copyAlias (copy : CopyFlags η) (dir ind : η) (table : SymbolTable η) : SymbolTable η :=
  if dir = ind then table else
  let (dir', ind') := copyStatic copy (table.symbol dir) (table.symbol ind)
  { table with symbol := Function.update (Function.update table.symbol ind ind') dir dir' }

def adjustStep (link : DynLink) (generic : Generic η) (st : AdjustState η) :
    AdjustStep η → Except AdjustError (AdjustState η)
  | .adjust h => adjustDynamicSymbol link generic.dynamicCopy h st
  | .alias dir ind => .ok { st with table := copyAlias generic.copyFlags dir ind st.table }
  | .resolve h s => .ok { st with table := st.table.modify h fun old => old.settle s }

def adjustAll (link : DynLink) (generic : Generic η) (st : AdjustState η) (steps : List (AdjustStep η)) :
    Except AdjustError (AdjustState η) := steps.foldlM (adjustStep link generic) st

def stepPltP (link : DynLink) (st : AdjustState η) (step : AdjustStep η) (h : η) : Bool :=
  match step with
  | .adjust h' => h' = h && takesPltP link (st.table.symbol h)
  | _ => false

def getsPltP (link : DynLink) (generic : Generic η) (h : η) : AdjustState η → List (AdjustStep η) → Bool
  | _, [] => false
  | st, step :: rest => stepPltP link st step h ||
      match adjustStep link generic st step with
      | .ok st' => getsPltP link generic h st' rest
      | .error _ => false

end Table

/-- What steps leave of the counters and of the room in `.rel.dyn`, where `plt` tells the symbols that
they give PLT entries. -/
structure Adjusted [DecidableEq η] (link : DynLink) (plt : η → Bool) (st st' : AdjustState η) : Prop where
  links : st'.table.links = st.table.links
  reserved : ∀ who, (∀ h, who ≠ .copy h) → st'.relDyn.reserved who = st.relDyn.reserved who
  static : ∀ h, (st.table.symbol h).entry.hasStaticRelocs = true →
    (st'.table.symbol h).entry.hasStaticRelocs = true
  dropped : ∀ h, plt h = true → (st'.table.symbol h).possiblyDynamicRelocs = 0 ∧
    (st'.table.symbol h).entry.hasStaticRelocs = true
  kept : ∀ h, plt h = false →
    (st'.table.symbol h).possiblyDynamicRelocs = (st.table.symbol h).possiblyDynamicRelocs ∨
      (st'.table.symbol h).possiblyDynamicRelocs = 0 ∧ link.shared = false ∧
        (st'.table.symbol h).entry.hasStaticRelocs = true

namespace Adjusted

variable [DecidableEq η] {link : DynLink} {st st' st'' : AdjustState η} {plt plt' : η → Bool}

theorem trans (first : Adjusted link plt st st') (second : Adjusted link plt' st' st'') :
    Adjusted link (fun h => plt h || plt' h) st st'' where
  links := second.links.trans first.links
  reserved who notCopy := (second.reserved who notCopy).trans (first.reserved who notCopy)
  static h marked := second.static h (first.static h marked)
  dropped h either := by
    cases later : plt' h with
    | true => exact second.dropped h later
    | false =>
      have earlier : plt h = true := by simpa [later] using either
      obtain ⟨zero, marked⟩ := first.dropped h earlier
      refine ⟨?_, second.static h marked⟩
      rcases second.kept h later with same | cleared
      · rw [same, zero]
      · exact cleared.1
  kept h neither := by
    obtain ⟨earlier, later⟩ := Bool.or_eq_false_iff.mp neither
    rcases second.kept h later with same | cleared
    · rcases first.kept h earlier with unchanged | ⟨zero, program, marked⟩
      · exact .inl (same.trans unchanged)
      · exact .inr ⟨same.trans zero, program, second.static h marked⟩
    · exact .inr cleared

theorem of_modify (st : AdjustState η) (h : η) (f : MipsSymbol η → MipsSymbol η) (sections : PltSections)
    (stubs : Nat)
    (counter : (f (st.table.symbol h)).possiblyDynamicRelocs = (st.table.symbol h).possiblyDynamicRelocs)
    (marks : (f (st.table.symbol h)).entry.hasStaticRelocs = (st.table.symbol h).entry.hasStaticRelocs) :
    Adjusted link (fun _ => false) st ⟨st.table.modify h f, st.relDyn, sections, stubs⟩ where
  links := rfl
  reserved _ _ := rfl
  static h' marked := by
    by_cases own : h' = h
    · subst own
      rw [SymbolTable.modify_symbol, marks, marked]
    · rwa [SymbolTable.modify_symbol_ne _ _ _ own]
  dropped _ none := by simp at none
  kept h' _ := by
    left
    by_cases own : h' = h
    · subst own
      rw [SymbolTable.modify_symbol, counter]
    · rw [SymbolTable.modify_symbol_ne _ _ _ own]

theorem refl (st : AdjustState η) : Adjusted link (fun _ => false) st st where
  links := rfl
  reserved _ _ := rfl
  static _ marked := marked
  dropped _ none := by simp at none
  kept _ _ := .inl rfl

end Adjusted

section Run

variable [DecidableEq η] {link : DynLink} {st st' : AdjustState η}

omit [DecidableEq η] in
theorem takes_plt_static (notVxworks : link.isVxworks = false) {s : MipsSymbol η} (taken : takesPltP link s = true) :
    s.entry.hasStaticRelocs = true := by
  unfold takesPltP at taken
  cases calls : s.callsOnly <;> simp_all

theorem Adjusted.of_cancel {h : η} {f : MipsSymbol η → MipsSymbol η} {plt : η → Bool}
    (table : st'.table = st.table.modify h f)
    (reserved : ∀ who, (∀ h, who ≠ .copy h) → st'.relDyn.reserved who = st.relDyn.reserved who)
    (zero : (f (st.table.symbol h)).possiblyDynamicRelocs = 0)
    (marked : (f (st.table.symbol h)).entry.hasStaticRelocs = true)
    (only : ∀ h', plt h' = true → h' = h) (program : plt h = false → link.shared = false) :
    Adjusted link plt st st' where
  links := by rw [table, SymbolTable.modify_links]
  reserved := reserved
  static h' before := by
    rw [table]
    by_cases own : h' = h
    · subst own
      rwa [SymbolTable.modify_symbol]
    · rwa [SymbolTable.modify_symbol_ne _ _ _ own]
  dropped h' taken := by
    rw [only h' taken, table, SymbolTable.modify_symbol]
    exact ⟨zero, marked⟩
  kept h' untaken := by
    rw [table]
    by_cases own : h' = h
    · subst own
      rw [SymbolTable.modify_symbol]
      exact .inr ⟨zero, program untaken, marked⟩
    · rw [SymbolTable.modify_symbol_ne _ _ _ own]
      exact .inl rfl

theorem adjusted_symbol (notVxworks : link.isVxworks = false) (dynamicCopy : DynamicCopy η) (h : η)
    (ran : adjustDynamicSymbol link dynamicCopy h st = .ok st') :
    Adjusted link (stepPltP link st (.adjust h)) st st' := by
  have onlyOwn : ∀ h', stepPltP link st (.adjust h) h' = true → h' = h := by
    intro h' taken
    have := (Bool.and_eq_true _ _ ▸ taken : _ ∧ _).1
    exact (of_decide_eq_true this).symm
  have none (untaken : takesPltP link (st.table.symbol h) = false) :
      stepPltP link st (.adjust h) = fun _ => false := by
    funext h'
    by_contra taken
    have own := onlyOwn h' (by simpa using taken)
    subst own
    simp [stepPltP, untaken] at taken
  unfold adjustDynamicSymbol at ran
  dsimp only at ran
  split at ran
  next stub =>
    -- the lazy-binding stub keeps the counter, and excludes a PLT entry
    have untaken : takesPltP link (st.table.symbol h) = false := by
      have := (Bool.and_eq_true _ _ ▸ stub : _ ∧ _).1
      simp [takesPltP, this]
    rw [none untaken]
    split at ran <;> cases ran
    · exact .refl st
    · exact .of_modify st _ _ _ _ rfl rfl
  next =>
    split at ran
    next taken =>
      cases ran
      refine .of_cancel rfl (fun _ _ => rfl) rfl ?_ onlyOwn ?_
      · have marked := takes_plt_static notVxworks taken
        unfold MipsSymbol.assignPlt
        dsimp only
        split <;> exact marked
      · intro untaken
        simp [stepPltP, taken] at untaken
    next untaken =>
      rw [none (by simpa using untaken)]
      split at ran
      · cases ran
        exact .of_modify st _ _ _ _ rfl rfl
      split at ran
      · cases ran
        exact .refl st
      split at ran
      · cases ran
        exact .refl st
      next static =>
        split at ran
        · cases ran
        next copies =>
          -- a copy relocation is for programs
          have marked : (st.table.symbol h).entry.hasStaticRelocs = true := by simpa using static
          have program : link.shared = false := by
            have kept : link.usePltsAndCopyRelocs = true ∧ link.shared = false := by simpa using copies
            exact kept.2
          split at ran
          · cases ran
            exact .of_cancel rfl (fun _ _ => rfl) rfl marked (by simp) fun _ => program
          · rw [if_neg (by simp [notVxworks])] at ran
            cases ran
            refine .of_cancel rfl (fun who notCopy => ?_) rfl marked (by simp) fun _ => program
            rw [RelDyn.reserved_allocate, if_neg (Ne.symm (notCopy h)), Nat.add_zero]

theorem adjusted_alias (copy : CopyFlags η) (dir ind : η) :
    Adjusted link (fun _ => false) st { st with table := copyAlias copy dir ind st.table } := by
  unfold copyAlias
  by_cases same : dir = ind
  · rw [if_pos same]
    exact .refl st
  · rw [if_neg same]
    have symbols : ∀ h, ((copyAlias copy dir ind st.table).symbol h).possiblyDynamicRelocs =
          (st.table.symbol h).possiblyDynamicRelocs ∧
        ((st.table.symbol h).entry.hasStaticRelocs = true →
          ((copyAlias copy dir ind st.table).symbol h).entry.hasStaticRelocs = true) := by
      intro h
      unfold copyAlias
      rw [if_neg same]
      dsimp only
      by_cases target : h = dir
      · subst target
        rw [Function.update_self]
        exact ⟨rfl, fun marked => Bool.or_eq_true_iff.mpr (.inl marked)⟩
      · rw [Function.update_of_ne target]
        by_cases source : h = ind
        · subst source
          rw [Function.update_self]
          exact ⟨rfl, fun marked => marked⟩
        · rw [Function.update_of_ne source]
          exact ⟨rfl, fun marked => marked⟩
    unfold copyAlias at symbols
    rw [if_neg same] at symbols
    exact
      { links := rfl
        reserved := fun _ _ => rfl
        static := fun h => (symbols h).2
        dropped := fun _ none => by simp at none
        kept := fun h _ => .inl (symbols h).1 }

theorem adjusted_step (notVxworks : link.isVxworks = false) (generic : Generic η) (step : AdjustStep η)
    (ran : adjustStep link generic st step = .ok st') : Adjusted link (stepPltP link st step) st st' := by
  cases step with
  | adjust h => exact adjusted_symbol notVxworks generic.dynamicCopy h ran
  | «alias» dir ind =>
    cases ran
    exact adjusted_alias generic.copyFlags dir ind
  | resolve h s =>
    cases ran
    exact .of_modify st _ _ _ _ rfl rfl

theorem adjusted_run (notVxworks : link.isVxworks = false) (generic : Generic η) (steps : List (AdjustStep η))
    (ran : adjustAll link generic st steps = .ok st') :
    Adjusted link (fun h => getsPltP link generic h st steps) st st' := by
  induction steps generalizing st with
  | nil =>
    cases ran
    exact .refl _
  | cons step rest ih =>
    unfold adjustAll at ran
    rw [List.foldlM_cons] at ran
    cases first : adjustStep link generic st step with
    | error e =>
      rw [first] at ran
      cases ran
    | ok next =>
      rw [first] at ran
      have whole := (adjusted_step notVxworks generic step first).trans (ih ran)
      have same : (fun h => getsPltP link generic h st (step :: rest)) =
          fun h => stepPltP link st step h || getsPltP link generic h next rest := by
        funext h
        rw [getsPltP, first]
      rw [same]
      exact whole

end Run

end Openisa.Dynamic
