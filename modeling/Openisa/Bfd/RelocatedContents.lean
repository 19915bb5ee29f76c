import Openisa.Bfd.GpReloc

/-! The relocation loop of the generic link path, run section by section. -/

namespace Openisa.Bfd

open Openisa.Library.ByteStore

/-- A `struct bfd_link_hash_entry`, as far as the search for `_gp` looks at it. -/
inductive LinkHashEntry where
  | new | undefined | undefweak | common
  | defined (value : BfdVma)
  | defweak (value : BfdVma)
  | indirect (link : LinkHashEntry)
  | warning (link : LinkHashEntry)
  deriving DecidableEq, Repr

/-- `gp_found` and `gp`; no result where the search aborts. -/
def lookupGp : Option LinkHashEntry → Option (Bool × BfdVma)
  | none => some (false, 0x12345678)
  | some lh => entryGp lh
where
  entryGp : LinkHashEntry → Option (Bool × BfdVma)
    | .undefined | .undefweak | .common => some (false, 0x12345678)
    | .defined value | .defweak value => some (true, value)
    | .indirect link | .warning link => entryGp link
    | .new => none

inductive Diagnostic where
  | undefinedSymbol (name : String) (inputSection : Asection) (address : BfdVma)
  | relocDangerous (message : Option String) (inputSection : Asection) (address : BfdVma)
  | relocOverflow (name relocName : String) (addend : BfdVma) (inputSection : Asection)
      (address : BfdVma)
  deriving DecidableEq, Repr

/-- What a link is run with. A callback may look at the diagnostics before its own. -/
structure LinkContext where
  lib : BfdLib
  order : Endian
  outsymbols : Option (List OutSymbol)
  callbacks : List Diagnostic → Diagnostic → Bool

/-- One turn of the loop: the relocation it found, what became of it, and the callback it led to. -/
structure Step where
  reloc : Arelent
  parent : Arelent
  status : BfdRelocStatus
  diagnostic : Option Diagnostic

structure LinkState where
  reloc : RelocState
  steps : List Step
  orelocation : List Arelent

structure LinkOrder where
  inputSection : Asection
  data : DataPtr
  relocatable : Bool
  gpFound : Bool
  gp : BfdVma

inductive Outcome where
  | data | null | abort
  deriving DecidableEq, Repr

def relocateParent (ctx : LinkContext) (job : LinkOrder) (parent : Arelent) (s : RelocState) :
    SpecialResult :=
  if job.gpFound && parent.howto.specialFunction == some .bfdMipsElf32Gprel16Reloc then
    bfdMipsElfGprel16WithGp ctx.lib ctx.order parent.sym parent job.inputSection job.relocatable
      job.data job.gp s
  else
    let special := parent.howto.specialFunction.map fun f =>
      runSpecialFunction ctx.lib ctx.order ctx.outsymbols f parent job.data job.inputSection
        job.relocatable
    ctx.lib.performRelocation special parent job.data job.inputSection job.relocatable s

inductive Response where
  | silent | report (d : Diagnostic) | abort

def respond (inputSection : Asection) (r : SpecialResult) : Response :=
  match r.status with
  | .ok => .silent
  | .undefined => .report (.undefinedSymbol r.entry.sym.name inputSection r.entry.address)
  | .dangerous => .report (.relocDangerous r.errorMessage inputSection r.entry.address)
  | .overflow => .report (.relocOverflow r.entry.sym.name r.entry.howto.name r.entry.addend
      inputSection r.entry.address)
  | .outofrange | .continue | .notsupported => .abort

def Response.diagnostic : Response → Option Diagnostic
  | .report d => some d
  | .silent | .abort => none

def LinkState.turn (ctx : LinkContext) (job : LinkOrder) (parent : Arelent) (s : LinkState) :
    LinkState :=
  let r := relocateParent ctx job parent s.reloc
  let step : Step := ⟨parent, r.entry, r.status, (respond job.inputSection r).diagnostic⟩
  ⟨r.state, s.steps ++ [step], if job.relocatable then s.orelocation ++ [r.entry] else s.orelocation⟩

def LinkState.diagnostics (s : LinkState) : List Diagnostic :=
  s.steps.filterMap Step.diagnostic

/-- How the loop goes on after a turn: not at all once the switch aborts or a callback refuses. -/
def turnOutcome (ctx : LinkContext) (job : LinkOrder) (parent : Arelent) (s : LinkState) : Outcome :=
  match respond job.inputSection (relocateParent ctx job parent s.reloc) with
  | .silent => .data
  | .report d => if ctx.callbacks s.diagnostics d then .data else .null
  | .abort => .abort

def relocateLoop (ctx : LinkContext) (job : LinkOrder) : List Arelent → LinkState → Outcome × LinkState
  | [], s => (.data, s)
  | parent :: rest, s =>
      match turnOutcome ctx job parent s with
      | .data => relocateLoop ctx job rest (s.turn ctx job parent)
      | outcome => (outcome, s.turn ctx job parent)

/-- What the function reads before the loop: the contents and the relocations of the section, where
that succeeds, and the entry of `_gp`, which is not looked up when the formats are the same. -/
structure SectionSource where
  contents : Option Store
  relocs : Option (List Arelent)
  sameFormat : Bool
  gpEntry : Option LinkHashEntry

def bfdElfMipsGetRelocatedSectionContents (ctx : LinkContext) (inputSection : Asection) (data : DataPtr)
    (relocatable : Bool) (source : SectionSource) (s : LinkState) : Outcome × LinkState :=
  match source.contents with
  | none => (.null, s)
  | some contents =>
      let s := { s with reloc := s.reloc.setData data contents }
      match source.relocs with
      | none => (.null, s)
      | some [] => (.data, s)
      | some relocs =>
          match lookupGp (if source.sameFormat then none else source.gpEntry) with
          | none => (.abort, s)
          | some (gpFound, gp) => relocateLoop ctx ⟨inputSection, data, relocatable, gpFound, gp⟩ relocs s

variable {ctx : LinkContext} {job : LinkOrder}

theorem relocate_loop_cons (parent : Arelent) (rest : List Arelent) (s : LinkState)
    (goes : turnOutcome ctx job parent s = .data) :
    relocateLoop ctx job (parent :: rest) s = relocateLoop ctx job rest (s.turn ctx job parent) := by
  rw [relocateLoop, goes]

theorem relocate_loop_append (front back : List Arelent) (s : LinkState)
    (goes : (relocateLoop ctx job front s).1 = .data) :
    relocateLoop ctx job (front ++ back) s = relocateLoop ctx job back (relocateLoop ctx job front s).2 := by
  induction front generalizing s with
  | nil => rfl
  | cons parent front ih =>
      rw [List.cons_append]
      simp only [relocateLoop] at goes ⊢
      cases first : turnOutcome ctx job parent s with
      | data =>
          rw [first] at goes
          exact ih _ goes
      | null =>
          rw [first] at goes
          cases goes
      | abort =>
          rw [first] at goes
          cases goes

theorem relocate_loop_runs (relocs : List Arelent) (s : LinkState)
    (goes : ∀ parent ∈ relocs, ∀ s, turnOutcome ctx job parent s = .data) :
    relocateLoop ctx job relocs s = (.data, relocs.foldl (fun s parent => s.turn ctx job parent) s) := by
  induction relocs generalizing s with
  | nil => rfl
  | cons parent rest ih =>
      rw [relocate_loop_cons parent rest s (goes parent (List.mem_cons_self ..) s), List.foldl_cons]
      exact ih _ fun later member => goes later (List.mem_cons_of_mem _ member)

theorem get_relocated_single (inputSection : Asection) (data : DataPtr) (relocatable : Bool) (entry : Arelent)
    (sameFormat : Bool) (gpEntry : Option LinkHashEntry) (gpFound : Bool) (gp : BfdVma)
    (found : lookupGp (if sameFormat then none else gpEntry) = some (gpFound, gp)) (d : Store)
    (s : LinkState) :
    let job : LinkOrder := ⟨inputSection, data, relocatable, gpFound, gp⟩
    let s' : LinkState := { s with reloc := s.reloc.setData data d }
    turnOutcome ctx job entry s' = .data →
      bfdElfMipsGetRelocatedSectionContents ctx inputSection data relocatable
        ⟨some d, some [entry], sameFormat, gpEntry⟩ s = (.data, s'.turn ctx job entry) := by
  intro job s' goes
  simp only [bfdElfMipsGetRelocatedSectionContents, found]
  exact relocate_loop_cons entry [] s' goes

end Openisa.Bfd
