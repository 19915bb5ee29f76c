import Openisa.Dynamic.CheckedRun
import Openisa.Elf.CalculateRelocation
import Openisa.Library.HeldOnce
import Openisa.Library.JoinRun

/-! The stub sections between MIPS16 code and other code: which of them are recorded while the input files are checked,
and which are discarded before the link. -/

namespace Openisa.Stubs

open Openisa.Bfd
open Openisa.Elf
open Openisa.Dynamic
open Openisa.Library

variable {η σ : Type}

def constStrneq (name start : String) : Bool := start.toList.isPrefixOf name.toList

def fnStubP (name : String) : Bool := constStrneq name ".mips16.fn."
def callStubP (name : String) : Bool := constStrneq name ".mips16.call."
def callFpStubP (name : String) : Bool := constStrneq name ".mips16.call.fp."

def sectionAllowsMips16RefsP (name : String) : Bool :=
  fnStubP name || callStubP name || callFpStubP name || name == ".pdr"

/-- A relocation, with the entry of its symbol in the hash table; none for a local symbol. -/
structure StubReloc (η : Type) where
  type : MipsReloc
  symndx : Nat
  sym : Option η
  deriving DecidableEq, Repr

structure CheckedSection (η σ : Type) where
  id : σ
  file : Nat
  name : String
  relocs : List (StubReloc η)

inductive Mips16Place (η : Type) where
  | fnStub (h : η)
  | callStub (h : η)
  | callFpStub (h : η)
  | localStub (file symndx : Nat)
  | localCallStub (file symndx : Nat)
  deriving DecidableEq, Repr

/-- The hash table and the files, as far as stubs go, and the sections with `SEC_EXCLUDE`. -/
structure StubTable (η σ : Type) where
  links : Forwarding η
  defRegular : η → Bool
  forcedLocal : η → Bool
  stub : Mips16Place η → Option σ
  needFnStub : η → Bool
  exclude : σ → Bool

def StubTable.start : StubTable η σ :=
  ⟨.own, fun _ => false, fun _ => false, fun _ => none, fun _ => false, fun _ => false⟩

inductive StubError where
  | unknownTarget (file : Nat) (name : String)
  deriving DecidableEq, Repr

/-- `mips16_stub_symndx`: the first relocation of type `R_MIPS_NONE` is trusted, or else the first of all. -/
def mips16StubReloc (relocs : List (StubReloc η)) : Option (StubReloc η) :=
  (relocs.find? fun r => r.type = .rMipsNone).orElse fun _ => relocs.head?

section Check

variable [DecidableEq η] [DecidableEq σ]

/-- Some relocation of a file, outside its stub sections, refers to a local symbol. -/
def referredP (sections : List (CheckedSection η σ)) (file symndx : Nat) (wanted : MipsReloc → Bool) : Bool :=
  sections.any fun o => o.file = file && !sectionAllowsMips16RefsP o.name &&
    o.relocs.any fun r => r.symndx = symndx && wanted r.type

def StubTable.discard (t : StubTable η σ) (s : σ) : StubTable η σ := { t with exclude := Function.update t.exclude s true }

def StubTable.record (t : StubTable η σ) (place : Mips16Place η) (s : σ) : StubTable η σ :=
  { t with stub := Function.update t.stub place (some s) }

/-- What is to be done with a stub section whose target is known, and whether its relocations are looked at then. -/
def recordStub (sections : List (CheckedSection η σ)) (sec : CheckedSection η σ) (r : StubReloc η) (t : StubTable η σ) :
    StubTable η σ × Bool :=
  if fnStubP sec.name then
    match r.sym with
    | none =>
        if referredP sections sec.file r.symndx fun type => !mips16CallRelocP type then
          (t.record (.localStub sec.file r.symndx) sec.id, true)
        else (t.discard sec.id, false)
    | some h =>
        let h := t.links.root h
        if (t.stub (.fnStub h)).isSome then (t.discard sec.id, false) else (t.record (.fnStub h) sec.id, true)
  else
    match r.sym with
    | none =>
        if referredP sections sec.file r.symndx fun type => type = .rMips16_26 then
          (t.record (.localCallStub sec.file r.symndx) sec.id, true)
        else (t.discard sec.id, false)
    | some h =>
        -- here the links of indirect symbols are not followed
        let place := if callFpStubP sec.name then Mips16Place.callFpStub h else .callStub h
        if (t.stub place).isSome then (t.discard sec.id, false) else (t.record place sec.id, true)

def checkStubSection (sections : List (CheckedSection η σ)) (sec : CheckedSection η σ) (t : StubTable η σ) :
    Except StubError (StubTable η σ × Bool) :=
  if fnStubP sec.name || callStubP sec.name || callFpStubP sec.name then
    match mips16StubReloc sec.relocs with
    | none => .error (.unknownTarget sec.file sec.name)
    | some r =>
        if r.symndx = 0 then .error (.unknownTarget sec.file sec.name) else .ok (recordStub sections sec r t)
  else .ok (t, true)

/-- The relocation would have to refer to a stub, if there is one. -/
def needsFnStubP (sec : CheckedSection η σ) (r : StubReloc η) : Bool :=
  !mips16CallRelocP r.type && !sectionAllowsMips16RefsP sec.name

/-- The relocation is known to refer to its symbol when it is checked. -/
def noticedP (link : DynLink) (sec : CheckedSection η σ) (t : StubTable η σ) (r : StubReloc η) : Bool :=
  needsFnStubP sec r && r.sym.any fun h =>
    !forgetsSymbolP link r.type (t.defRegular (t.links.root h)) (t.forcedLocal (t.links.root h))

def noteFnStub (link : DynLink) (sec : CheckedSection η σ) (t : StubTable η σ) (r : StubReloc η) : StubTable η σ :=
  match r.sym with
  | some h =>
      if noticedP link sec t r then { t with needFnStub := Function.update t.needFnStub (t.links.root h) true } else t
  | none => t

/-- `_bfd_mips_elf_check_relocs`, as far as MIPS16 stubs go. -/
def checkStubRelocs (link : DynLink) (sections : List (CheckedSection η σ)) (t : StubTable η σ) (sec : CheckedSection η σ) :
    Except StubError (StubTable η σ) :=
  (checkStubSection sections sec t).map fun (t, goOn) => if goOn then sec.relocs.foldl (noteFnStub link sec) t else t

/-- `_bfd_mips_elf_copy_indirect_symbol`, as far as MIPS16 stubs go. -/
def copyStubs (dir ind : η) (t : StubTable η σ) : StubTable η σ :=
  let stub := HeldOnce.move t.stub (.fnStub ind) (.fnStub dir)
  let stub := HeldOnce.move stub (.callStub ind) (.callStub dir)
  let stub := HeldOnce.move stub (.callFpStub ind) (.callFpStub dir)
  { t with
    stub
    needFnStub := if t.needFnStub ind then Function.update (Function.update t.needFnStub dir true) ind false
      else t.needFnStub }

/-- What happens while the input files are loaded, in any order: a section is checked, a symbol becomes indirect, or the
generic linker finds a definition of one, or makes it local. -/
inductive StubStep (η σ : Type) where
  | check (sec : CheckedSection η σ)
  | indirect (ind dir : η)
  | resolve (h : η) (defRegular forcedLocal : Bool)

def stubStep (link : DynLink) (sections : List (CheckedSection η σ)) (t : StubTable η σ) :
    StubStep η σ → Except StubError (StubTable η σ)
  | .check sec => checkStubRelocs link sections t sec
  | .indirect ind dir =>
      let i := t.links.root ind
      let d := t.links.root dir
      .ok (if i = d then t else { copyStubs d i t with links := t.links.redirect ind dir })
  | .resolve h defRegular forcedLocal =>
      .ok { t with
        defRegular := Function.update t.defRegular h defRegular
        forcedLocal := Function.update t.forcedLocal h forcedLocal }

def StubTable.mipsElfCheckMips16Stubs (isa : η → IsaMode) (dynamic : η → Bool) (t : StubTable η σ) (h : η) : StubTable η σ :=
  let need := t.needFnStub h || ((t.stub (.fnStub h)).isSome && dynamic h)
  { t with
    needFnStub := Function.update t.needFnStub h need
    exclude := fun s => t.exclude s || (t.stub (.fnStub h) = some s && !need) ||
      (isa h = .mips16 && (t.stub (.callStub h) = some s || t.stub (.callFpStub h) = some s)) }

def checkMips16Symbols (isa : η → IsaMode) (dynamic : η → Bool) (traversal : List η) (t : StubTable η σ) : StubTable η σ :=
  traversal.foldl (StubTable.mipsElfCheckMips16Stubs isa dynamic) t

end Check

end Openisa.Stubs
