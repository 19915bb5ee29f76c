import Openisa.Elf.LinkData

/-! The stubs that load $25 for position-independent functions which position-dependent code calls: which
symbols get one, and where it goes. -/

namespace Openisa.Stubs

open Openisa.Bfd
open Openisa.Elf

/-- An input section; `absolute` says that it is `*ABS*`, `collected` that its output section is. -/
structure FunctionSection where
  id : Nat
  alignmentPower : Nat
  absolute : Bool
  collected : Bool
  picOwner : Bool
  vma : BfdVma
  outputOffset : BfdVma
  deriving DecidableEq, Repr

def FunctionSection.base (sec : FunctionSection) : BfdVma := sec.vma + sec.outputOffset

structure FunctionSymbol where
  name : String
  type : LinkHashType
  defRegular : Bool
  dynamic : Bool
  sec : FunctionSection
  value : BfdVma
  isa : IsaMode
  mipsPic : Bool
  fnStub : Option FunctionSection
  needFnStub : Bool
  callStub : Option FunctionSection
  callFpStub : Option FunctionSection
  hasNonpicBranches : Bool
  deriving DecidableEq, Repr

namespace FunctionSymbol

variable (h : FunctionSymbol)

def definedP : Bool := h.type = .defined || h.type = .defweak

def localPicFunctionP : Bool :=
  h.definedP && h.defRegular && !h.sec.absolute && (h.isa ≠ .mips16 || (h.fnStub.isSome && h.needFnStub)) &&
    (h.sec.picOwner || h.mipsPic)

def samePlace (g : FunctionSymbol) : Bool := h.sec = g.sec && h.value = g.value

/-- `mips_elf_get_la25_target`: the section of the target and the offset in it. -/
def la25Target : FunctionSection × BfdVma :=
  if h.isa = .mips16 then (h.fnStub.getD h.sec, 0) else (h.sec, h.value)

def la25Address : BfdVma := h.la25Target.2 + h.la25Target.1.base

def useTrampolineP : Bool := h.la25Target.2 ≠ 0 || 4 < h.la25Target.1.alignmentPower

end FunctionSymbol

/-- A section made for one LUI/ADDIU stub, before the section of its target. -/
structure IntroSection where
  name : String
  before : FunctionSection
  alignmentPower : Nat
  size : Nat
  deriving DecidableEq, Repr

inductive StubPlace where
  | trampoline
  | intro (index : Nat)
  deriving DecidableEq, Repr

structure La25Stub (η : Type) where
  place : StubPlace
  offset : Nat
  h : η
  deriving DecidableEq, Repr

structure StubSymbol where
  name : String
  place : StubPlace
  value : Nat
  size : Nat
  deriving DecidableEq, Repr

/-- A local symbol for what a function was before it got a stub. -/
structure ShadowSymbol where
  name : String
  sec : FunctionSection
  value : BfdVma
  deriving DecidableEq, Repr

/-- The hash table and the stubs while the symbols are checked. The trampolines have no section at first. -/
structure StubState (η : Type) where
  symbol : η → FunctionSymbol
  la25Stub : η → Option (La25Stub η)
  stubs : List (La25Stub η)
  strampoline : Option Nat
  intros : List IntroSection
  stubSymbols : List StubSymbol
  shadows : List ShadowSymbol
  excluded : List FunctionSection

section Check

variable {η : Type} [DecidableEq η]

def createStubSymbol (h : FunctionSymbol) (stubPrefix : String) (place : StubPlace) (value size : Nat) : StubSymbol :=
  ⟨stubPrefix ++ h.name, place, if h.isa = .micromips then value ||| 1 else value, size⟩

def StubState.modify (st : StubState η) (h : η) (f : FunctionSymbol → FunctionSymbol) : StubState η :=
  { st with symbol := Function.update st.symbol h (f (st.symbol h)) }

def StubState.exclude (st : StubState η) (sec : Option FunctionSection) (unneeded : Bool) : StubState η :=
  if unneeded then { st with excluded := st.excluded ++ sec.toList } else st

/-- Dynamic symbols must use the standard call interface, in case other objects try to call them. -/
def exportStub (h : η) (st : StubState η) : StubState η :=
  let s := st.symbol h
  if s.fnStub.isSome && s.dynamic then
    { st.modify h fun s => { s with needFnStub := true } with
      shadows := st.shadows ++ [⟨".mips16." ++ s.name, s.sec, s.value⟩] }
  else st

def mipsElfCheckMips16Stubs (h : η) (st : StubState η) : StubState η :=
  let exported := exportStub h st
  let s := exported.symbol h
  ((exported.exclude s.fnStub (!s.needFnStub)).exclude s.callStub (s.isa = .mips16)).exclude
    s.callFpStub (s.isa = .mips16)

/-- Room for a stub, which is entered in the table. -/
def StubState.place (st : StubState η) (h : η) (place : StubPlace) (offset size : Nat) : StubState η :=
  { st with
    la25Stub := Function.update st.la25Stub h (some ⟨place, offset, h⟩)
    stubs := st.stubs ++ [⟨place, offset, h⟩]
    stubSymbols := st.stubSymbols ++ [createStubSymbol (st.symbol h) ".pic." place offset size] }

/-- The new section ends where its target begins: padding goes before the stub. -/
def mipsElfAddLa25Intro (h : η) (st : StubState η) : StubState η :=
  let input := (st.symbol h).la25Target.1
  let start := if 3 < input.alignmentPower then 2 ^ input.alignmentPower - 8 else 0
  let name := ".text.stub." ++ toString (st.stubs.length + 1)
  { st.place h (.intro st.intros.length) start 8 with
    intros := st.intros ++ [⟨name, input, input.alignmentPower, start + 8⟩] }

def mipsElfAddLa25Trampoline (h : η) (st : StubState η) : StubState η :=
  let size := st.strampoline.getD 0
  { st.place h .trampoline size 16 with strampoline := some (size + 16) }

def mipsElfAddLa25Stub (h : η) (st : StubState η) : StubState η :=
  match st.stubs.find? fun stub => (st.symbol h).samePlace (st.symbol stub.h) with
  | some stub => { st with la25Stub := Function.update st.la25Stub h (some stub) }
  | none =>
      if (st.symbol h).useTrampolineP then mipsElfAddLa25Trampoline h st else mipsElfAddLa25Intro h st

def mipsElfCheckSymbol (relocatable outputPic : Bool) (h : η) (st : StubState η) : StubState η :=
  let checked := if relocatable then st else mipsElfCheckMips16Stubs h st
  let s := checked.symbol h
  if s.localPicFunctionP then
    if s.sec.collected then checked
    else if relocatable then
      if outputPic then checked else checked.modify h fun s => { s with mipsPic := true }
    else if s.hasNonpicBranches then mipsElfAddLa25Stub h checked
    else checked
  else checked

def mipsElfCheckSymbols (relocatable outputPic : Bool) (order : List η) (st : StubState η) : StubState η :=
  order.foldl (fun st h => mipsElfCheckSymbol relocatable outputPic h st) st

end Check

end Openisa.Stubs
