import Openisa.Dynamic.Symbols

/-! The first pass over the relocations: which of them may become dynamic, and what they say about their
symbols. -/

namespace Openisa.Dynamic

open Openisa.Bfd
open Openisa.Elf
open Openisa.Got
open Openisa.Library

/-- The cases of the first switch of `_bfd_mips_elf_check_relocs`. -/
inductive RelocUse where
  | got | hint | absolute | branch | other
  deriving DecidableEq, Repr

def relocUse : MipsReloc → RelocUse
  | .rMipsGot16 | .rMipsCall16 | .rMipsCallHi16 | .rMipsCallLo16 | .rMipsGotHi16 | .rMipsGotLo16
  | .rMipsGotPage | .rMipsGotOfst | .rMipsGotDisp | .rMipsTlsGottprel | .rMipsTlsGd | .rMipsTlsLdm
  | .rMips16Got16 | .rMips16Call16 | .rMips16TlsGottprel | .rMips16TlsGd | .rMips16TlsLdm
  | .rMicromipsGot16 | .rMicromipsCall16 | .rMicromipsCallHi16 | .rMicromipsCallLo16
  | .rMicromipsGotHi16 | .rMicromipsGotLo16 | .rMicromipsGotPage | .rMicromipsGotOfst
  | .rMicromipsGotDisp | .rMicromipsTlsGottprel | .rMicromipsTlsGd | .rMicromipsTlsLdm => .got
  | .rMipsJalr | .rMicromipsJalr => .hint
  | .rMips32 | .rMipsRel32 | .rMips64 => .absolute
  | .rMips26 | .rMipsPc16 | .rMips16_26 | .rMicromips26S1 | .rMicromipsPc7S1 | .rMicromipsPc10S1
  | .rMicromipsPc16S1 | .rMicromipsPc23S2 => .branch
  | _ => .other

theorem absolute_type {rType : MipsReloc} (absolute : relocUse rType = .absolute) :
    rType = .rMips32 ∨ rType = .rMipsRel32 ∨ rType = .rMips64 := by
  unfold relocUse at absolute
  split at absolute <;> simp_all

def callRelocP (rType : MipsReloc) : Bool := rType.call16RelocP || rType.callHi16RelocP || rType.callLo16RelocP

-- the call of MIPS16 code among them, but not its high and low parts
def mips16CallRelocP : MipsReloc → Bool
  | .rMips16_26 | .rMips16Call16 => true
  | _ => false

/-- The types that a shared library refuses: those of the first list only against a symbol. -/
def positionDependentP (abfd : InputFile) (rType : MipsReloc) (symndx : Nat) (name : Option String) : Bool :=
  match rType with
  | .rMips16Hi16 | .rMipsHi16 | .rMipsHigher | .rMipsHighest | .rMicromipsHi16 | .rMicromipsHigher
  | .rMicromipsHighest => symndx ≠ 0 && !(!abfd.newabi && name == some "_gp_disp")
  | .rMips16_26 | .rMips26 | .rMicromips26S1 => true
  | _ => false

inductive CheckError where
  | gotRelocNotExpected (offset : BfdVma)
  | call16NotGlobal (offset : BfdVma)
  | recompileWithPic (rType : MipsReloc) (symbol : String)
  deriving DecidableEq, Repr

variable {η : Type}

def canMakeDynamicP (link : DynLink) (r : LinkReloc η) (h : Option (MipsSymbol η)) : Bool :=
  (link.shared || h.any fun h => !link.isVxworks && h.entry.name ≠ "__gnu_local_gp" &&
    !(!link.nocopyreloc && !r.input.abfd.picObject && r.input.readonly)) && r.input.sec.alloc

def noteStatic (link : DynLink) (r : LinkReloc η) (h : MipsSymbol η) : MipsSymbol η :=
  let branch : MipsSymbol η := { h with entry := { h.entry with hasStaticRelocs := true } }
  let other : MipsSymbol η := { branch with pointerEqualityNeeded := true }
  match relocUse r.type with
  | .got | .hint => h
  | .absolute =>
      if canMakeDynamicP link r (some h) then h
      -- a section that is only for debugging can be left to resolve to nothing
      else if r.input.debugging then h
      else other
  | .branch => branch
  | .other => other

def noteDynamic (link : DynLink) (r : LinkReloc η) (h : MipsSymbol η) : MipsSymbol η :=
  if callRelocP r.type then { h with needsPlt := true, typeFunc := true }
  else if relocUse r.type = .absolute && canMakeDynamicP link r (some h) then
    { h with
      possiblyDynamicRelocs := h.possiblyDynamicRelocs + 1
      readonlyReloc := h.readonlyReloc || r.input.readonly }
  else h

/-- The second switch sets `h = NULL`: the GOT entry is for the page of a symbol that is not overridable, or for the
module. -/
def forgetsSymbolP (link : DynLink) (rType : MipsReloc) (defRegular forcedLocal : Bool) : Bool :=
  (rType.gotPageRelocP && defRegular && !(link.shared && !link.symbolic && !forcedLocal)) || rType.tlsLdmRelocP

def noteStub (link : DynLink) (r : LinkReloc η) (h : MipsSymbol η) : MipsSymbol η :=
  if forgetsSymbolP link r.type h.entry.defRegular h.forcedLocal then h else
  { h with
    noFnStub := h.noFnStub ||
      (!link.isVxworks && !callRelocP r.type && relocUse r.type ≠ .hint)
    entry := { h.entry with
      needFnStub := h.entry.needFnStub ||
        (!mips16CallRelocP r.type && !r.input.sec.allowsMips16Refs) } }

def noteReloc (link : DynLink) (r : LinkReloc η) (h : MipsSymbol η) : MipsSymbol η :=
  noteStub link r (noteDynamic link r (noteStatic link r h))

structure LoadState (η : Type) where
  table : SymbolTable η
  relDyn : RelDyn η
  textrel : Bool
  staticTls : Bool

def gottNameP (link : DynLink) (name : String) : Bool :=
  link.isVxworks && link.shared && (name == "__GOTT_BASE__" || name == "__GOTT_INDEX__")

section Table

variable [DecidableEq η]

/-- A relocation against a local symbol is copied to the shared library. -/
def checkLocal (link : DynLink) (r : LinkReloc η) (st : LoadState η) : LoadState η :=
  if relocUse r.type = .absolute && canMakeDynamicP link r none then
    { st with
      relDyn := st.relDyn.mipsElfAllocateDynamicRelocations link (.local r.input.abfd.id r.symndx) 1
      textrel := st.textrel || r.input.readonly }
  else st

def checkGlobal (link : DynLink) (r : LinkReloc η) (h : η) (st : LoadState η) : LoadState η :=
  let gott := gottNameP link (st.table.symbol h).entry.name
  { st with
    table := st.table.modify h (noteReloc link r)
    relDyn := if gott then st.relDyn.mipsElfAllocateDynamicRelocations link (.gott h) 1 else st.relDyn
    textrel := st.textrel || (gott && r.input.readonly) }

/-- One turn of the loop of `_bfd_mips_elf_check_relocs`, apart from the GOT entries that it records. -/
def checkReloc (link : DynLink) (r : LinkReloc η) (st : LoadState η) : Except CheckError (LoadState η) :=
  let h := st.table.hash? r.sym
  let name := h.map fun h => (st.table.symbol h).entry.name
  if relocUse r.type = .got && link.isVxworks && !link.shared then .error (.gotRelocNotExpected r.offset)
  else if r.type.call16RelocP && h.isNone then .error (.call16NotGlobal r.offset)
  else if link.shared && positionDependentP r.input.abfd r.type r.symndx name && !name.any (gottNameP link) then
    .error (.recompileWithPic r.type (name.getD "a local symbol"))
  else
    let st := { st with staticTls := st.staticTls || (link.shared && r.type.tlsGottprelRelocP) }
    .ok (match h with
      | none => checkLocal link r st
      | some h => checkGlobal link r h st)

end Table

/-- What `_bfd_elf_link_hash_copy_indirect` makes of a symbol and of one that gives way to it, or that is
an alias of it. -/
abbrev CopyFlags (η : Type) := MipsSymbol η → MipsSymbol η → MipsSymbol η × MipsSymbol η

/-- The symbol `ind` is an alias of `dir`: `_bfd_mips_elf_copy_indirect_symbol` up to its early return. -/
def copyStatic (copy : CopyFlags η) (dir ind : MipsSymbol η) : MipsSymbol η × MipsSymbol η :=
  let (dir', ind') := copy dir ind
  let dir' := dir.settle dir'
  ({ dir' with entry := { dir'.entry with
      hasStaticRelocs := dir'.entry.hasStaticRelocs || ind.entry.hasStaticRelocs } }, ind.settle ind')

def mipsElfCopyIndirectSymbol (copy : CopyFlags η) (dir ind : MipsSymbol η) :
    MipsSymbol η × MipsSymbol η :=
  let (dir, ind) := copyStatic copy dir ind
  ({ dir with
      possiblyDynamicRelocs := dir.possiblyDynamicRelocs + ind.possiblyDynamicRelocs
      readonlyReloc := dir.readonlyReloc || ind.readonlyReloc
      noFnStub := dir.noFnStub || ind.noFnStub
      globalGotArea :=
        if ggaNumber ind.globalGotArea < ggaNumber dir.globalGotArea then ind.globalGotArea else dir.globalGotArea
      entry := { dir.entry with
        fnStub := ind.entry.fnStub.orElse fun _ => dir.entry.fnStub
        needFnStub := dir.entry.needFnStub || ind.entry.needFnStub
        callStub := ind.entry.callStub.orElse fun _ => dir.entry.callStub
        callFpStub := ind.entry.callFpStub.orElse fun _ => dir.entry.callFpStub } },
    { ind with
      globalGotArea := .none
      entry := { ind.entry with fnStub := none, needFnStub := false, callStub := none, callFpStub := none } })

end Openisa.Dynamic
