import Openisa.Bfd.Shuffle

/-! What the ELF linker path knows about sections, symbols and the link when it relocates a section. -/

namespace Openisa.Elf

open Openisa.Bfd
open Openisa.Library.ByteStore

structure ElfSection where
  vma : BfdVma
  outputOffset : BfdVma
  hasOutput : Bool
  merge : Bool
  alloc : Bool
  allowsMips16Refs : Bool
  discarded : Bool
  deriving DecidableEq, Repr

/-- `sec->output_section->vma + sec->output_offset`. -/
def ElfSection.base (sec : ElfSection) : BfdVma := sec.vma + sec.outputOffset

inductive IsaMode where
  | standard | mips16 | micromips
  deriving DecidableEq, Repr

structure ElfSym where
  name : String
  value : BfdVma
  isSection : Bool
  isa : IsaMode
  deriving DecidableEq, Repr

inductive LinkHashType where
  | new | undefined | undefweak | defined | defweak | common
  deriving DecidableEq, Repr

/-- A `struct mips_elf_link_hash_entry` at the end of its chain of indirect entries; `callsLocal` and
`referencesLocal` are what `SYMBOL_CALLS_LOCAL` and `SYMBOL_REFERENCES_LOCAL` say about it. -/
structure HashEntry where
  id : Nat
  name : String
  type : LinkHashType
  value : BfdVma
  sec : Option ElfSection
  isa : IsaMode
  defaultVisibility : Bool
  optional : Bool
  fnStub : Option ElfSection
  needFnStub : Bool
  callStub : Option ElfSection
  callFpStub : Option ElfSection
  la25Stub : Option (ElfSection × BfdVma)
  gotOnlyForCalls : Bool
  callsLocal : Bool
  referencesLocal : Bool
  gotNormal : Bool
  defDynamic : Bool
  defRegular : Bool
  hasStaticRelocs : Bool
  deriving DecidableEq, Repr

inductive SymRef where
  | «local» (sym : ElfSym) (sec : ElfSection) (stub callStub : Option ElfSection)
  | global (h : HashEntry)
  deriving DecidableEq, Repr

structure InternalRela where
  offset : BfdVma
  type : MipsReloc
  symndx : Nat
  sym : SymRef
  addend : BfdVma
  deriving DecidableEq, Repr

def SymRef.isLocal : SymRef → Bool
  | .local .. => true
  | .global _ => false

inductive ElfReport where
  | undefinedSymbol (name : String) (offset : BfdVma)
  | relocOverflow (name howtoName : String) (offset : BfdVma)
  | warning (message name : String) (offset : BfdVma)
  | smallData
  | error (message : String)
  deriving DecidableEq, Repr

/-- The link, the output file and the input file. `gp` is the value of gp of the output file, adjusted
for the GOT of the input file; a callback may look at the reports before its own. -/
structure ElfLink where
  relocatable : Bool
  shared : Bool
  isVxworks : Bool
  dynamicSectionsCreated : Bool
  unresolvedIgnore : Bool
  sgiCompat : Bool
  picObject : Bool
  jalToBal : Bool
  hasCallFpStubSection : Bool
  order : Endian
  gp0 : BfdVma
  outputGp : BfdVma
  gp : BfdVma
  dtprelBase : BfdVma
  tprelBase : BfdVma
  splt : Option ElfSection
  callback : List ElfReport → ElfReport → Bool

structure ElfLib where
  relLocalSym : ElfSym → ElfSection → BfdVma → BfdVma × ElfSection
  relaLocalSym : ElfSym → ElfSection → BfdVma → BfdVma
  clearContents : RelocHowto → Store → BfdVma → Store
  gprel16RelocP : MipsReloc → Bool
  literalRelocP : MipsReloc → Bool

/-- The two predicates of `elfxx-mips.h` hold for gp-relative types only. -/
def ElfLib.GpRelativeOnly (lib : ElfLib) : Prop :=
  ∀ type, lib.gprel16RelocP type = true ∨ lib.literalRelocP type = true →
    type ∈ [.rMipsGprel16, .rMips16Gprel, .rMicromipsGprel16, .rMicromipsGprel7S2, .rMipsLiteral,
      .rMicromipsLiteral]

/-- The global offset table, as the relocation of one input file uses it. An index is missing where the
code returns `MINUS_ONE`. -/
structure GotOps (σ : Type) where
  localGotIndex : BfdVma → Nat → Option HashEntry → MipsReloc → σ → Option BfdVma × σ
  globalGotIndex : HashEntry → MipsReloc → σ → BfdVma × σ
  gotpltIndex : HashEntry → σ → BfdVma × σ
  got16Entry : BfdVma → Bool → σ → Option BfdVma × σ
  gotPage : BfdVma → σ → Option (BfdVma × BfdVma) × σ
  gotOffsetFromIndex : BfdVma → σ → BfdVma
  putGotWord : BfdVma → BfdVma → σ → σ
  addGottReloc : InternalRela → BfdVma → σ → σ
  createDynamicRelocation : InternalRela → BfdVma → BfdVma → σ → Option BfdVma × σ

end Openisa.Elf
