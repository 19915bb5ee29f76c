import Openisa.Elf.LinkData
import Openisa.Got.Entry
import Openisa.Library.Forwarding
import Mathlib.Algebra.BigOperators.Group.Finset.Piecewise
import Mathlib.Algebra.Order.BigOperators.Group.Finset

/-! The symbols of a link and the section `.rel.dyn`, as the passes that size the dynamic sections use them. -/

namespace Openisa.Dynamic

open Openisa.Bfd
open Openisa.Elf
open Openisa.Got
open Openisa.Library

/-- The link, with the options for copy relocations and PLT entries and the sizes of the parts of a PLT. -/
structure DynLink extends ElfLink where
  symbolic : Bool
  nocopyreloc : Bool
  usePltsAndCopyRelocs : Bool
  pltHeaderSize : Nat
  pltEntrySize : Nat
  gotHeaderSize : Nat

structure InputFile where
  id : Nat
  newabi : Bool
  picObject : Bool
  gp0 : BfdVma
  gp : BfdVma
  deriving DecidableEq, Repr

def DynLink.forInput (link : DynLink) (abfd : InputFile) : ElfLink :=
  { link.toElfLink with picObject := abfd.picObject, gp0 := abfd.gp0, gp := abfd.gp }

/-- A section of an input file. The reader of the file marks as debugging only what is not allocated. -/
structure InputSection where
  abfd : InputFile
  sec : ElfSection
  readonly : Bool
  debugging : Bool
  debugging_not_alloc : debugging = true → sec.alloc = false
  deriving DecidableEq, Repr

variable {η : Type}

inductive RelocSym (η : Type) where
  | «local» (sym : ElfSym) (sec : ElfSection) (stub callStub : Option ElfSection)
  | global (h : η)
  deriving DecidableEq, Repr

def RelocSym.hash? : RelocSym η → Option η
  | .local .. => none
  | .global h => some h

structure LinkReloc (η : Type) where
  input : InputSection
  offset : BfdVma
  type : MipsReloc
  symndx : Nat
  sym : RelocSym η
  addend : BfdVma
  deriving DecidableEq, Repr

/-- What room in `.rel.dyn` is asked for: the absolute relocations against a symbol, the reference of a
VxWorks library to one of its two special symbols, or a copy relocation. -/
inductive RoomFor (η : Type) where
  | «local» (input symndx : Nat)
  | global (h : η)
  | gott (h : η)
  | copy (h : η)
  deriving DecidableEq, Repr

/-- `MIPS_ELF_REL_SIZE` and `MIPS_ELF_RELA_SIZE` of a 32-bit file. -/
def relSize (link : DynLink) : Nat := if link.isVxworks then 12 else 8

/-- The section `.rel.dyn` while it is sized. `asked` keeps, for each request, who it was for and how many
relocations fit into the room that it got. -/
structure RelDyn (η : Type) where
  size : Nat
  relocCount : Nat
  asked : List (RoomFor η × Nat)
  deriving DecidableEq, Repr

def RelDyn.empty : RelDyn η := ⟨0, 0, []⟩

/-- The bytes for `n` relocations are computed in 32 bits. -/
def relBytes (link : DynLink) (n : BitVec 32) : Nat := (n * BitVec.ofNat 32 (relSize link)).toNat

def RelDyn.mipsElfAllocateDynamicRelocations (link : DynLink) (who : RoomFor η) (n : BitVec 32)
    (s : RelDyn η) : RelDyn η :=
  -- the first request makes room for a null element
  let s := if !link.isVxworks && s.size = 0
    then { s with size := relSize link, relocCount := s.relocCount + 1 } else s
  { s with
    size := s.size + relBytes link n
    asked := s.asked ++ [(who, relBytes link n / relSize link)] }

theorem RelDyn.asked_allocate (link : DynLink) (who : RoomFor η) (n : BitVec 32) (s : RelDyn η) :
    (s.mipsElfAllocateDynamicRelocations link who n).asked = s.asked ++ [(who, relBytes link n / relSize link)] := by
  unfold mipsElfAllocateDynamicRelocations
  split <;> rfl

section Reserved

variable [DecidableEq η]

def RelDyn.reserved (s : RelDyn η) (who : RoomFor η) : Nat :=
  ((s.asked.filter fun request => request.1 = who).map Prod.snd).sum

theorem RelDyn.reserved_allocate (link : DynLink) (who other : RoomFor η) (n : BitVec 32) (s : RelDyn η) :
    (s.mipsElfAllocateDynamicRelocations link who n).reserved other =
      s.reserved other + if who = other then relBytes link n / relSize link else 0 := by
  unfold reserved
  rw [RelDyn.asked_allocate, List.filter_append, List.map_append, List.sum_append]
  by_cases same : who = other
  · simp [same]
  · simp [same]

theorem RelDyn.length_le_asked (s : RelDyn η) (owners : List (RoomFor η))
    (fits : ∀ who, owners.count who ≤ s.reserved who) : owners.length ≤ (s.asked.map Prod.snd).sum := by
  have shares : ∀ asked : List (RoomFor η × Nat),
      ∑ who ∈ owners.toFinset, ((asked.filter fun request => request.1 = who).map Prod.snd).sum ≤
        (asked.map Prod.snd).sum := by
    intro asked
    induction asked with
    | nil => simp
    | cons request rest ih =>
      have split : ∀ who, (((request :: rest).filter fun request => request.1 = who).map Prod.snd).sum =
          (if request.1 = who then request.2 else 0) +
            ((rest.filter fun request => request.1 = who).map Prod.snd).sum := by
        intro who
        by_cases own : request.1 = who <;> simp [own]
      simp only [split, Finset.sum_add_distrib, Finset.sum_ite_eq, List.map_cons, List.sum_cons]
      refine Nat.add_le_add ?_ ih
      split <;> simp
  calc owners.length = ∑ who ∈ owners.toFinset, owners.count who :=
        (List.sum_toFinset_count_eq_length owners).symm
    _ ≤ ∑ who ∈ owners.toFinset, s.reserved who := Finset.sum_le_sum fun who _ => fits who
    _ ≤ (s.asked.map Prod.snd).sum := shares s.asked

theorem rel_room_one (link : DynLink) : relBytes link 1 / relSize link = 1 := by
  unfold relBytes relSize
  split <;> rfl

theorem rel_room {link : DynLink} (notVxworks : link.isVxworks = false) (n : BitVec 32) :
    relBytes link n / relSize link = n.toNat % 2 ^ 29 := by
  have entry : relSize link = 8 := by simp [relSize, notVxworks]
  rw [relBytes, entry, BitVec.toNat_mul]
  have eight : (BitVec.ofNat 32 8).toNat = 8 := by decide
  rw [eight]
  omega

end Reserved

/-- A symbol of the link: the entry that relocation will look at, and what the dynamic sections depend on. -/
structure MipsSymbol (η : Type) where
  entry : HashEntry
  needsPlt : Bool
  typeFunc : Bool
  weakdef : Option η
  dynamic : Bool
  forcedLocal : Bool
  pointerEqualityNeeded : Bool
  needsCopy : Bool
  pltOffset : Option Nat
  possiblyDynamicRelocs : BitVec 32
  readonlyReloc : Bool
  noFnStub : Bool
  needsLazyStub : Bool
  globalGotArea : GlobalGotArea
  deriving DecidableEq, Repr

/-- The generic linker changes a symbol: the name stays, and what the relocations have left in the fields of
the MIPS backend. -/
def MipsSymbol.settle (old new : MipsSymbol η) : MipsSymbol η :=
  { new with
    entry := { new.entry with
      id := old.entry.id
      name := old.entry.name
      hasStaticRelocs := old.entry.hasStaticRelocs
      needFnStub := old.entry.needFnStub }
    possiblyDynamicRelocs := old.possiblyDynamicRelocs
    readonlyReloc := old.readonlyReloc
    noFnStub := old.noFnStub }

/-- `GGA_NORMAL`, `GGA_RELOC_ONLY` and `GGA_NONE`. -/
def ggaNumber : GlobalGotArea → Nat
  | .normal => 0
  | .relocOnly => 1
  | .none => 2

structure SymbolTable (η : Type) where
  links : Forwarding η
  symbol : η → MipsSymbol η

namespace SymbolTable

/-- The entry at the end of the chain of the symbol of a relocation; none for a local symbol. -/
def hash? (table : SymbolTable η) (sym : RelocSym η) : Option η := sym.hash?.map table.links.root

variable [DecidableEq η]

def modify (table : SymbolTable η) (h : η) (f : MipsSymbol η → MipsSymbol η) : SymbolTable η :=
  { table with symbol := Function.update table.symbol h (f (table.symbol h)) }

variable (table : SymbolTable η) (h : η) (f : MipsSymbol η → MipsSymbol η)

@[simp] theorem modify_links : (table.modify h f).links = table.links := rfl

@[simp] theorem modify_symbol : (table.modify h f).symbol h = f (table.symbol h) := by
  simp [modify]

theorem modify_symbol_ne {h' : η} (other : h' ≠ h) : (table.modify h f).symbol h' = table.symbol h' := by
  simp [modify, other]

end SymbolTable

def LinkReloc.rela (r : LinkReloc η) (table : SymbolTable η) : InternalRela :=
  { offset := r.offset
    type := r.type
    symndx := r.symndx
    sym := match r.sym with
      | .local sym sec stub callStub => .local sym sec stub callStub
      | .global h => .global (table.symbol (table.links.root h)).entry
    addend := r.addend }

def LinkReloc.owner (r : LinkReloc η) (links : Forwarding η) : RoomFor η :=
  match r.sym with
  | .local .. => .local r.input.abfd.id r.symndx
  | .global h => .global (links.root h)

end Openisa.Dynamic
