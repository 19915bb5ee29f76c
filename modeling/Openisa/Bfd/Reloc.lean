import Openisa.Bfd.Shuffle
import Openisa.Library.PendingQueue

/-! Sections, symbols and relocation entries of the generic link path, the state that its special
functions share, and the parts of libbfd that they call. -/

namespace Openisa.Bfd

open Openisa.Library
open Openisa.Library.ByteStore

structure OutputSection where
  vma : BfdVma
  deriving DecidableEq, Repr

inductive SectionKind where
  | regular | undefined | common | absolute
  deriving DecidableEq, Repr

/-- `limit` is what `bfd_get_asectionlimit` returns for the section. -/
structure Asection where
  kind : SectionKind
  outputSection : OutputSection
  outputOffset : BfdVma
  limit : BfdVma
  deriving DecidableEq, Repr

structure SymbolFlags where
  sectionSym : Bool
  isGlobal : Bool
  isWeak : Bool
  isLocal : Bool
  deriving DecidableEq, Repr

structure Asymbol where
  name : String
  asection : Asection
  value : BfdVma
  flags : SymbolFlags
  deriving DecidableEq, Repr

/-- `symbol->section->output_section->vma + symbol->section->output_offset + symbol->value`. -/
def Asymbol.address (symbol : Asymbol) : BfdVma :=
  symbol.asection.outputSection.vma + symbol.asection.outputOffset + symbol.value

structure Arelent where
  address : BfdVma
  addend : BfdVma
  howto : RelocHowto
  sym : Asymbol
  deriving DecidableEq, Repr

abbrev DataPtr := Nat

/-- A `struct mips_hi16`; its `next` field is the tail of the list it stands in. -/
structure MipsHi16 where
  data : DataPtr
  inputSection : Asection
  rel : Arelent
  deriving DecidableEq, Repr

/-- What happens to a pending high part: it is queued, or relocated with the symbol and during the
processing of the data that the event names. -/
abbrev Hi16Event := PendingQueue.Event MipsHi16 (Asymbol × DataPtr)

/-- `history` records the events of `mips_hi16_list`; no branch reads it. -/
structure RelocState where
  mem : DataPtr → Store
  mipsHi16List : List MipsHi16
  gpValue : BfdVma
  history : List Hi16Event

/-- The part of the state that is `mips_hi16_list` and what happened to it. -/
def RelocState.queue (s : RelocState) : PendingQueue.Queue MipsHi16 (Asymbol × DataPtr) :=
  ⟨s.mipsHi16List, s.history⟩

def RelocState.setData (s : RelocState) (data : DataPtr) (d : Store) : RelocState :=
  { s with mem := Function.update s.mem data d }

@[simp] theorem RelocState.setData_mem (s : RelocState) (data : DataPtr) (d : Store) :
    (s.setData data d).mem data = d := by
  simp only [RelocState.setData, Function.update_self]

theorem RelocState.setData_mem_other (s : RelocState) (data other : DataPtr) (d : Store)
    (ne : other ≠ data) : (s.setData data d).mem other = s.mem other := by
  simp only [RelocState.setData, Function.update_of_ne ne]

@[simp] theorem RelocState.setData_list (s : RelocState) (data : DataPtr) (d : Store) :
    (s.setData data d).mipsHi16List = s.mipsHi16List := rfl

@[simp] theorem RelocState.setData_gpValue (s : RelocState) (data : DataPtr) (d : Store) :
    (s.setData data d).gpValue = s.gpValue := rfl

@[simp] theorem RelocState.setData_history (s : RelocState) (data : DataPtr) (d : Store) :
    (s.setData data d).history = s.history := rfl

@[simp] theorem RelocState.setData_queue (s : RelocState) (data : DataPtr) (d : Store) :
    (s.setData data d).queue = s.queue := rfl

@[simp] theorem RelocState.setData_setData (s : RelocState) (data : DataPtr) (d d' : Store) :
    (s.setData data d).setData data d' = s.setData data d' := by
  simp only [RelocState.setData, Function.update_idem]

@[simp] theorem RelocState.setData_self (s : RelocState) (data : DataPtr) :
    s.setData data (s.mem data) = s := by
  simp only [RelocState.setData, Function.update_eq_self]

/-- The status that a special function returns, with its effects: the relocation entry it was given
a pointer to, the shared state, and the error message. -/
structure SpecialResult where
  status : BfdRelocStatus
  entry : Arelent
  state : RelocState
  errorMessage : Option String

structure BfdLib where
  relocateContents : RelocHowto → Endian → BfdVma → Store → Nat → BfdRelocStatus × Store
  performRelocation : Option (RelocState → SpecialResult) → Arelent → DataPtr → Asection → Bool →
    RelocState → SpecialResult
  bfdElfGenericReloc : Arelent → Store → Asection → Bool → BfdRelocStatus × Arelent × Store
  bfdElfRelVtableRelocFn : Arelent → Store → Asection → Bool → BfdRelocStatus × Arelent × Store
  literalRelocP : MipsReloc → Bool

/-- The word that `_bfd_relocate_contents` stores: the value, shifted into place, is added to the
field. -/
def relocatedWord (h : RelocHowto) (v x : BfdVma) : BfdVma :=
  (x &&& ~~~h.dstMask) ||| (((x &&& h.srcMask) + (v >>> h.rightshift) <<< h.bitpos) &&& h.dstMask)

/-- `_bfd_relocate_contents` reads a field of the howto's size, and stores the relocated one. -/
def BfdLib.StoresSum (lib : BfdLib) : Prop :=
  ∀ h order v d loc, (lib.relocateContents h order v d loc).2 =
    bfdPut order (bfdGetRelocSize h)
      (relocatedWord h v (bfdGet order (bfdGetRelocSize h) d loc)) d loc

/-- A howto that does not complain never makes `_bfd_relocate_contents` report an overflow. -/
def BfdLib.NeverComplains (lib : BfdLib) : Prop :=
  ∀ h order v d loc, h.complainOnOverflow = .dont → (lib.relocateContents h order v d loc).1 = .ok

/-- `_bfd_relocate_contents` returns nothing but these two. -/
def BfdLib.OkOrOverflow (lib : BfdLib) : Prop :=
  ∀ h order v d loc, (lib.relocateContents h order v d loc).1 = .ok ∨
    (lib.relocateContents h order v d loc).1 = .overflow

def FitsSigned (bits : Nat) (x : Int) : Prop := -2 ^ (bits - 1) ≤ x ∧ x < 2 ^ (bits - 1)

instance (bits : Nat) (x : Int) : Decidable (FitsSigned bits x) :=
  inferInstanceAs (Decidable (-2 ^ (bits - 1) ≤ x ∧ x < 2 ^ (bits - 1)))

def signedAddress (v : BfdVma) : Int := (v.setWidth 32).toInt

/-- With `complain_overflow_signed` the shifted value, and its sum with the sign-extended field, must
both fit the field. -/
def BfdLib.ChecksSigned (lib : BfdLib) : Prop :=
  ∀ h order v d loc, h.complainOnOverflow = .signed → h.WordField →
    ((lib.relocateContents h order v d loc).1 = .overflow ↔
      ¬ (FitsSigned h.bitsize (signedAddress v / 2 ^ h.rightshift) ∧
        FitsSigned h.bitsize (signedAddress v / 2 ^ h.rightshift +
          ((bfdGet32 order d loc).extractLsb' h.bitpos h.bitsize).toInt)))

/-- `bfd_perform_relocation` returns the special function's result unless that is
`bfd_reloc_continue`, except that a partial link leaves relocations against absolute symbols alone. -/
def BfdLib.ReturnsSpecial (lib : BfdLib) : Prop :=
  ∀ special entry data inputSection relocatable s,
    (relocatable = true → entry.sym.asection.kind ≠ .absolute) → (special s).status ≠ .continue →
      lib.performRelocation (some special) entry data inputSection relocatable s = special s

/-- A partial link only moves a relocation against an absolute symbol. -/
def BfdLib.KeepsAbsolute (lib : BfdLib) : Prop :=
  ∀ special entry data inputSection s, entry.sym.asection.kind = .absolute →
    lib.performRelocation special entry data inputSection true s =
      ⟨.ok, { entry with address := entry.address + inputSection.outputOffset }, s, none⟩

/-- `mips_hi16_list` is out of the reach of `bfd_perform_relocation`, which can only call a special
function. -/
def BfdLib.LeavesPending (lib : BfdLib) : Prop :=
  ∀ special entry data inputSection relocatable s,
    (∀ f, special = some f → (f s).state.queue = s.queue) →
      (lib.performRelocation special entry data inputSection relocatable s).state.queue = s.queue

end Openisa.Bfd
