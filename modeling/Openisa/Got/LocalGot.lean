import Openisa.Elf.CalculateRelocation
import Openisa.Got.PageEntries

/-! The entries for local values, which the linker adds to a table while it processes relocations. -/

namespace Openisa.Got

open Openisa.Bfd
open Openisa.Elf
open Openisa.Library
open Openisa.Library.ByteStore

structure PlacedEntry (β η : Type) where
  entry : GotEntry β η
  gotidx : Int
  deriving DecidableEq, Repr

structure GotFormat where
  order : Endian
  abi64 : Bool
  multi : Bool
  isVxworks : Bool
  sgot : BfdVma

def GotFormat.gotSize (f : GotFormat) : BitVec 32 := if f.abi64 then 8 else 4

def mipsElfPutWord (f : GotFormat) (val : BfdVma) (contents : Store) (loc : Nat) : Store :=
  if f.abi64 then store f.order 8 val.toNat contents loc else store f.order 4 val.toNat contents loc

def mipsElfGetWord (f : GotFormat) (contents : Store) (loc : Nat) : Nat :=
  if f.abi64 then load f.order 8 contents loc else load f.order 4 contents loc

structure GotRela where
  offset : BfdVma
  addend : BfdVma
  deriving DecidableEq, Repr

structure LocalGot (β η : Type) where
  gotEntries : List (PlacedEntry β η)
  assignedGotno : BitVec 32
  localGotno : BitVec 32
  contents : Store
  relDyn : List GotRela

variable {β η : Type} [DecidableEq β] [DecidableEq η]

def gotEntryEq (multi : Bool) : GotEntry β η → GotEntry β η → Bool :=
  if multi then mipsElfMultiGotEntryEq else mipsElfGotEntryEq

def addressEntry (value : BfdVma) (gotidx : Int) : PlacedEntry β η := ⟨⟨.address value, gotNormal⟩, gotidx⟩

def findAddress (f : GotFormat) (entries : List (PlacedEntry β η)) (value : BfdVma) : Option (PlacedEntry β η) :=
  entries.find? fun placed => gotEntryEq f.multi ⟨.address value, gotNormal⟩ placed.entry

/-- The entry for an address, created if there is none; nothing where the code returns `NULL`. -/
def mipsElfCreateLocalGotEntry (f : GotFormat) (g : LocalGot β η) (value : BfdVma) :
    LocalGot β η × Option (PlacedEntry β η) :=
  match findAddress f g.gotEntries value with
  | some placed => (g, some placed)
  | none =>
      let gotidx := f.gotSize * g.assignedGotno
      let assignedGotno := g.assignedGotno + 1
      if assignedGotno > g.localGotno then
        -- the entry stays in the table
        ({ g with gotEntries := g.gotEntries ++ [addressEntry value (-1)], assignedGotno := assignedGotno }, none)
      else
        let placed : PlacedEntry β η := addressEntry value gotidx.toNat
        ({ g with
            gotEntries := g.gotEntries ++ [placed]
            assignedGotno := assignedGotno
            contents := mipsElfPutWord f value g.contents gotidx.toNat
            relDyn := if f.isVxworks then g.relDyn ++ [⟨f.sgot + gotidx.setWidth 64, value⟩] else g.relDyn },
          some placed)

def entryIndex (entry : Option (PlacedEntry β η)) : BfdVma :=
  match entry with
  | some placed => BitVec.ofInt 64 placed.gotidx
  | none => minusOne

def mipsElfLocalGotIndex (f : GotFormat) (g : LocalGot β η) (value : BfdVma) : LocalGot β η × BfdVma :=
  let (g, entry) := mipsElfCreateLocalGotEntry f g value
  (g, entryIndex entry)

def PlacedEntry.address (placed : PlacedEntry β η) : BfdVma :=
  match placed.entry.key with
  | .address address => address
  -- the union is not read for other entries
  | _ => 0

/-- The index of the page of a value and the offset from that page; the latter stays unset where no entry
could be created. -/
def mipsElfGotPage (f : GotFormat) (g : LocalGot β η) (value : BfdVma) :
    LocalGot β η × BfdVma × Option BfdVma :=
  let (g, entry) := mipsElfCreateLocalGotEntry f g (pageAddress value)
  (g, entryIndex entry, entry.map fun placed => value - placed.address)

def got16Value (value : BfdVma) (external : Bool) : BfdVma :=
  if external then value else mipsElfHigh value <<< 16

def mipsElfGot16Entry (f : GotFormat) (g : LocalGot β η) (value : BfdVma) (external : Bool) :
    LocalGot β η × BfdVma :=
  let (g, entry) := mipsElfCreateLocalGotEntry f g (got16Value value external)
  (g, entryIndex entry)

/-- A request that is not for a thread-local symbol. -/
inductive LocalRequest where
  | entry (value : BfdVma)
  | page (value : BfdVma)
  | got16 (value : BfdVma) (external : Bool)
  deriving DecidableEq, Repr

def LocalRequest.value : LocalRequest → BfdVma
  | .entry value => value
  | .page value => pageAddress value
  | .got16 value external => got16Value value external

def LocalRequest.serve (f : GotFormat) (g : LocalGot β η) : LocalRequest → LocalGot β η × BfdVma
  | .entry value => mipsElfLocalGotIndex f g value
  | .page value => ((mipsElfGotPage f g value).1, (mipsElfGotPage f g value).2.1)
  | .got16 value external => mipsElfGot16Entry f g value external

def serveAll (f : GotFormat) (g : LocalGot β η) (requests : List LocalRequest) : LocalGot β η :=
  requests.foldl (fun g request => (request.serve f g).1) g

theorem serve_eq (f : GotFormat) (g : LocalGot β η) (request : LocalRequest) :
    request.serve f g = ((mipsElfCreateLocalGotEntry f g request.value).1,
      entryIndex (mipsElfCreateLocalGotEntry f g request.value).2) := by
  cases request with
  | entry value => rfl
  | page value => rfl
  | got16 value external => rfl

def pageOps (f : GotFormat) (ops : GotOps (LocalGot β η)) : GotOps (LocalGot β η) :=
  { ops with
    gotPage := fun value g =>
      let (g, index, offset) := mipsElfGotPage f g value
      (if index = minusOne then none else offset.map fun offset => (index, offset), g) }

theorem got_entry_eq_address (multi : Bool) (value : BfdVma) (entry : GotEntry β η) :
    gotEntryEq multi ⟨.address value, gotNormal⟩ entry = true ↔
      entry.key = .address value ∧ entry.ldm = false := by
  have plain : (⟨.address value, gotNormal⟩ : GotEntry β η).ldm = false :=
    show TlsType.ldmP gotNormal = false by decide
  cases multi with
  | false =>
      change mipsElfGotEntryEq _ _ = true ↔ _
      rw [got_entry_eq_iff, plain, and_comm, eq_comm, @eq_comm _ false]
  | true =>
      change mipsElfMultiGotEntryEq _ _ = true ↔ _
      rw [multi_got_entry_eq_iff, GotEntry.multiSlot, GotEntry.multiSlot, plain]
      cases entry.ldm with
      | true => simp
      | false => cases entry.key <;> simp [eq_comm]

theorem got_size_toNat (f : GotFormat) : f.gotSize.toNat = if f.abi64 then 8 else 4 := by
  rw [GotFormat.gotSize]
  split <;> rfl

theorem got_size_pos (f : GotFormat) : 0 < f.gotSize.toNat := by
  rw [got_size_toNat]
  split <;> decide

theorem put_word_eq (f : GotFormat) (val : BfdVma) (contents : Store) (loc : Nat) :
    mipsElfPutWord f val contents loc = store f.order f.gotSize.toNat val.toNat contents loc := by
  rw [mipsElfPutWord, got_size_toNat]
  split <;> rfl

theorem get_word_eq (f : GotFormat) (contents : Store) (loc : Nat) :
    mipsElfGetWord f contents loc = load f.order f.gotSize.toNat contents loc := by
  rw [mipsElfGetWord, got_size_toNat]
  split <;> rfl

theorem get_put_word (f : GotFormat) (val : BfdVma) (contents : Store) (loc : Nat) :
    mipsElfGetWord f (mipsElfPutWord f val contents loc) loc = val.toNat % 256 ^ f.gotSize.toNat := by
  rw [get_word_eq, put_word_eq, load_store]

theorem get_put_word_apart (f : GotFormat) (val : BfdVma) (contents : Store) {slot slot' : Nat}
    (apart : slot ≠ slot') :
    mipsElfGetWord f (mipsElfPutWord f val contents (f.gotSize.toNat * slot)) (f.gotSize.toNat * slot') =
      mipsElfGetWord f contents (f.gotSize.toNat * slot') := by
  rw [get_word_eq, get_word_eq, put_word_eq]
  apply load_store_disjoint
  rcases Nat.lt_or_gt_of_ne apart with before | behind
  · right
    calc
      f.gotSize.toNat * slot + f.gotSize.toNat = f.gotSize.toNat * (slot + 1) := (Nat.mul_succ _ _).symm
      _ ≤ f.gotSize.toNat * slot' := Nat.mul_le_mul_left _ before
  · left
    calc
      f.gotSize.toNat * slot' + f.gotSize.toNat = f.gotSize.toNat * (slot' + 1) := (Nat.mul_succ _ _).symm
      _ ≤ f.gotSize.toNat * slot := Nat.mul_le_mul_left _ behind

end Openisa.Got
