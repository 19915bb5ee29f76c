import Openisa.Library.SlotTable
import Mathlib.Data.BitVec

/-! The entries of a global offset table: what each stands for, and which of them share a slot. -/

namespace Openisa.Got

open Openisa.Library

abbrev TlsType := BitVec 8

def gotNormal : TlsType := 0
def gotTlsGd : TlsType := 1
def gotTlsLdm : TlsType := 2
def gotTlsIe : TlsType := 4

/-- The area of the global table that a symbol needs a place in. -/
inductive GlobalGotArea where
  | normal | relocOnly | none
  deriving DecidableEq, Repr

/-- What an entry stands for: an address, a local symbol of an input with an addend, or a global
symbol that the input refers to. -/
inductive GotKey (β η : Type) where
  | address (address : BitVec 64)
  | symbol (abfd : β) (symndx : Nat) (addend : BitVec 64)
  | global (abfd : β) (h : η)
  deriving DecidableEq, Repr

structure GotEntry (β η : Type) where
  key : GotKey β η
  tlsType : TlsType
  deriving DecidableEq, Repr

structure PageRange where
  minAddend : Int
  maxAddend : Int
  deriving DecidableEq, Repr

structure PageEntry (β : Type) where
  abfd : β
  symndx : Nat
  ranges : List PageRange
  numPages : BitVec 64
  deriving DecidableEq, Repr

/-- What the linker knows about a table: the tables of entries as lists, the counts as they wrap. -/
structure GotInfo (β η : Type) where
  globalGotno : BitVec 32
  relocOnlyGotno : BitVec 32
  tlsGotno : BitVec 32
  localGotno : BitVec 32
  pageGotno : BitVec 32
  assignedGotno : BitVec 32
  gotEntries : List (GotEntry β η)
  gotPageEntries : List (PageEntry β)
  tlsLdmOffset : BitVec 64
  deriving DecidableEq, Repr

variable {β η : Type} [DecidableEq β] [DecidableEq η]

def GotKey.abfd : GotKey β η → Option β
  | .address _ => none
  | .symbol abfd _ _ => some abfd
  | .global abfd _ => some abfd

def TlsType.ldmP (t : TlsType) : Bool := t &&& gotTlsLdm ≠ 0

def GotEntry.ldm (entry : GotEntry β η) : Bool := TlsType.ldmP entry.tlsType

def mipsElfGotEntryEq (e1 e2 : GotEntry β η) : Bool :=
  -- An LDM entry can only match another LDM entry.
  if (e1.tlsType ^^^ e2.tlsType) &&& gotTlsLdm ≠ 0 then false else
  match e1.key, e2.key with
  | .address a1, .address a2 => a1 == a2
  | .symbol b1 s1 a1, .symbol b2 s2 a2 => b1 == b2 && s1 == s2 && a1 == a2
  | .global b1 h1, .global b2 h2 => b1 == b2 && h1 == h2
  | _, _ => false

/-- The comparison of the tables that several inputs share: a global symbol has one entry in each. -/
def mipsElfMultiGotEntryEq (e1 e2 : GotEntry β η) : Bool :=
  -- Any two LDM entries match, and nothing else matches one.
  if e1.tlsType &&& e2.tlsType &&& gotTlsLdm ≠ 0 then true else
  if (e1.tlsType ^^^ e2.tlsType) &&& gotTlsLdm ≠ 0 then false else
  match e1.key, e2.key with
  | .address a1, .address a2 => a1 == a2
  | .symbol b1 s1 a1, .symbol b2 s2 a2 => s1 == s2 && b1 == b2 && a1 == a2
  | .global _ h1, .global _ h2 => h1 == h2
  | _, _ => false

def mipsGotPageEntryEq (e1 e2 : PageEntry β) : Bool := e1.abfd == e2.abfd && e1.symndx == e2.symndx

/-- What two entries share when the tables of several inputs compare them. -/
inductive MultiSlot (β η : Type) where
  | ldm
  | address (address : BitVec 64)
  | symbol (abfd : β) (symndx : Nat) (addend : BitVec 64)
  | global (h : η)

def GotEntry.multiSlot (entry : GotEntry β η) : MultiSlot β η :=
  match entry.ldm, entry.key with
  | true, _ => .ldm
  | false, .address a => .address a
  | false, .symbol abfd symndx addend => .symbol abfd symndx addend
  | false, .global _ h => .global h

theorem and_ldm (t : TlsType) : t &&& gotTlsLdm = 0 ∨ t &&& gotTlsLdm = gotTlsLdm := by
  revert t
  decide

theorem ldm_both (t u : TlsType) :
    t &&& u &&& gotTlsLdm ≠ 0 ↔ TlsType.ldmP t = true ∧ TlsType.ldmP u = true := by
  have shared : t &&& u &&& gotTlsLdm = (t &&& gotTlsLdm) &&& (u &&& gotTlsLdm) := by
    rw [BitVec.and_assoc, BitVec.and_assoc, ← BitVec.and_assoc gotTlsLdm u,
      BitVec.and_comm gotTlsLdm u, BitVec.and_assoc u, BitVec.and_self]
  rw [shared, TlsType.ldmP, TlsType.ldmP]
  rcases and_ldm t with first | first <;> rcases and_ldm u with second | second <;>
    rw [first, second] <;> decide

theorem ldm_one (t u : TlsType) :
    (t ^^^ u) &&& gotTlsLdm ≠ 0 ↔ TlsType.ldmP t ≠ TlsType.ldmP u := by
  have shared : (t ^^^ u) &&& gotTlsLdm = (t &&& gotTlsLdm) ^^^ (u &&& gotTlsLdm) := by
    ext i inside
    simp [Bool.and_xor_distrib_right]
  rw [shared, TlsType.ldmP, TlsType.ldmP]
  rcases and_ldm t with first | first <;> rcases and_ldm u with second | second <;>
    rw [first, second] <;> decide

theorem multi_got_entry_eq_iff (e1 e2 : GotEntry β η) :
    mipsElfMultiGotEntryEq e1 e2 = true ↔ e1.multiSlot = e2.multiSlot := by
  simp only [mipsElfMultiGotEntryEq, ldm_both, ldm_one, GotEntry.multiSlot, GotEntry.ldm]
  cases TlsType.ldmP e1.tlsType <;> cases TlsType.ldmP e2.tlsType <;>
    cases e1.key <;> cases e2.key <;> simp [and_assoc, and_left_comm]

theorem multi_got_slots : SlotTable.SlotTest (mipsElfMultiGotEntryEq : GotEntry β η → GotEntry β η → Bool) where
  refl x := (multi_got_entry_eq_iff x x).mpr rfl
  symm same := (multi_got_entry_eq_iff _ _).mpr ((multi_got_entry_eq_iff _ _).mp same).symm
  trans first second := (multi_got_entry_eq_iff _ _).mpr
    (((multi_got_entry_eq_iff _ _).mp first).trans ((multi_got_entry_eq_iff _ _).mp second))

theorem got_entry_eq_iff (e1 e2 : GotEntry β η) :
    mipsElfGotEntryEq e1 e2 = true ↔ e1.ldm = e2.ldm ∧ e1.key = e2.key := by
  simp only [mipsElfGotEntryEq, ldm_one, GotEntry.ldm]
  cases TlsType.ldmP e1.tlsType <;> cases TlsType.ldmP e2.tlsType <;>
    cases e1.key <;> cases e2.key <;> simp [and_assoc]

theorem got_slots : SlotTable.SlotTest (mipsElfGotEntryEq : GotEntry β η → GotEntry β η → Bool) where
  refl x := (got_entry_eq_iff x x).mpr ⟨rfl, rfl⟩
  symm same := by
    rw [got_entry_eq_iff] at same ⊢
    exact ⟨same.1.symm, same.2.symm⟩
  trans first second := by
    rw [got_entry_eq_iff] at first second ⊢
    exact ⟨first.1.trans second.1, first.2.trans second.2⟩

theorem page_slots : SlotTable.SlotTest (mipsGotPageEntryEq : PageEntry β → PageEntry β → Bool) where
  refl x := by simp [mipsGotPageEntryEq]
  symm same := by
    simp only [mipsGotPageEntryEq, Bool.and_eq_true, beq_iff_eq] at same ⊢
    exact ⟨same.1.symm, same.2.symm⟩
  trans first second := by
    simp only [mipsGotPageEntryEq, Bool.and_eq_true, beq_iff_eq] at first second ⊢
    exact ⟨first.1.trans second.1, first.2.trans second.2⟩

theorem got_entry_eq_of_multi {e1 e2 : GotEntry β η} (input : e1.key.abfd = e2.key.abfd)
    (plain : e1.ldm = false) (same : mipsElfMultiGotEntryEq e1 e2 = true) :
    mipsElfGotEntryEq e1 e2 = true := by
  rw [multi_got_entry_eq_iff] at same
  rw [got_entry_eq_iff]
  revert same input
  simp only [GotEntry.multiSlot, plain]
  cases e2.ldm <;> cases e1.key <;> cases e2.key <;> simp +contextual [GotKey.abfd]

end Openisa.Got
