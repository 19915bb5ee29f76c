import Openisa.Got.LocalGot
import Openisa.Library.BumpLayout

/-! The places of the thread-local entries of a table, and the dynamic relocations they need. -/

namespace Openisa.Got

open Openisa.Bfd
open Openisa.Library

def minusTwo : BfdVma := 0 - 2

def gotTlsOffsetDone : TlsType := 0x40
def gotTlsDone : TlsType := 0x80

structure LinkInfo where
  shared : Bool
  dynamicSectionsCreated : Bool
  deriving DecidableEq, Repr

/-- A global symbol. The first two fields are what macros of the library's headers say of it. -/
structure TlsSymbol where
  willCallFinishDynamicSymbol : Bool
  referencesLocal : Bool
  dynindx : Int
  defaultVisibility : Bool
  undefweak : Bool
  defDynamic : Bool
  defRegular : Bool
  deriving DecidableEq, Repr

def tlsIndx (info : LinkInfo) (h : Option TlsSymbol) : BitVec 32 :=
  match h with
  | some h =>
      if h.willCallFinishDynamicSymbol && (!info.shared || !h.referencesLocal) then BitVec.ofInt 32 h.dynindx
      else 0
  | none => 0

def tlsNeedRelocs (info : LinkInfo) (h : Option TlsSymbol) : Bool :=
  (info.shared || tlsIndx info h != 0) &&
    match h with
    | some h => h.defaultVisibility || !h.undefweak
    | none => true

def mipsTlsGotRelocs (info : LinkInfo) (tlsType : TlsType) (h : Option TlsSymbol) : Nat :=
  if !tlsNeedRelocs info h then 0 else
  let ret := if tlsType &&& gotTlsGd ≠ 0 then (if tlsIndx info h ≠ 0 then 2 else 1) else 0
  let ret := if tlsType &&& gotTlsIe ≠ 0 then ret + 1 else ret
  if tlsType &&& gotTlsLdm ≠ 0 ∧ info.shared then ret + 1 else ret

/-- What the hash table keeps of the thread-local accesses to each symbol. -/
structure HashTls (η : Type) where
  tlsType : η → TlsType
  tlsGotOffset : η → BfdVma

structure TlsIndexState (η : Type) where
  tlsAssignedGotno : BitVec 32
  tlsLdmOffset : BfdVma
  hash : HashTls η

variable {β η : Type} [DecidableEq η]

def accessSlots (tlsType : TlsType) : Nat :=
  (if tlsType &&& (gotTlsGd ||| gotTlsLdm) ≠ 0 then 2 else 0) + if tlsType &&& gotTlsIe ≠ 0 then 1 else 0

def TlsIndexState.account (s : TlsIndexState η) (tlsType : TlsType) : TlsIndexState η :=
  let s := if tlsType &&& (gotTlsGd ||| gotTlsLdm) ≠ 0 then { s with tlsAssignedGotno := s.tlsAssignedGotno + 2 }
    else s
  if tlsType &&& gotTlsIe ≠ 0 then { s with tlsAssignedGotno := s.tlsAssignedGotno + 1 } else s

/-- Give a thread-local entry its place. In a link with a single table the hash table tracks the place of
a global symbol. -/
def mipsElfInitializeTlsIndex (f : GotFormat) (single : Bool) (s : TlsIndexState η) (placed : PlacedEntry β η) :
    TlsIndexState η × PlacedEntry β η :=
  if placed.entry.tlsType = 0 then (s, placed) else
  let nextIndex : BfdVma := f.gotSize.setWidth 64 * s.tlsAssignedGotno.setWidth 64
  match single, placed.entry.key with
  | true, .global _ h =>
      if s.hash.tlsType h &&& gotTlsOffsetDone ≠ 0 then (s, placed) else
      let tlsType := s.hash.tlsType h ||| gotTlsOffsetDone
      ({ s with
          hash := { tlsType := Function.update s.hash.tlsType h tlsType
                    tlsGotOffset := Function.update s.hash.tlsGotOffset h nextIndex } }.account tlsType, placed)
  | _, _ =>
      if placed.entry.ldm then
        -- all LDM entries of a table have one place
        if s.tlsLdmOffset ≠ minusTwo ∧ s.tlsLdmOffset ≠ minusOne then
          (s, { placed with gotidx := s.tlsLdmOffset.toInt })
        else ({ s with tlsLdmOffset := nextIndex }.account placed.entry.tlsType,
          { placed with gotidx := nextIndex.toInt })
      else (s.account placed.entry.tlsType, { placed with gotidx := nextIndex.toInt })

structure GlobalOffsetArg where
  assignedGotno : BitVec 32
  neededRelocs : BitVec 32
  deriving DecidableEq, Repr

def GotKey.symbolOf (sym : η → TlsSymbol) : GotKey β η → Option TlsSymbol
  | .global _ h => some (sym h)
  | _ => none

/-- Give a global symbol its place in a table that is not the primary one, and count the relocations
that the table needs. -/
def mipsElfSetGlobalGotOffset (f : GotFormat) (info : LinkInfo) (sym : η → TlsSymbol) (area : η → GlobalGotArea)
    (arg : GlobalOffsetArg) (placed : PlacedEntry β η) : GlobalOffsetArg × PlacedEntry β η :=
  let arg := if placed.entry.tlsType ≠ gotNormal then
      { arg with neededRelocs := arg.neededRelocs +
          BitVec.ofNat 32 (mipsTlsGotRelocs info placed.entry.tlsType (placed.entry.key.symbolOf sym)) }
    else arg
  match placed.entry.key with
  | .global _ h =>
      if area h ≠ .none then
        let gotidx : Int := f.gotSize.toNat * arg.assignedGotno.toNat
        let arg := { arg with assignedGotno := arg.assignedGotno + 1 }
        let dynamic := info.shared ||
          (info.dynamicSectionsCreated && (sym h).defDynamic && !(sym h).defRegular)
        (if dynamic then { arg with neededRelocs := arg.neededRelocs + 1 } else arg,
          { placed with gotidx := gotidx })
      else (arg, placed)
  | _ => (arg, placed)

/-- `mips_elf_set_global_got_offset` where it is not given a table. -/
def mipsElfSetGlobalGotArea (value : GlobalGotArea) (area : η → GlobalGotArea) (entry : GotEntry β η) :
    η → GlobalGotArea :=
  match entry.key with
  | .global _ h => if area h ≠ .none then Function.update area h value else area
  | _ => area

end Openisa.Got
