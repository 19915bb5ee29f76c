import Openisa.Bfd.Shuffle
import Openisa.Library.ByteDeletion
import Openisa.Library.RepeatedUpdate
import Mathlib.Data.List.FinRange

/-! A code section with its relocations and symbols, and deleting bytes of it. -/

namespace Openisa.Relax

open Openisa.Bfd
open Openisa.Library
open Openisa.Library.ByteStore

/-- The symbol of a relocation is one of the `nl` local ones or of the `ng` global ones of the file. -/
structure Rela (nl ng : Nat) where
  offset : BfdVma
  type : MipsReloc
  sym : Fin nl ⊕ Fin ng
  deriving DecidableEq, Repr

/-- `sec` is the section that the symbol is defined in. -/
structure LocalSym where
  sec : Nat
  value : BfdVma
  isMicromips : Bool
  deriving DecidableEq, Repr

inductive HashType where
  | new | undefined | undefweak | defined | defweak | common | indirect | warning
  deriving DecidableEq, Repr

structure GlobalSym where
  type : HashType
  sec : Nat
  value : BfdVma
  isMicromips : Bool
  needsPlt : Bool
  deriving DecidableEq, Repr

def GlobalSym.isDefined (h : GlobalSym) : Bool := h.type == .defined || h.type == .defweak

/-- What one call does not change. `self` is the section, `hashes` the entries of the global symbols, in
which one entry may occur more than once; `beyond` is what lies in memory after the relocations. -/
structure Input (nl ng : Nat) where
  order : Endian
  relocatable : Bool
  secReloc : Bool
  secCode : Bool
  self : Nat
  base : Nat → BfdVma
  hashes : Fin ng → Nat
  beyond : Rela nl ng

structure CodeSection (nl ng : Nat) where
  contents : Store
  size : BfdVma
  relocs : List (Rela nl ng)
  locals : Fin nl → LocalSym
  entries : Nat → GlobalSym

variable {nl ng : Nat}

def minusTwo : BfdVma := 0 - 2

def GlobalSym.address (h : GlobalSym) : BfdVma := if h.isMicromips then h.value &&& minusTwo else h.value

def adjustReloc (addr : BfdVma) (count : Nat) (rel : Rela nl ng) : Rela nl ng :=
  if addr < rel.offset then { rel with offset := rel.offset - BitVec.ofNat 64 count } else rel

def adjustLocal (self : Nat) (addr : BfdVma) (count : Nat) (sym : LocalSym) : LocalSym :=
  if sym.sec = self ∧ addr < sym.value then { sym with value := sym.value - BitVec.ofNat 64 count } else sym

def movesGlobal (self : Nat) (addr : BfdVma) (h : GlobalSym) : Bool :=
  h.isDefined && h.sec == self && addr < h.address

def lowerGlobal (count : Nat) (h : GlobalSym) : GlobalSym :=
  { h with value := h.value - BitVec.ofNat 64 count }

def adjustGlobal (self : Nat) (addr : BfdVma) (count : Nat) (h : GlobalSym) : GlobalSym :=
  if movesGlobal self addr h then lowerGlobal count h else h

def mipsElfRelaxDeleteBytes (inp : Input nl ng) (s : CodeSection nl ng) (addr : BfdVma) (count : Nat) :
    CodeSection nl ng where
  contents := ByteDeletion.moveDown addr.toNat count (s.size - addr - BitVec.ofNat 64 count).toNat s.contents
  size := s.size - BitVec.ofNat 64 count
  relocs := s.relocs.map (adjustReloc addr count)
  locals i := adjustLocal inp.self addr count (s.locals i)
  entries := RepeatedUpdate.updateAll (adjustGlobal inp.self addr count) (List.ofFn inp.hashes) s.entries

end Openisa.Relax
