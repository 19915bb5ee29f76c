import Openisa.Got.TlsEntries

/-! The places of several tables in one section. -/

namespace Openisa.Got

open Openisa.Bfd
open Openisa.Library
open Openisa.Library.SlotTable
open Openisa.Library.BumpLayout

/-- A table of a link with several. Its local count becomes the end of the local part once it is laid out. -/
structure LaidGot (β η : Type) where
  globalGotno : BitVec 32
  relocOnlyGotno : BitVec 32
  tlsGotno : BitVec 32
  localGotno : BitVec 32
  pageGotno : BitVec 32
  assignedGotno : BitVec 32
  tlsAssignedGotno : BitVec 32
  tlsLdmOffset : BfdVma
  gotEntries : List (PlacedEntry β η)

/-- The tables of a link. `ring` is what the `next` of the master table leads to, up to the master again. -/
structure MultiGots (π β η : Type) where
  master : LaidGot β η
  got : π → LaidGot β η
  bfd2got : β → Option π
  ring : List π
  assign : BitVec 32
  hash : HashTls η

structure LayoutConf where
  format : GotFormat
  reservedGotno : BitVec 32
  pages : BitVec 64

variable {π β η : Type} [DecidableEq π] [DecidableEq η]

def layOutGot (c : LayoutConf) (walk : π → Walk (PlacedEntry β η)) (m : MultiGots π β η) (p : π) :
    MultiGots π β η :=
  let g := m.got p
  let assignedGotno := m.assign + c.reservedGotno
  let pageGotno := g.pageGotno.setWidth 64
  let localGotno := g.localGotno + assignedGotno +
    (if c.pages < pageGotno then c.pages else pageGotno).setWidth 32
  let (s, gotEntries) := visitAll (mipsElfInitializeTlsIndex c.format false)
    ⟨localGotno + g.globalGotno, g.tlsLdmOffset, m.hash⟩ ((walk p).order g.gotEntries)
  { m with
    got := Function.update m.got p
      { g with
        assignedGotno := assignedGotno
        localGotno := localGotno
        tlsAssignedGotno := s.tlsAssignedGotno
        tlsLdmOffset := s.tlsLdmOffset
        gotEntries := gotEntries }
    ring := p :: m.ring
    assign := localGotno + g.globalGotno + g.tlsGotno
    hash := s.hash }

def LaidGot.slotEnd (g : LaidGot β η) : BitVec 32 := g.localGotno + g.globalGotno + g.tlsGotno

def gotSectionSize (f : GotFormat) (m : MultiGots π β η) : BitVec 32 :=
  match m.ring with
  | [] => m.master.slotEnd * f.gotSize
  | last :: _ => (m.got last).slotEnd * f.gotSize

def setOffsets (c : LayoutConf) (info : LinkInfo) (sym : η → TlsSymbol) (area : η → GlobalGotArea)
    (walk : π → Walk (PlacedEntry β η)) (m : MultiGots π β η × BitVec 32) (p : π) :
    MultiGots π β η × BitVec 32 :=
  let g := m.1.got p
  let (arg, gotEntries) := visitAll (mipsElfSetGlobalGotOffset c.format info sym area) ⟨g.localGotno, 0⟩
    ((walk p).order g.gotEntries)
  let needed := m.2 + arg.neededRelocs
  ({ m.1 with got := Function.update m.1.got p { g with gotEntries := gotEntries } },
    if info.shared then needed + (g.localGotno - g.assignedGotno) else needed)

structure LayoutWalks (π β η : Type) where
  master : Walk (PlacedEntry β η)
  primary : Walk (PlacedEntry β η)
  tls : π → Walk (PlacedEntry β η)
  offsets : π → Walk (PlacedEntry β η)

structure LaidOut (π β η : Type) where
  gots : MultiGots π β η
  area : η → GlobalGotArea
  size : BitVec 32
  neededRelocs : BitVec 32

/-- Symbols that only relocations refer to come after those that the primary table needs. -/
def sortAreas (walks : LayoutWalks π β η) (master primary : LaidGot β η) (area : η → GlobalGotArea) :
    η → GlobalGotArea :=
  let area := (walks.master.order master.gotEntries).foldl
    (fun area placed => mipsElfSetGlobalGotArea .relocOnly area placed.entry) area
  (walks.primary.order primary.gotEntries).foldl
    (fun area placed => mipsElfSetGlobalGotArea .normal area placed.entry) area

/-- `mips_elf_multi_got` from the tables it keeps: the primary one and those behind it. -/
def layOutGots (c : LayoutConf) (info : LinkInfo) (sym : η → TlsSymbol) (walks : LayoutWalks π β η)
    (master : LaidGot β η) (got : π → LaidGot β η) (bfd2got : β → Option π) (area : η → GlobalGotArea)
    (hash : HashTls η) (primary : π) (others : List π) : LaidOut π β η :=
  let area := sortAreas walks master (got primary) area
  let master := { master with relocOnlyGotno := master.globalGotno - (got primary).globalGotno }
  let got := Function.update got primary { got primary with globalGotno := master.globalGotno }
  -- the primary table begins where the master ends, at 0
  let master := { master with localGotno := -(got primary).globalGotno, tlsGotno := 0 }
  let gots := (primary :: others).foldl (layOutGot c walks.tls) ⟨master, got, bfd2got, [], 0, hash⟩
  let size := gotSectionSize c.format gots
  -- the last table of the ring is the primary one
  let (gots, needed) := gots.ring.dropLast.foldl (setOffsets c info sym area walks.offsets) (gots, 0)
  ⟨gots, area, size, needed⟩

def nextOf : List π → π → Option π
  | p :: q :: rest, g => if p = g then some q else nextOf (q :: rest) g
  | _, _ => none

def mipsElfGotForIbfd (m : MultiGots π β η) (ibfd : β) : Option π := m.bfd2got ibfd

def mipsElfAdjustGp (f : GotFormat) (gots : Option (MultiGots π β η)) (ibfd : β) : BfdVma :=
  match gots with
  | none => 0
  | some m =>
      match mipsElfGotForIbfd m ibfd with
      | none => 0
      | some g =>
          let before := match nextOf m.ring g with
            | some q => m.got q
            | none => m.master
          (before.slotEnd * f.gotSize).setWidth 64

end Openisa.Got
