import Openisa.Got.Layout
import Openisa.Library.FirstUse

/-! The words of the thread-local entries, and the dynamic relocations that are output for them. -/

namespace Openisa.Got

open Openisa.Bfd
open Openisa.Library
open Openisa.Library.ByteStore

/-- What the output knows of the thread-local segment besides the format of the table. -/
structure TlsConf where
  format : GotFormat
  info : LinkInfo
  dtprelBase : BfdVma
  tprelBase : BfdVma
  tlsSecVma : BfdVma

structure TlsReloc where
  indx : BitVec 32
  rType : MipsReloc
  offset : BfdVma
  deriving DecidableEq, Repr

/-- The contents of `.got` and the thread-local relocations in `.rel.dyn`. -/
structure TlsOutput where
  contents : Store
  relDyn : List TlsReloc

def TlsConf.putWord (c : TlsConf) (val : BfdVma) (offset : BfdVma) (out : TlsOutput) : TlsOutput :=
  { out with contents := mipsElfPutWord c.format val out.contents offset.toNat }

def TlsConf.outputDynamicRelocation (c : TlsConf) (indx : BitVec 32) (rType32 rType64 : MipsReloc)
    (offset : BfdVma) (out : TlsOutput) : TlsOutput :=
  { out with relDyn := out.relDyn ++
      [⟨indx, if c.format.abi64 then rType64 else rType32, c.format.sgot + offset⟩] }

def initializeGd (c : TlsConf) (indx : BitVec 32) (needRelocs : Bool) (value gotOffset : BfdVma) (out : TlsOutput) :
    TlsOutput :=
  let offset2 := gotOffset + c.format.gotSize.setWidth 64
  if needRelocs then
    let out := c.outputDynamicRelocation indx .rMipsTlsDtpmod32 .rMipsTlsDtpmod64 gotOffset out
    if indx ≠ 0 then c.outputDynamicRelocation indx .rMipsTlsDtprel32 .rMipsTlsDtprel64 offset2 out
    else c.putWord (value - c.dtprelBase) offset2 out
  else c.putWord (value - c.dtprelBase) offset2 (c.putWord 1 gotOffset out)

def initializeIe (c : TlsConf) (indx : BitVec 32) (needRelocs : Bool) (value gotOffset : BfdVma) (out : TlsOutput) :
    TlsOutput :=
  if needRelocs then
    let out := c.putWord (if indx = 0 then value - c.tlsSecVma else 0) gotOffset out
    c.outputDynamicRelocation indx .rMipsTlsTprel32 .rMipsTlsTprel64 gotOffset out
  else c.putWord (value - c.tprelBase) gotOffset out

def initializeLdm (c : TlsConf) (indx : BitVec 32) (gotOffset : BfdVma) (out : TlsOutput) : TlsOutput :=
  let out := c.putWord 0 (gotOffset + c.format.gotSize.setWidth 64) out
  -- a shared link needs the relocation whatever the symbol is
  if !c.info.shared then c.putWord 1 gotOffset out
  else c.outputDynamicRelocation indx .rMipsTlsDtpmod32 .rMipsTlsDtpmod64 gotOffset out

/-- Initialize the places of an entry with the access types it has, the first time only. -/
def mipsElfInitializeTlsSlots (c : TlsConf) (gotOffset : BfdVma) (tlsType : TlsType) (h : Option TlsSymbol)
    (value : BfdVma) (out : TlsOutput) : TlsType × TlsOutput :=
  let indx := tlsIndx c.info h
  if tlsType &&& gotTlsDone ≠ 0 then (tlsType, out) else
  let needRelocs := tlsNeedRelocs c.info h
  let gd := tlsType &&& gotTlsGd ≠ 0
  let out := if gd then initializeGd c indx needRelocs value gotOffset out else out
  let gotOffset := if gd then gotOffset + 2 * c.format.gotSize.setWidth 64 else gotOffset
  let out := if tlsType &&& gotTlsIe ≠ 0 then initializeIe c indx needRelocs value gotOffset out else out
  let out := if tlsType &&& gotTlsLdm ≠ 0 then initializeLdm c indx gotOffset out else out
  (tlsType ||| gotTlsDone, out)

def mipsTlsGotIndex (c : TlsConf) (gotIndex : BfdVma) (tlsType : TlsType) (rType : MipsReloc) (h : Option TlsSymbol)
    (value : BfdVma) (out : TlsOutput) : TlsType × TlsOutput × BfdVma :=
  let (tlsType, out) := mipsElfInitializeTlsSlots c gotIndex tlsType h value out
  let index := if rType.tlsGottprelRelocP ∧ tlsType &&& gotTlsGd ≠ 0 then
      gotIndex + 2 * c.format.gotSize.setWidth 64
    else gotIndex
  (tlsType, out, index)

/-- The tables of a link while relocations are processed: the master's, which is the only one of a link
with a single table, and those that it was split into. -/
structure TlsGots (π β η : Type) where
  several : Bool
  gotFor : β → Option (Option π)
  outputGot : Option π
  table : Option π → List (PlacedEntry β η)
  hash : HashTls η
  out : TlsOutput

/-- Where the access types are that a call of `mips_tls_got_index` gets a pointer to. -/
inductive TlsHolder (π η : Type) where
  | entry (got : Option π) (index : Nat)
  | symbol (h : η)
  deriving DecidableEq, Repr

variable {π β η : Type} [DecidableEq π] [DecidableEq β] [DecidableEq η]

def TlsGots.gotIndex (c : TlsConf) (sym : η → TlsSymbol) (m : TlsGots π β η) (holder : TlsHolder π η) (h : Option η)
    (rType : MipsReloc) (value : BfdVma) : TlsGots π β η × BfdVma :=
  match holder with
  | .symbol h' =>
      let (tlsType, out, index) :=
        mipsTlsGotIndex c (m.hash.tlsGotOffset h') (m.hash.tlsType h') rType (h.map sym) value m.out
      ({ m with hash := { m.hash with tlsType := Function.update m.hash.tlsType h' tlsType }, out := out }, index)
  | .entry got i =>
      match (m.table got)[i]? with
      | none => (m, minusOne)
      | some placed =>
          let (tlsType, out, index) :=
            mipsTlsGotIndex c (BitVec.ofInt 64 placed.gotidx) placed.entry.tlsType rType (h.map sym) value m.out
          let placed := { placed with entry := { placed.entry with tlsType := tlsType } }
          ({ m with table := Function.update m.table got ((m.table got).set i placed), out := out }, index)

/-- The entry that a relocation is looked up by. -/
def tlsLookupEntry (ibfd : β) (symndx : Nat) (h : Option η) (rType : MipsReloc) : GotEntry β η :=
  if rType.tlsLdmRelocP then ⟨.symbol ibfd 0 0, gotTlsLdm⟩ else
  match h with
  | none => ⟨.symbol ibfd symndx 0, gotNormal⟩
  | some h => ⟨.global ibfd h, gotNormal⟩

def TlsGots.find (m : TlsGots π β η) (got : Option π) (wanted : GotEntry β η) : Option Nat :=
  (m.table got).findIdx? fun placed => gotEntryEq m.several wanted placed.entry

/-- `mips_elf_local_got_index` for a thread-local relocation; nothing where no entry is found. -/
def localTlsHolder (m : TlsGots π β η) (ibfd : β) (symndx : Nat) (h : Option η) (rType : MipsReloc) :
    Option (TlsHolder π η) :=
  let got := (m.gotFor ibfd).getD m.outputGot
  match m.find got (tlsLookupEntry ibfd symndx h rType) with
  | none => none
  | some i =>
      match (m.table got)[i]?, m.several with
      -- the symbol's hash table entry tracks the index
      | some ⟨⟨.global _ _, _⟩, _⟩, false => h.map .symbol
      | _, _ => some (.entry got i)

/-- `mips_elf_global_got_index` for a thread-local relocation. -/
def globalTlsHolder (m : TlsGots π β η) (ibfd : β) (h : η) : Option (TlsHolder π η) :=
  if m.several then
    match m.gotFor ibfd with
    | none => none
    | some got => (m.find got ⟨.global ibfd h, gotNormal⟩).map (.entry got)
  else some (.symbol h)

/-- A thread-local relocation: against a local symbol, `h` being a global one that was forced local, or
against a global symbol. -/
inductive TlsRequest (β η : Type) where
  | ofLocal (ibfd : β) (symndx : Nat) (h : Option η) (rType : MipsReloc) (value : BfdVma)
  | ofGlobal (ibfd : β) (h : η) (rType : MipsReloc) (value : BfdVma)

def TlsRequest.serve (c : TlsConf) (sym : η → TlsSymbol) (m : TlsGots π β η) (request : TlsRequest β η) :
    TlsGots π β η × BfdVma :=
  match request with
  | .ofLocal ibfd symndx h rType value =>
      -- an LDM relocation is for no symbol
      let (symndx, h, value) := if rType.tlsLdmRelocP then (0, none, 0) else (symndx, h, value)
      match localTlsHolder m ibfd symndx h rType with
      | none => (m, minusOne)
      | some holder => m.gotIndex c sym holder h rType value
  | .ofGlobal ibfd h rType value =>
      match globalTlsHolder m ibfd h with
      | none => (m, minusOne)
      | some holder => m.gotIndex c sym holder (some h) rType value

def TlsGots.symbolOf (m : TlsGots π β η) : TlsHolder π η → Option η
  | .symbol h => some h
  | .entry got i =>
      match (m.table got)[i]? with
      | some ⟨⟨.global _ h, _⟩, _⟩ => some h
      | _ => none

structure TlsCall (π η : Type) where
  holder : TlsHolder π η
  rType : MipsReloc
  value : BfdVma

def TlsGots.call (c : TlsConf) (sym : η → TlsSymbol) (m : TlsGots π β η) (call : TlsCall π η) : TlsGots π β η :=
  (m.gotIndex c sym call.holder (m.symbolOf call.holder) call.rType call.value).1

end Openisa.Got
