import Openisa.Elf.LinkData
import Openisa.Library.SplitSum

/-! The value that the ELF linker path computes for a relocation. -/

namespace Openisa.Elf

open Openisa.Bfd
open Openisa.Library
open Openisa.Library.ByteStore

def mipsElfSignExtend (value : BfdVma) (bits : Nat) : BfdVma :=
  if value &&& ((1 : BfdVma) <<< (bits - 1)) ≠ 0 then value ||| (minusOne <<< bits) else value

def mipsElfOverflowP (value : BfdVma) (bits : Nat) : Bool :=
  decide (value.toInt > 2 ^ (bits - 1) - 1) || decide (value.toInt < -2 ^ (bits - 1))

def mipsElfHigh (value : BfdVma) : BfdVma := ((value + 0x8000) >>> 16) &&& 0xffff

theorem mips_elf_high_toNat (value : BfdVma) :
    (mipsElfHigh value).toNat = (value.toNat + 2 ^ 15) / 2 ^ 16 % 2 ^ 16 := by
  have low := BitField.and_low_toNat 16 (by decide) ((value + 0x8000) >>> 16)
  change (mipsElfHigh value).toNat = _ at low
  rw [low, BitVec.toNat_ushiftRight, BitVec.toNat_add, Nat.shiftRight_eq_div_pow]
  exact SplitSum.mod_pow_div_mod 64 16 16 (by decide) _

def mipsElfHigher (value : BfdVma) : BfdVma := ((value + 0x80008000) >>> 32) &&& 0xffff

def mipsElfHighest (value : BfdVma) : BfdVma := ((value + 0x800080008000) >>> 48) &&& 0xffff

def relocationNeedsLa25StubP (link : ElfLink) (rType : MipsReloc) (targetIs16Bit : Bool) : Bool :=
  if link.picObject then false else
  match rType with
  | .rMips26 | .rMipsPc16 | .rMicromips26S1 | .rMicromipsPc7S1 | .rMicromipsPc10S1 | .rMicromipsPc16S1
  | .rMicromipsPc23S2 => true
  | .rMips16_26 => !targetIs16Bit
  | _ => false

structure Target where
  symbol : BfdVma
  addend : BfdVma
  sec : Option ElfSection
  h : Option HashEntry
  name : String
  gpDisp : Bool
  gnuLocalGp : Bool
  is16Bit : Bool
  isMicromips : Bool

inductive Resolved where
  | stop (status : BfdRelocStatus) (name : String) (report : Option ElfReport)
  | found (t : Target)

def resolveLocal (lib : ElfLib) (sym : ElfSym) (sec : ElfSection) (addend : BfdVma) : Target :=
  let symbol := sec.base
  let symbol := if !sym.isSection || sec.merge then symbol + sym.value else symbol
  let (addend, sec) :=
    if sec.merge && sym.isSection then
      let (addend, sec) := lib.relLocalSym sym sec addend
      (addend - symbol + sec.base, sec)
    else (addend, sec)
  let symbol := if sym.isa ≠ .standard then symbol + 1 else symbol
  ⟨symbol, addend, some sec, none, sym.name, false, false, sym.isa == .mips16, sym.isa == .micromips⟩

def resolveGlobal (link : ElfLink) (rel : InternalRela) (h : HashEntry) (addend : BfdVma)
    (reports : List ElfReport) : Resolved :=
  let found (symbol : BfdVma) (sec : Option ElfSection) (gpDisp gnuLocalGp : Bool) : Resolved :=
    .found ⟨symbol, addend, sec, some h, h.name, gpDisp, gnuLocalGp, h.isa == .mips16,
      link.splt ≠ sec && h.isa == .micromips⟩
  if h.name == "_gp_disp" then
    if !rel.type.hi16RelocP && !rel.type.lo16RelocP then .stop .notsupported h.name none
    else found 0 none true false
  else if h.name == "__gnu_local_gp" then found 0 none false true
  else
    match h.type, h.sec with
    | .defined, some sec | .defweak, some sec =>
        found (if sec.hasOutput then h.value + sec.vma + sec.outputOffset else h.value) (some sec) false false
    | type, _ =>
        if type = .undefweak then found 0 none false false
        else if link.unresolvedIgnore && h.defaultVisibility then found 0 none false false
        else if h.name == (if link.sgiCompat then "_DYNAMIC_LINK" else "_DYNAMIC_LINKING") then
          found 0 none false false
        else if h.optional then found 0 none false false
        else
          let report := ElfReport.undefinedSymbol h.name rel.offset
          .stop (if link.callback reports report then .undefined else .notsupported) h.name (some report)

def resolveSymbol (lib : ElfLib) (link : ElfLink) (rel : InternalRela) (addend : BfdVma)
    (reports : List ElfReport) : Resolved :=
  match rel.sym with
  | .local sym sec _ _ => .found (resolveLocal lib sym sec addend)
  | .global h => resolveGlobal link rel h addend reports

/-- The section of the stub that a 32- or 64-bit reference to a MIPS16 function goes to, and the offset
in it. -/
def fnStubOf (rel : InternalRela) : Option (ElfSection × BfdVma) :=
  match rel.sym with
  | .local _ _ stub _ => stub.map fun sec => (sec, 0)
  | .global h =>
      h.fnStub.bind fun stub =>
        if rel.type = .rMips16Call16 && !h.needFnStub then none
        else some (h.la25Stub.getD (stub, 0))

/-- The section of the stub that a MIPS16 call of a 32- or 64-bit function goes to. -/
def callStubOf (link : ElfLink) (rel : InternalRela) : Option ElfSection :=
  match rel.sym with
  | .local _ _ _ callStub => callStub
  | .global h =>
      match h.callStub, h.callFpStub with
      | some call, some callFp => some (if link.hasCallFpStubSection then callFp else call)
      | some call, none => some call
      | none, callFp => callFp

/-- Position-dependent code calls a function through the stub that loads its address. -/
def redirectToLa25Stub (link : ElfLink) (rel : InternalRela) (t : Target) : Target :=
  match t.h.bind HashEntry.la25Stub with
  | some (sec, offset) =>
      if relocationNeedsLa25StubP link rel.type t.is16Bit then { t with symbol := sec.base + offset } else t
  | none => t

def redirectToStub (link : ElfLink) (inputSection : ElfSection) (rel : InternalRela) (t : Target) :
    Target :=
  let plain := rel.type ≠ .rMips16_26 && !link.relocatable && !inputSection.allowsMips16Refs
  match (if plain then fnStubOf rel else none) with
  | some (sec, value) => { t with sec := some sec, symbol := sec.base + value, is16Bit := false }
  | none =>
      match (if rel.type = .rMips16_26 && !link.relocatable && !t.is16Bit then callStubOf link rel
        else none) with
      | some sec => { t with sec := some sec, symbol := sec.base }
      | none => redirectToLa25Stub link rel t

def crossModeJumpP (link : ElfLink) (rType : MipsReloc) (t : Target) : Bool :=
  !link.relocatable && !(t.h.any fun h => h.type == .undefweak) &&
    ((rType == .rMips16_26 && !t.is16Bit) || (rType == .rMicromips26S1 && !t.isMicromips) ||
      ((rType == .rMips26 || rType == .rMipsJalr) && (t.is16Bit || t.isMicromips)))

/-- `local_p` once the symbol is found, for the GOT. -/
def resolvesLocally (t : Target) : Bool :=
  match t.h with
  | none => true
  | some h => if h.gotOnlyForCalls then h.callsLocal else h.referencesLocal

/-- The types whose value involves the GOT offset `g`. -/
def usesGotOffsetP : MipsReloc → Bool
  | .rMips16Call16 | .rMips16Got16 | .rMipsCall16 | .rMipsGot16 | .rMipsGotDisp | .rMipsGotHi16
  | .rMipsCallHi16 | .rMipsGotLo16 | .rMipsCallLo16 | .rMicromipsCall16 | .rMicromipsGot16
  | .rMicromipsGotDisp | .rMicromipsGotHi16 | .rMicromipsCallHi16 | .rMicromipsGotLo16
  | .rMicromipsCallLo16 | .rMipsTlsGd | .rMipsTlsGottprel | .rMipsTlsLdm | .rMips16TlsGd
  | .rMips16TlsGottprel | .rMips16TlsLdm | .rMicromipsTlsGd | .rMicromipsTlsGottprel
  | .rMicromipsTlsLdm => true
  | _ => false

section Got

variable {σ : Type} (ops : GotOps σ)

def gotOffset (link : ElfLink) (rType : MipsReloc) (symndx : Nat) (t : Target) (symbol addend : BfdVma)
    (s : σ) : Option BfdVma × σ :=
  let offset : Option BfdVma × σ → Option BfdVma × σ := fun (index, s) =>
    (index.map fun index => ops.gotOffsetFromIndex index s, s)
  if !usesGotOffsetP rType then (some minusOne, s)
  else if rType.tlsLdmRelocP then offset (ops.localGotIndex 0 0 none rType s)
  else
    match t.h, resolvesLocally t with
    | some h, false =>
        if link.isVxworks && (rType.callHi16RelocP || rType.callLo16RelocP || rType.call16RelocP) then
          let (g, s) := ops.gotpltIndex h s
          offset (some g, s)
        else
          let (g, s) := ops.globalGotIndex h rType s
          let s := if h.gotNormal && !link.dynamicSectionsCreated then ops.putGotWord symbol g s else s
          offset (some g, s)
    | h, _ =>
        if !link.isVxworks && (rType.call16RelocP || rType.got16RelocP) then (some minusOne, s)
        else offset (ops.localGotIndex (symbol + addend) symndx h rType s)

inductive Calculated where
  | stop (status : BfdRelocStatus)
  | value (v : BfdVma) (overflowed : Bool)

structure Operands where
  rType : MipsReloc
  howto : RelocHowto
  symbol : BfdVma
  addend : BfdVma
  p : BfdVma
  g : BfdVma
  t : Target
  crossModeJump : Bool
  localP : Bool
  wasLocalP : Bool
  saveAddend : Bool

def masked (o : Operands) (value : BfdVma) : Calculated := .value (value &&& o.howto.dstMask) false

/-- A pc-relative value whose addend has `bits` bits. -/
def branchValue (o : Operands) (bits : Nat) (base : BfdVma) : Calculated :=
  let value := o.symbol + mipsElfSignExtend o.addend bits - base
  .value ((value >>> o.howto.rightshift) &&& o.howto.dstMask) (mipsElfOverflowP value bits)

def wordValue (link : ElfLink) (inputSection : ElfSection) (rel : InternalRela) (o : Operands) (s : σ) :
    Calculated × σ :=
  let fromDynamic := link.dynamicSectionsCreated &&
    o.t.h.any fun h => h.defDynamic && !h.defRegular && !h.hasStaticRelocs
  let visible := !(o.t.h.any fun h => h.type == .undefweak && !h.defaultVisibility)
  if (link.shared || fromDynamic) && rel.symndx ≠ 0 && visible && inputSection.alloc then
    match ops.createDynamicRelocation rel o.symbol o.addend s with
    | (some value, s) => (masked o value, s)
    | (none, s) => (.stop .undefined, s)
  else if o.rType ≠ .rMipsRel32 then (masked o (o.symbol + o.addend), s)
  else (masked o o.addend, s)

-- `0xfc000000 << shift` is computed in 32 bits
def jumpValue (o : Operands) : Calculated :=
  if o.crossModeJump && o.symbol &&& 3 ≠ (if o.rType = .rMips26 then 1 else 0) then .stop .outofrange else
  let shift := if !o.crossModeJump && o.rType == .rMicromips26S1 then 1 else 2
  let value :=
    if o.wasLocalP then o.addend ||| ((o.p + 4) &&& ((0xfc000000 : BitVec 32) <<< shift).setWidth 64)
    else mipsElfSignExtend o.addend (26 + shift)
  let value := (value + o.symbol) >>> shift
  let overflowed := !o.wasLocalP && !(o.t.h.any fun h => h.type == .undefweak) &&
    value >>> 26 ≠ (o.p + 4) >>> (26 + shift)
  .value (value &&& o.howto.dstMask) overflowed

def hiValue (link : ElfLink) (o : Operands) : Calculated :=
  if !o.t.gpDisp then masked o (mipsElfHigh (o.addend + o.symbol)) else
  let value :=
    match o.rType with
    | .rMips16Hi16 => mipsElfHigh (o.addend + link.gp - ((o.p + 4) &&& ~~~3))
    | .rMicromipsHi16 => mipsElfHigh (o.addend + link.gp - o.p - 1)
    | _ => mipsElfHigh (o.addend + link.gp - o.p)
  .value value (mipsElfOverflowP value 16)

def loValue (link : ElfLink) (o : Operands) : Calculated :=
  if !o.t.gpDisp then masked o (o.symbol + o.addend) else
  match o.rType with
  | .rMips16Lo16 => .value (o.addend + link.gp - (o.p &&& ~~~3)) false
  | .rMicromipsLo16 | .rMicromipsHi0Lo16 => .value (o.addend + link.gp - o.p + 3) false
  | _ => .value (o.addend + link.gp - o.p + 4) false

def gprelValue (link : ElfLink) (o : Operands) : Calculated :=
  let addend := if o.howto.partialInplace then mipsElfSignExtend o.addend 16 else o.addend
  let value := o.symbol + addend - link.gp
  let value := if o.wasLocalP then value + link.gp0 else value
  .value value (mipsElfOverflowP value 16)

def gotIndexValue (index : Option BfdVma) (s : σ) : Calculated × σ :=
  match index with
  | none => (.stop .outofrange, s)
  | some index =>
      let value := ops.gotOffsetFromIndex index s
      (.value value (mipsElfOverflowP value 16), s)

def relocationValue (link : ElfLink) (inputSection : ElfSection) (rel : InternalRela) (o : Operands)
    (s : σ) : Calculated × σ :=
  match o.rType with
  | .rMipsNone => (.stop .continue, s)
  | .rMips16 =>
      let value := o.symbol + mipsElfSignExtend o.addend 16
      (.value value (mipsElfOverflowP value 16), s)
  | .rMips32 | .rMipsRel32 | .rMips64 => wordValue ops link inputSection rel o s
  | .rMipsPc32 => (masked o (o.symbol + o.addend - o.p), s)
  | .rMips16_26 | .rMips26 | .rMicromips26S1 => (jumpValue o, s)
  | .rMipsTlsDtprelHi16 | .rMips16TlsDtprelHi16 | .rMicromipsTlsDtprelHi16 =>
      (masked o (mipsElfHigh (o.addend + o.symbol - link.dtprelBase)), s)
  | .rMipsTlsDtprelLo16 | .rMipsTlsDtprel32 | .rMipsTlsDtprel64 | .rMips16TlsDtprelLo16
  | .rMicromipsTlsDtprelLo16 => (masked o (o.symbol + o.addend - link.dtprelBase), s)
  | .rMipsTlsTprelHi16 | .rMips16TlsTprelHi16 | .rMicromipsTlsTprelHi16 =>
      (masked o (mipsElfHigh (o.addend + o.symbol - link.tprelBase)), s)
  | .rMipsTlsTprelLo16 | .rMipsTlsTprel32 | .rMipsTlsTprel64 | .rMips16TlsTprelLo16
  | .rMicromipsTlsTprelLo16 => (masked o (o.symbol + o.addend - link.tprelBase), s)
  | .rMipsHi16 | .rMips16Hi16 | .rMicromipsHi16 => (hiValue link o, s)
  | .rMipsLo16 | .rMips16Lo16 | .rMicromipsLo16 | .rMicromipsHi0Lo16 => (loValue link o, s)
  | .rMipsLiteral | .rMicromipsLiteral | .rMips16Gprel | .rMipsGprel16 | .rMicromipsGprel7S2
  | .rMicromipsGprel16 => (gprelValue link o, s)
  | .rMips16Got16 | .rMips16Call16 | .rMipsGot16 | .rMipsCall16 | .rMicromipsGot16
  | .rMicromipsCall16 =>
      if !link.isVxworks && o.localP then
        let (index, s) := ops.got16Entry (o.symbol + o.addend) (!o.wasLocalP) s
        gotIndexValue ops index s
      else (.value o.g (mipsElfOverflowP o.g 16), s)
  | .rMipsTlsGd | .rMipsTlsGottprel | .rMipsTlsLdm | .rMipsGotDisp | .rMips16TlsGd
  | .rMips16TlsGottprel | .rMips16TlsLdm | .rMicromipsTlsGd | .rMicromipsTlsGottprel
  | .rMicromipsTlsLdm | .rMicromipsGotDisp => (.value o.g (mipsElfOverflowP o.g 16), s)
  | .rMipsGprel32 =>
      let value := o.addend + o.symbol + link.gp0 - link.gp
      (.value (if o.saveAddend then value else value &&& o.howto.dstMask) false, s)
  | .rMipsPc16 | .rMipsGnuRel16S2 => (branchValue o 18 o.p, s)
  | .rMicromipsPc7S1 => (branchValue o 8 o.p, s)
  | .rMicromipsPc10S1 => (branchValue o 11 o.p, s)
  | .rMicromipsPc16S1 => (branchValue o 17 o.p, s)
  | .rMicromipsPc23S2 => (branchValue o 25 ((o.p ||| 3) ^^^ 3), s)
  | .rMipsGotHi16 | .rMipsCallHi16 | .rMicromipsGotHi16 | .rMicromipsCallHi16 =>
      (masked o (mipsElfHigh o.g), s)
  | .rMipsGotLo16 | .rMipsCallLo16 | .rMicromipsGotLo16 | .rMicromipsCallLo16 => (masked o o.g, s)
  | .rMipsGotPage | .rMicromipsGotPage =>
      let (page, s) := ops.gotPage (o.symbol + o.addend) s
      gotIndexValue ops (page.map Prod.fst) s
  -- where the page is missing the code reads a value that it never set
  | .rMipsGotOfst | .rMicromipsGotOfst =>
      if o.localP then
        let (page, s) := ops.gotPage (o.symbol + o.addend) s
        let value := (page.map Prod.snd).getD 0
        (.value value (mipsElfOverflowP value 16), s)
      else (.value o.addend (mipsElfOverflowP o.addend 16), s)
  | .rMipsSub | .rMicromipsSub => (masked o (o.symbol - o.addend), s)
  | .rMipsHigher | .rMicromipsHigher => (masked o (mipsElfHigher (o.addend + o.symbol)), s)
  | .rMipsHighest | .rMicromipsHighest => (masked o (mipsElfHighest (o.addend + o.symbol)), s)
  | .rMipsScnDisp | .rMicromipsScnDisp =>
      (masked o (o.symbol + o.addend - (o.t.sec.map ElfSection.outputOffset).getD 0), s)
  | .rMipsJalr | .rMicromipsJalr =>
      if o.t.h.any fun h => !h.callsLocal then (.stop .continue, s)
      else (.value (o.symbol + o.addend) false, s)
  | .rMipsPjump | .rMipsGnuVtinherit | .rMipsGnuVtentry => (.stop .continue, s)
  | _ => (.stop .notsupported, s)

structure CalcResult (σ : Type) where
  status : BfdRelocStatus
  value : BfdVma
  name : String
  crossModeJump : Bool
  got : σ
  report : Option ElfReport

def gottSymbolP (link : ElfLink) (t : Target) : Bool :=
  link.isVxworks && link.shared &&
    t.h.any fun h => h.name == "__GOTT_BASE__" || h.name == "__GOTT_INDEX__"

/-- The operands of the relocation after its symbol is found and redirected, up to the GOT offset. -/
def operandsOf (link : ElfLink) (inputSection : ElfSection) (rel : InternalRela) (howto : RelocHowto)
    (saveAddend : Bool) (t : Target) : Operands :=
  let localP := resolvesLocally t
  let globalPage := rel.type.gotPageRelocP && !localP
  { rType := if globalPage then
      (if rel.type.micromipsRelocP then .rMicromipsGotDisp else .rMipsGotDisp) else rel.type
    howto := howto
    symbol := if t.gnuLocalGp then link.gp else t.symbol
    addend := if globalPage then 0 else t.addend
    p := inputSection.base + rel.offset
    g := minusOne
    t := t
    crossModeJump := crossModeJumpP link rel.type t
    localP := localP
    wasLocalP := rel.sym.isLocal
    saveAddend := saveAddend }

def mixedIsaP (rType : MipsReloc) (t : Target) : Bool :=
  (rType == .rMips16_26 && t.isMicromips) || (rType.micromipsBranchRelocP && t.is16Bit)

def mipsElfCalculateRelocation (lib : ElfLib) (link : ElfLink) (inputSection : ElfSection)
    (rel : InternalRela) (addend : BfdVma) (howto : RelocHowto) (saveAddend : Bool)
    (reports : List ElfReport) (s : σ) : CalcResult σ :=
  match resolveSymbol lib link rel addend reports with
  | .stop status name report => ⟨status, 0, name, false, s, report⟩
  | .found t =>
      let t := redirectToStub link inputSection rel t
      if mixedIsaP rel.type t then
        ⟨.notsupported, 0, t.name, false, s,
          some (.error "MIPS16 and microMIPS functions cannot call each other")⟩
      else
        let o := operandsOf link inputSection rel howto saveAddend t
        match gotOffset ops link o.rType rel.symndx t o.symbol o.addend s with
        | (none, s) => ⟨.outofrange, 0, t.name, o.crossModeJump, s, none⟩
        | (some g, s) =>
            if gottSymbolP link t then ⟨.ok, 0, t.name, o.crossModeJump, ops.addGottReloc rel o.addend s, none⟩
            else
              match relocationValue ops link inputSection rel { o with g := g } s with
              | (.stop status, s) => ⟨status, 0, t.name, o.crossModeJump, s, none⟩
              | (.value v overflowed, s) =>
                  ⟨if overflowed then .overflow else .ok, v, t.name, o.crossModeJump, s, none⟩

end Got

end Openisa.Elf
