import Openisa.Bfd.GenericReloc

/-! The special functions of the 32-bit target that need the value of gp, and the dispatch over all
special functions of the howto tables. -/

namespace Openisa.Bfd

open Openisa.Library.ByteStore

/-- A symbol of the output file, with what `bfd_asymbol_value` returns for it. -/
structure OutSymbol where
  name : String
  value : BfdVma
  deriving DecidableEq, Repr

/-- `symbol->value`, left out for a common symbol, at the place of its section. -/
def gprelRelocation (symbol : Asymbol) : BfdVma :=
  (if symbol.asection.kind = .common then 0 else symbol.value) +
    symbol.asection.outputSection.vma + symbol.asection.outputOffset

-- the sign extension of the addend is computed and thrown away
def bfdMipsElfGprel16WithGp (lib : BfdLib) (order : Endian) (symbol : Asymbol) (entry : Arelent)
    (inputSection : Asection) (relocatable : Bool) (data : DataPtr) (gp : BfdVma) (s : RelocState) :
    SpecialResult :=
  if entry.address > inputSection.limit then ⟨.outofrange, entry, s, none⟩ else
  let val := entry.addend
  let val := if !relocatable || symbol.flags.sectionSym then
    val + (gprelRelocation symbol - gp) else val
  if entry.howto.partialInplace then
    let (status, d) := lib.relocateContents entry.howto order val (s.mem data) entry.address.toNat
    if status ≠ .ok then ⟨status, entry, s.setData data d, none⟩
    else ⟨.ok, entry.moved inputSection relocatable, s.setData data d, none⟩
  else
    ⟨.ok, ({ entry with addend := val } : Arelent).moved inputSection relocatable, s, none⟩

def mipsElfAssignGp (outsymbols : Option (List OutSymbol)) (s : RelocState) :
    Bool × BfdVma × RelocState :=
  if s.gpValue ≠ 0 then (true, s.gpValue, s) else
  match (outsymbols.getD []).find? (fun sym => sym.name == "_gp") with
  | some sym => (true, sym.value, { s with gpValue := sym.value })
  | none => (false, 4, { s with gpValue := 4 })

/-- The status, the value of `*pgp`, the state and the error message. -/
def mipsElfFinalGp (outsymbols : Option (List OutSymbol)) (symbol : Asymbol) (relocatable : Bool)
    (s : RelocState) : BfdRelocStatus × BfdVma × RelocState × Option String :=
  if symbol.asection.kind = .undefined && !relocatable then (.undefined, 0, s, none) else
  if s.gpValue = 0 && (!relocatable || symbol.flags.sectionSym) then
    if relocatable then
      let gp := symbol.asection.outputSection.vma
      (.ok, gp, { s with gpValue := gp }, none)
    else
      match mipsElfAssignGp outsymbols s with
      | (true, gp, s) => (.ok, gp, s, none)
      | (false, gp, s) => (.dangerous, gp, s, some "GP relative relocation when _gp not defined")
  else (.ok, s.gpValue, s, none)

/-- The common tail of the two 16-bit gp-relative special functions. -/
def gprel16AtLocation (lib : BfdLib) (order : Endian) (outsymbols : Option (List OutSymbol))
    (entry : Arelent) (symbol : Asymbol) (data : DataPtr) (inputSection : Asection)
    (relocatable : Bool) (s : RelocState) : SpecialResult :=
  match mipsElfFinalGp outsymbols symbol relocatable s with
  | (.ok, gp, s, message) =>
      let location := entry.address.toNat
      let type := entry.howto.type
      let s := s.setData data (bfdMipsElfRelocUnshuffle order type false (s.mem data) location)
      let r := bfdMipsElfGprel16WithGp lib order symbol entry inputSection relocatable data gp s
      { r with
        state := r.state.setData data
          (bfdMipsElfRelocShuffle order type (!relocatable) (r.state.mem data) location)
        errorMessage := message }
  | (ret, _, s, message) => ⟨ret, entry, s, message⟩

def bfdMipsElf32Gprel16Reloc (lib : BfdLib) (order : Endian) (outsymbols : Option (List OutSymbol))
    (entry : Arelent) (symbol : Asymbol) (data : DataPtr) (inputSection : Asection)
    (relocatable : Bool) (s : RelocState) : SpecialResult :=
  if lib.literalRelocP entry.howto.type && relocatable && !symbol.flags.sectionSym &&
      symbol.flags.isLocal then
    ⟨.outofrange, entry, s, some "literal relocation occurs for an external symbol"⟩
  else gprel16AtLocation lib order outsymbols entry symbol data inputSection relocatable s

def mips16GprelReloc (lib : BfdLib) (order : Endian) (outsymbols : Option (List OutSymbol))
    (entry : Arelent) (symbol : Asymbol) (data : DataPtr) (inputSection : Asection)
    (relocatable : Bool) (s : RelocState) : SpecialResult :=
  if relocatable && !symbol.flags.sectionSym && symbol.flags.isLocal then
    ⟨.ok, entry.moved inputSection relocatable, s, none⟩
  else gprel16AtLocation lib order outsymbols entry symbol data inputSection relocatable s

def gprel32WithGp (order : Endian) (symbol : Asymbol) (entry : Arelent) (inputSection : Asection)
    (relocatable : Bool) (data : DataPtr) (gp : BfdVma) (s : RelocState) : SpecialResult :=
  if entry.address > inputSection.limit then ⟨.outofrange, entry, s, none⟩ else
  let location := entry.address.toNat
  let val := entry.addend
  let val := if entry.howto.partialInplace then val + bfdGet32 order (s.mem data) location else val
  let val := if !relocatable || symbol.flags.sectionSym then
    val + (gprelRelocation symbol - gp) else val
  if entry.howto.partialInplace then
    ⟨.ok, entry.moved inputSection relocatable,
      s.setData data (bfdPut32 order val (s.mem data) location), none⟩
  else
    ⟨.ok, ({ entry with addend := val } : Arelent).moved inputSection relocatable, s, none⟩

def mipsElfGprel32Reloc (order : Endian) (outsymbols : Option (List OutSymbol))
    (entry : Arelent) (symbol : Asymbol) (data : DataPtr) (inputSection : Asection)
    (relocatable : Bool) (s : RelocState) : SpecialResult :=
  if relocatable && !symbol.flags.sectionSym && symbol.flags.isLocal then
    ⟨.outofrange, entry, s, some "32bits gp relative relocation occurs for an external symbol"⟩
  else
    match mipsElfFinalGp outsymbols symbol relocatable s with
    | (.ok, gp, s, message) =>
        { gprel32WithGp order symbol entry inputSection relocatable data gp s with
          errorMessage := message }
    | (ret, _, s, message) => ⟨ret, entry, s, message⟩

/-- The inner relocation is an `R_MIPS_32` on the word that holds the low half; its own entry is a
local copy. -/
def mips3264bitReloc (lib : BfdLib) (order : Endian) (entry : Arelent) (data : DataPtr)
    (inputSection : Asection) (relocatable : Bool) (s : RelocState) : SpecialResult :=
  let reloc32 : Arelent := { entry with
    address := if order = .big then entry.address + 4 else entry.address
    howto := mipsElf32RtypeToHowto .rMips32 }
  let special := bfdMipsElfGenericReloc lib order reloc32 reloc32.sym data inputSection relocatable
  let r := lib.performRelocation (some special) reloc32 data inputSection relocatable s
  let d := r.state.mem data
  let val : BfdVma :=
    if bfdGet32 order d r.entry.address.toNat &&& 0x80000000 ≠ 0 then 0xffffffff else 0
  let addr := if order = .little then entry.address + 4 else entry.address
  ⟨r.status, entry, r.state.setData data (bfdPut32 order val d addr.toNat), r.errorMessage⟩

def plainSpecial (f : Arelent → Store → Asection → Bool → BfdRelocStatus × Arelent × Store)
    (entry : Arelent) (data : DataPtr) (inputSection : Asection) (relocatable : Bool)
    (s : RelocState) : SpecialResult :=
  let (status, entry, d) := f entry (s.mem data) inputSection relocatable
  ⟨status, entry, s.setData data d, none⟩

/-- `(*howto->special_function) (…)`, on the entry's own symbol as `bfd_perform_relocation` passes it. -/
def runSpecialFunction (lib : BfdLib) (order : Endian) (outsymbols : Option (List OutSymbol))
    (f : SpecialFunction) (entry : Arelent) (data : DataPtr) (inputSection : Asection)
    (relocatable : Bool) (s : RelocState) : SpecialResult :=
  match f with
  | .bfdMipsElfGenericReloc =>
      bfdMipsElfGenericReloc lib order entry entry.sym data inputSection relocatable s
  | .bfdMipsElfHi16Reloc => bfdMipsElfHi16Reloc entry data inputSection relocatable s
  | .bfdMipsElfGot16Reloc =>
      bfdMipsElfGot16Reloc lib order entry entry.sym data inputSection relocatable s
  | .bfdMipsElfLo16Reloc =>
      bfdMipsElfLo16Reloc lib order entry entry.sym data inputSection relocatable s
  | .bfdMipsElf32Gprel16Reloc =>
      bfdMipsElf32Gprel16Reloc lib order outsymbols entry entry.sym data inputSection relocatable s
  | .mipsElfGprel32Reloc =>
      mipsElfGprel32Reloc order outsymbols entry entry.sym data inputSection relocatable s
  | .mips16GprelReloc =>
      mips16GprelReloc lib order outsymbols entry entry.sym data inputSection relocatable s
  | .mips3264bitReloc => mips3264bitReloc lib order entry data inputSection relocatable s
  | .bfdElfGenericReloc => plainSpecial lib.bfdElfGenericReloc entry data inputSection relocatable s
  | .bfdElfRelVtableRelocFn =>
      plainSpecial lib.bfdElfRelVtableRelocFn entry data inputSection relocatable s

end Openisa.Bfd
