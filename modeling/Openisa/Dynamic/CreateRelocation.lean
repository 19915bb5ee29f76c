import Openisa.Dynamic.CheckRelocs
import Openisa.Elf.CalculateRelocation

/-! The last pass: relocating the input sections, which turns absolute relocations into dynamic ones. -/

namespace Openisa.Dynamic

open Openisa.Bfd
open Openisa.Elf
open Openisa.Got
open Openisa.Library

/-- What the generic linker says of offsets, sections and dynamic symbols. -/
structure DynEnv where
  sectionOffset : ElfSection → BfdVma → BfdVma
  isAbs : ElfSection → Bool
  hasOwner : ElfSection → Bool
  outputDynindx : ElfSection → Nat
  textDynindx : Nat
  dynindx : HashEntry → Nat

variable {η : Type}

structure DynReloc (η : Type) where
  owner : RoomFor η
  offset : BfdVma
  indx : Nat
  rType : MipsReloc
  addend : BfdVma
  deriving DecidableEq, Repr

/-- The section `.rel.dyn` while it is filled; `overrun` tells that the assertion of room has failed. -/
structure RelDynOut (η : Type) where
  size : Nat
  relocCount : Nat
  records : List (DynReloc η)
  overrun : Bool
  deriving DecidableEq, Repr

/-- The dynamic symbol of a relocation and `defined_p`; none where the code returns `FALSE` or aborts. -/
def dynamicSymbolIndex (env : DynEnv) (link : DynLink) (h : Option HashEntry) (sec : Option ElfSection) :
    Option (Nat × Bool) :=
  match h.filter fun h => !h.referencesLocal with
  | some h => some (env.dynindx h, link.sgiCompat && h.defRegular)
  | none =>
      match sec with
      | none => none
      | some sec =>
          if env.isAbs sec then some (0, true)
          else if !env.hasOwner sec then none
          else
            let indx := if env.outputDynindx sec = 0 then env.textDynindx else env.outputDynindx sec
            if indx = 0 then none else some (if link.sgiCompat then indx else 0, true)

def minusTwo : BfdVma := minusOne - 1

def mipsElfCreateDynamicRelocation (env : DynEnv) (link : DynLink) (owner : RoomFor η) (rel : InternalRela)
    (h : Option HashEntry) (sec : Option ElfSection) (symbol addend : BfdVma) (inputSection : ElfSection)
    (out : RelDynOut η) : Option BfdVma × RelDynOut η :=
  let out := { out with overrun := out.overrun || !decide (out.relocCount * relSize link < out.size) }
  let offset := env.sectionOffset inputSection rel.offset
  -- the field is gone, or has become relative
  if offset = minusOne then (some addend, out)
  else if offset = minusTwo then (some (addend + symbol), out)
  else
    match dynamicSymbolIndex env link h sec with
    | none => (none, out)
    | some (indx, definedP) =>
        let addend := if definedP && rel.type ≠ .rMipsRel32 then addend + symbol else addend
        (some addend,
          { out with
            relocCount := out.relocCount + 1
            records := out.records ++ [{
              owner := owner
              offset := offset + inputSection.base
              indx := indx
              rType := if link.isVxworks then .rMips32 else .rMipsRel32
              addend := if link.isVxworks then addend else 0 }] })

def recordedP (env : DynEnv) (link : DynLink) (rel : InternalRela) (h : Option HashEntry)
    (sec : Option ElfSection) (inputSection : ElfSection) : Bool :=
  env.sectionOffset inputSection rel.offset ≠ minusOne &&
    (env.sectionOffset inputSection rel.offset ≠ minusTwo && (dynamicSymbolIndex env link h sec).isSome)

/-- A record more or not, and the assertion of room. -/
structure PutOut (link : DynLink) (asks puts : Bool) (owner : RoomFor η) (out out' : RelDynOut η) : Prop where
  owners : out'.records.map DynReloc.owner = out.records.map DynReloc.owner ++ if puts then [owner] else []
  count : out'.relocCount = out.relocCount + if puts then 1 else 0
  size : out'.size = out.size
  overrun : out'.overrun = (out.overrun || (asks && !decide (out.relocCount * relSize link < out.size)))

theorem PutOut.idle (link : DynLink) (owner : RoomFor η) (out : RelDynOut η) :
    PutOut link false false owner out out where
  owners := by simp
  count := rfl
  size := rfl
  overrun := by simp

theorem create_dynamic_puts (env : DynEnv) (link : DynLink) (owner : RoomFor η) (rel : InternalRela)
    (h : Option HashEntry) (sec : Option ElfSection) (symbol addend : BfdVma) (inputSection : ElfSection)
    (out : RelDynOut η) :
    PutOut link true (recordedP env link rel h sec inputSection) owner out
      (mipsElfCreateDynamicRelocation env link owner rel h sec symbol addend inputSection out).2 := by
  unfold mipsElfCreateDynamicRelocation recordedP
  dsimp only
  by_cases gone : env.sectionOffset inputSection rel.offset = minusOne
  · rw [if_pos gone]
    exact ⟨by simp [gone], by simp [gone], rfl, by simp⟩
  · by_cases relative : env.sectionOffset inputSection rel.offset = minusTwo
    · rw [if_neg gone, if_pos relative]
      exact ⟨by simp [relative], by simp [relative], rfl, by simp⟩
    · rw [if_neg gone, if_neg relative]
      cases index : dynamicSymbolIndex env link h sec with
      | none => exact ⟨by simp, by simp, rfl, by simp⟩
      | some indx => exact ⟨by simp [gone, relative], by simp [gone, relative], rfl, by simp⟩

/-- A call of `mips_elf_calculate_relocation`. -/
structure CalcCall (η : Type) where
  reloc : LinkReloc η
  addend : BfdVma
  howto : RelocHowto
  saveAddend : Bool
  reports : List ElfReport

def relHash (rel : InternalRela) : Option HashEntry :=
  match rel.sym with
  | .local .. => none
  | .global h => some h

def targetSection (lib : ElfLib) (link : ElfLink) (inputSection : ElfSection) (rel : InternalRela)
    (addend : BfdVma) (reports : List ElfReport) : Option ElfSection :=
  match resolveSymbol lib link rel addend reports with
  | .stop .. => none
  | .found t => (redirectToStub link inputSection rel t).sec

theorem resolve_symbol_hash {lib : ElfLib} {link : ElfLink} {rel : InternalRela} {addend : BfdVma}
    {reports : List ElfReport} {t : Target} (found : resolveSymbol lib link rel addend reports = .found t) :
    t.h = relHash rel := by
  unfold resolveSymbol at found
  unfold relHash
  cases symbol : rel.sym with
  | «local» sym sec stub callStub =>
    rw [symbol] at found
    cases found
    rfl
  | global h =>
    rw [symbol] at found
    dsimp only at found ⊢
    unfold resolveGlobal at found
    dsimp only at found
    repeat' split at found
    all_goals cases found
    all_goals rfl

theorem redirect_hash (link : ElfLink) (inputSection : ElfSection) (rel : InternalRela) (t : Target) :
    (redirectToStub link inputSection rel t).h = t.h := by
  unfold redirectToStub redirectToLa25Stub
  dsimp only
  repeat' split
  all_goals rfl

section Ops

variable {σ : Type}
variable (ops : GotOps σ) (env : DynEnv) (lib : ElfLib) (link : DynLink) (table : SymbolTable η)

/-- The operations on the GOT, with dynamic relocations put into `.rel.dyn`. -/
def dynOps (c : CalcCall η) : GotOps (σ × RelDynOut η) where
  localGotIndex value symndx h rType s :=
    let (index, got) := ops.localGotIndex value symndx h rType s.1
    (index, got, s.2)
  globalGotIndex h rType s :=
    let (index, got) := ops.globalGotIndex h rType s.1
    (index, got, s.2)
  gotpltIndex h s :=
    let (index, got) := ops.gotpltIndex h s.1
    (index, got, s.2)
  got16Entry value external s :=
    let (index, got) := ops.got16Entry value external s.1
    (index, got, s.2)
  gotPage value s :=
    let (page, got) := ops.gotPage value s.1
    (page, got, s.2)
  gotOffsetFromIndex index s := ops.gotOffsetFromIndex index s.1
  putGotWord value g s := (ops.putGotWord value g s.1, s.2)
  addGottReloc rel addend s := (ops.addGottReloc rel addend s.1, s.2)
  createDynamicRelocation rel symbol addend s :=
    let inputSection := c.reloc.input.sec
    let sec := targetSection lib (link.forInput c.reloc.input.abfd) inputSection rel c.addend c.reports
    let (value, out) := mipsElfCreateDynamicRelocation env link (c.reloc.owner table.links) rel (relHash rel)
      sec symbol addend inputSection s.2
    (value, s.1, out)

def calculateCall (c : CalcCall η) (s : σ × RelDynOut η) : σ × RelDynOut η :=
  (mipsElfCalculateRelocation (dynOps ops env lib link table c) lib (link.forInput c.reloc.input.abfd)
    c.reloc.input.sec (c.reloc.rela table) c.addend c.howto c.saveAddend c.reports s).got

def calculateAll (s : σ × RelDynOut η) (calls : List (CalcCall η)) : σ × RelDynOut η :=
  calls.foldl (fun s c => calculateCall ops env lib link table c s) s

def dynamicWordP (link : ElfLink) (inputSection : ElfSection) (rel : InternalRela) : Bool :=
  let h := relHash rel
  let fromDynamic := link.dynamicSectionsCreated &&
    h.any fun h => h.defDynamic && !h.defRegular && !h.hasStaticRelocs
  let visible := !(h.any fun h => h.type == .undefweak && !h.defaultVisibility)
  (link.shared || fromDynamic) && rel.symndx ≠ 0 && visible && inputSection.alloc

def foundP (c : CalcCall η) : Bool :=
  match resolveSymbol lib (link.forInput c.reloc.input.abfd) (c.reloc.rela table) c.addend c.reports with
  | .stop .. => false
  | .found _ => true

def asksDynamicP (c : CalcCall η) : Bool :=
  relocUse c.reloc.type = .absolute &&
    dynamicWordP (link.forInput c.reloc.input.abfd) c.reloc.input.sec (c.reloc.rela table) && foundP lib link table c

/-- The relocation would be put out: its field is there, and it has a dynamic symbol. -/
def putOutP (c : CalcCall η) : Bool :=
  let rel := c.reloc.rela table
  recordedP env link rel (relHash rel)
    (targetSection lib (link.forInput c.reloc.input.abfd) c.reloc.input.sec rel c.addend c.reports) c.reloc.input.sec

def becomesDynamicP (c : CalcCall η) : Bool := asksDynamicP lib link table c && putOutP env lib link table c

variable {ops env lib link table} {c : CalcCall η} (abfd : ElfLink) (inputSection : ElfSection)

variable (ops env lib link table c) in
theorem got_offset_out (rType : MipsReloc) (symndx : Nat) (t : Target) (symbol addend : BfdVma)
    (s : σ × RelDynOut η) :
    (gotOffset (dynOps ops env lib link table c) abfd rType symndx t symbol addend s).2.2 = s.2 := by
  unfold gotOffset
  dsimp only
  repeat' split
  all_goals rfl

theorem got_index_value_out (index : Option BfdVma) (s : σ × RelDynOut η) :
    (gotIndexValue (dynOps ops env lib link table c) index s).2.2 = s.2 := by
  cases index <;> rfl

variable (ops env lib link table c) in
theorem relocation_value_out (rel : InternalRela) (o : Operands) (relative : relocUse o.rType ≠ .absolute)
    (s : σ × RelDynOut η) :
    (relocationValue (dynOps ops env lib link table c) abfd inputSection rel o s).2.2 = s.2 := by
  cases type : o.rType
  case rMips32 | rMipsRel32 | rMips64 => exact absurd (by rw [type]; rfl) relative
  case rMips16Got16 | rMips16Call16 | rMipsGot16 | rMipsCall16 | rMicromipsGot16 | rMicromipsCall16 =>
    simp only [relocationValue, type]
    split
    · exact got_index_value_out _ _
    · rfl
  case rMipsGotPage | rMicromipsGotPage =>
    simp only [relocationValue, type]
    exact got_index_value_out _ _
  case rMipsGotOfst | rMicromipsGotOfst | rMipsJalr | rMicromipsJalr =>
    simp only [relocationValue, type]
    split <;> rfl
  all_goals simp only [relocationValue, type]

theorem word_value_puts (o : Operands) (hash : o.t.h = relHash (c.reloc.rela table)) (s : σ × RelDynOut η) :
    let asks := dynamicWordP abfd c.reloc.input.sec (c.reloc.rela table)
    PutOut link asks (asks && putOutP env lib link table c) (c.reloc.owner table.links) s.2
      (wordValue (dynOps ops env lib link table c) abfd c.reloc.input.sec (c.reloc.rela table) o s).2.2 := by
  have condition : dynamicWordP abfd c.reloc.input.sec (c.reloc.rela table) =
      ((abfd.shared || (abfd.dynamicSectionsCreated &&
        o.t.h.any fun h => h.defDynamic && !h.defRegular && !h.hasStaticRelocs)) &&
        (c.reloc.rela table).symndx ≠ 0 && !(o.t.h.any fun h => h.type == .undefweak && !h.defaultVisibility) &&
        c.reloc.input.sec.alloc) := by
    rw [hash]
    rfl
  unfold wordValue
  dsimp only
  rw [← condition]
  cases dynamicWordP abfd c.reloc.input.sec (c.reloc.rela table) with
  | true =>
    have puts := create_dynamic_puts env link (c.reloc.owner table.links) (c.reloc.rela table)
      (relHash (c.reloc.rela table))
      (targetSection lib (link.forInput c.reloc.input.abfd) c.reloc.input.sec (c.reloc.rela table) c.addend c.reports)
      o.symbol o.addend c.reloc.input.sec s.2
    rw [if_pos rfl]
    split
    next value s' created =>
      have same := congrArg (fun x => x.2.2) created
      rw [← same]
      exact puts
    next s' created =>
      have same := congrArg (fun x => x.2.2) created
      rw [← same]
      exact puts
  | false =>
    rw [if_neg Bool.false_ne_true]
    split <;> exact .idle link _ s.2

omit c in
theorem operands_type (howto : RelocHowto) (rel : InternalRela) (saveAddend : Bool) (t : Target) :
    (relocUse (operandsOf abfd inputSection rel howto saveAddend t).rType = .absolute ↔
      relocUse rel.type = .absolute) ∧
    (relocUse rel.type = .absolute →
      (operandsOf abfd inputSection rel howto saveAddend t).rType = rel.type) := by
  unfold operandsOf
  dsimp only
  by_cases page : (rel.type.gotPageRelocP && !resolvesLocally t) = true
  · have isPage : rel.type.gotPageRelocP = true := (Bool.and_eq_true _ _ ▸ page : _ ∧ _).1
    have relative : relocUse rel.type ≠ .absolute := by
      intro absolute
      rcases absolute_type absolute with h | h | h <;> simp [h, MipsReloc.gotPageRelocP] at isPage
    rw [if_pos page]
    constructor
    · refine iff_of_false ?_ relative
      split <;> simp [relocUse]
    · intro absolute
      exact absurd absolute relative
  · rw [if_neg page]
    exact ⟨Iff.rfl, fun _ => rfl⟩

theorem calculate_relative (c : CalcCall η) (relative : relocUse c.reloc.type ≠ .absolute) (s : σ × RelDynOut η) :
    (calculateCall ops env lib link table c s).2 = s.2 := by
  unfold calculateCall mipsElfCalculateRelocation
  cases resolveSymbol lib (link.forInput c.reloc.input.abfd) (c.reloc.rela table) c.addend c.reports with
  | stop status name report => rfl
  | found t =>
    dsimp only
    generalize redirectToStub (link.forInput c.reloc.input.abfd) c.reloc.input.sec (c.reloc.rela table) t = t'
    split
    · rfl
    · have shape := operands_type (link.forInput c.reloc.input.abfd) c.reloc.input.sec c.howto
        (c.reloc.rela table) c.saveAddend t'
      generalize operandsOf (link.forInput c.reloc.input.abfd) c.reloc.input.sec (c.reloc.rela table) c.howto
        c.saveAddend t' = o at *
      have got := got_offset_out ops env lib link table c (link.forInput c.reloc.input.abfd)
        o.rType (c.reloc.rela table).symndx t' o.symbol o.addend s
      cases offset : gotOffset (dynOps ops env lib link table c) (link.forInput c.reloc.input.abfd) o.rType
          (c.reloc.rela table).symndx t' o.symbol o.addend s with
      | mk g s' =>
        rw [offset] at got
        cases g with
        | none => exact got
        | some g =>
          dsimp only at got ⊢
          split
          · exact got
          · have value := relocation_value_out ops env lib link table c (link.forInput c.reloc.input.abfd)
              c.reloc.input.sec (c.reloc.rela table) { o with g := g }
              (fun absolute => relative (shape.1.mp absolute)) s'
            rw [got] at value
            split
            next last => rwa [last] at value
            next last => rwa [last] at value

variable (ops env) in
theorem calculate_absolute (notVxworks : link.isVxworks = false) (c : CalcCall η)
    (absolute : relocUse c.reloc.type = .absolute) (s : σ × RelDynOut η) {t : Target}
    (resolved : resolveSymbol lib (link.forInput c.reloc.input.abfd) (c.reloc.rela table) c.addend c.reports =
      .found t) :
    ∃ o : Operands, relocUse o.rType = .absolute ∧ o.t.h = relHash (c.reloc.rela table) ∧
      calculateCall ops env lib link table c s =
        (relocationValue (dynOps ops env lib link table c) (link.forInput c.reloc.input.abfd) c.reloc.input.sec
          (c.reloc.rela table) o s).2 := by
  have hash : (redirectToStub (link.forInput c.reloc.input.abfd) c.reloc.input.sec (c.reloc.rela table) t).h =
      relHash (c.reloc.rela table) := by
    rw [redirect_hash, resolve_symbol_hash resolved]
  unfold calculateCall mipsElfCalculateRelocation
  rw [resolved]
  dsimp only
  generalize redirectToStub (link.forInput c.reloc.input.abfd) c.reloc.input.sec (c.reloc.rela table) t = t' at *
  have shape := operands_type (link.forInput c.reloc.input.abfd) c.reloc.input.sec c.howto
    (c.reloc.rela table) c.saveAddend t'
  have target : (operandsOf (link.forInput c.reloc.input.abfd) c.reloc.input.sec (c.reloc.rela table) c.howto
    c.saveAddend t').t = t' := rfl
  generalize operandsOf (link.forInput c.reloc.input.abfd) c.reloc.input.sec (c.reloc.rela table) c.howto
    c.saveAddend t' = o at *
  have typeOf : (c.reloc.rela table).type = c.reloc.type := rfl
  rw [typeOf] at shape ⊢
  have plain := absolute_type absolute
  have sameIsa : mixedIsaP c.reloc.type t' = false := by
    rcases plain with type | type | type <;> rw [type] <;> rfl
  have noGot : usesGotOffsetP o.rType = false := by
    rw [shape.2 absolute]
    rcases plain with type | type | type <;> rw [type] <;> rfl
  have offset : gotOffset (dynOps ops env lib link table c) (link.forInput c.reloc.input.abfd) o.rType
      (c.reloc.rela table).symndx t' o.symbol o.addend s = (some minusOne, s) := by
    unfold gotOffset
    simp [noGot]
  have ordinary : gottSymbolP (link.forInput c.reloc.input.abfd) t' = false := by
    simp [gottSymbolP, DynLink.forInput, notVxworks]
  refine ⟨{ o with g := minusOne }, shape.1.mpr absolute, target ▸ hash, ?_⟩
  rw [sameIsa, offset, if_neg (by simp)]
  dsimp only
  rw [ordinary, if_neg (by simp)]
  split
  next last => rw [last]
  next last => rw [last]

theorem calculate_puts (notVxworks : link.isVxworks = false) (c : CalcCall η) (s : σ × RelDynOut η) :
    PutOut link (asksDynamicP lib link table c) (becomesDynamicP env lib link table c) (c.reloc.owner table.links) s.2
      (calculateCall ops env lib link table c s).2 := by
  have idle : asksDynamicP lib link table c = false → (calculateCall ops env lib link table c s).2 = s.2 →
      PutOut link (asksDynamicP lib link table c) (becomesDynamicP env lib link table c)
        (c.reloc.owner table.links) s.2 (calculateCall ops env lib link table c s).2 := by
    intro none same
    rw [same, becomesDynamicP, none]
    exact .idle link _ s.2
  by_cases absolute : relocUse c.reloc.type = .absolute
  · cases resolved : resolveSymbol lib (link.forInput c.reloc.input.abfd) (c.reloc.rela table) c.addend
        c.reports with
    | stop status name report =>
      apply idle
      · simp [asksDynamicP, foundP, resolved]
      · unfold calculateCall mipsElfCalculateRelocation
        rw [resolved]
    | found t =>
      obtain ⟨o, word, hash, same⟩ := calculate_absolute ops env notVxworks c absolute s resolved
      have asks : asksDynamicP lib link table c =
          dynamicWordP (link.forInput c.reloc.input.abfd) c.reloc.input.sec (c.reloc.rela table) := by
        simp [asksDynamicP, foundP, resolved, absolute]
      have value : relocationValue (dynOps ops env lib link table c) (link.forInput c.reloc.input.abfd)
          c.reloc.input.sec (c.reloc.rela table) o s =
          wordValue (dynOps ops env lib link table c) (link.forInput c.reloc.input.abfd) c.reloc.input.sec
            (c.reloc.rela table) o s := by
        unfold relocationValue
        rcases absolute_type word with type | type | type <;> rw [type]
      rw [same, value, becomesDynamicP, asks]
      exact word_value_puts _ o hash s
  · exact idle (by simp [asksDynamicP, absolute]) (calculate_relative c absolute s)

end Ops

end Openisa.Dynamic
