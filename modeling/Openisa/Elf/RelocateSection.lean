import Openisa.Elf.PerformRelocation

/-! The relocation of a section on the ELF linker path. -/

namespace Openisa.Elf

open Openisa.Bfd
open Openisa.Library
open Openisa.Library.ByteStore

def mipsElfAdjustAddend (lib : ElfLib) (link : ElfLink) (rel : InternalRela) : InternalRela :=
  match rel.sym with
  | .global _ => rel
  | .local sym sec _ _ =>
      let addend := rel.addend
      let addend :=
        if lib.gprel16RelocP rel.type || rel.type == .rMipsGprel32 || lib.literalRelocP rel.type then
          addend + link.gp0 - link.outputGp
        else addend
      let addend := if link.relocatable then addend else lib.relaLocalSym sym sec addend
      { rel with addend := if sym.isSection then addend + sec.outputOffset else addend }

structure SectionState (σ : Type) where
  contents : Store
  got : σ
  reports : List ElfReport
  smallDataReported : Bool
  addend : BfdVma
  useSavedAddend : Bool

inductive SectionOutcome where
  | true | false | abort
  deriving DecidableEq, Repr

def SymRef.sec : SymRef → Option ElfSection
  | .local _ sec _ _ => some sec
  | .global h => if h.type = .defined ∨ h.type = .defweak then h.sec else none

/-- The howto to work with, and the relocation at the word that holds the low half. -/
def workingReloc (order : Endian) (rel : InternalRela) : RelocHowto × InternalRela :=
  if rel.type = .rMips64 then
    (mipsElf32RtypeToHowto .rMips32,
      if order = .big then { rel with offset := rel.offset + 4 } else rel)
  else (mipsElf32RtypeToHowto rel.type, rel)

/-- The two words of an `R_MIPS_64`, from `value` sign-extended. -/
def putSignExtended (order : Endian) (value : BfdVma) (d : Store) (loc : Nat) : Store :=
  let signBits : BfdVma := if value &&& ((1 : BfdVma) <<< 31) ≠ 0 then ((1 : BfdVma) <<< 32) - 1 else 0
  let (lowBits, highBits) := if order = .big then (signBits, value) else (value, signBits)
  bfdPut32 order highBits (bfdPut32 order lowBits d loc) (loc + 4)

def addendIsHighP (rel : InternalRela) : Bool :=
  rel.type.hi16RelocP || (rel.type.got16RelocP && rel.sym.isLocal)

section Relocate

variable {σ : Type} (lib : ElfLib) (link : ElfLink) (ops : GotOps σ) (inputSection : ElfSection)

def readAddend (isRel : Bool) (howto : RelocHowto) (rel : InternalRela) (s : SectionState σ) :
    InternalRela × SectionState σ :=
  if s.useSavedAddend then (rel, s) else
  let s :=
    if isRel then
      let (addend, d) := mipsElfReadRelAddend link.order rel howto s.contents
      { s with contents := d, addend := if addendIsHighP rel then addend else addend <<< howto.rightshift }
    else { s with addend := rel.addend }
  (mipsElfAdjustAddend lib link rel, s)

def adjustedField (howto : RelocHowto) (rel : InternalRela) (addend : BfdVma) : BfdVma :=
  let addend := addend + rel.addend
  let addend :=
    if rel.type.hi16RelocP || rel.type.got16RelocP then mipsElfHigh addend
    else if rel.type = .rMipsHigher then mipsElfHigher addend
    else if rel.type = .rMipsHighest then mipsElfHighest addend
    else addend >>> howto.rightshift
  addend &&& howto.srcMask

/-- The part of a turn that a partial link runs; `relaP` says that no addend was read from the field. -/
def relocatableStep (relaP : Bool) (howto : RelocHowto) (rel : InternalRela) (s : SectionState σ) :
    SectionOutcome × InternalRela × SectionState σ :=
  let rel := if rel.type = .rMips64 ∧ link.order = .big then { rel with offset := rel.offset - 4 } else rel
  if !relaP && rel.addend ≠ 0 then
    let addend := adjustedField howto rel s.addend
    if rel.type = .rMips64 then
      (.true, rel, { s with
        contents := putSignExtended link.order addend s.contents rel.offset.toNat, addend := addend })
    else
      let r := mipsElfPerformRelocation link howto rel addend inputSection s.contents false
      (if r.done then .true else .false, rel, { s with
        contents := r.contents, addend := addend, reports := s.reports ++ r.report.toList })
  else (.true, rel, s)

/-- The overflow of a value that is going to be stored is reported; the loop goes on if the callback
says so. -/
def reportOverflow (howto : RelocHowto) (name : String) (rel : InternalRela) (s : SectionState σ) :
    Bool × SectionState σ :=
  let small := !s.smallDataReported && (lib.gprel16RelocP howto.type || lib.literalRelocP howto.type)
  let reports := if small then s.reports ++ [.smallData] else s.reports
  let report := ElfReport.relocOverflow name howto.name rel.offset
  (link.callback reports report,
    { s with reports := reports ++ [report], smallDataReported := s.smallDataReported || small })

def storeValue (howto : RelocHowto) (rel : InternalRela) (value : BfdVma) (crossModeJump : Bool)
    (s : SectionState σ) : SectionOutcome × InternalRela × SectionState σ :=
  if s.useSavedAddend then (.true, rel, { s with addend := value })
  else if rel.type = .rMips64 then
    let rel := if link.order = .big then { rel with offset := rel.offset - 4 } else rel
    (.true, rel, { s with contents := putSignExtended link.order value s.contents rel.offset.toNat })
  else
    let r := mipsElfPerformRelocation link howto rel value inputSection s.contents crossModeJump
    (if r.done then .true else .false, rel, { s with
      contents := r.contents, reports := s.reports ++ r.report.toList })

def finalStep (howto : RelocHowto) (rel : InternalRela) (next : Option InternalRela) (s : SectionState σ) :
    SectionOutcome × InternalRela × SectionState σ :=
  let saved := next.any fun next => rel.offset == next.offset && next.type != .rMipsNone
  let s := { s with useSavedAddend := saved }
  let r := mipsElfCalculateRelocation ops lib link inputSection rel s.addend howto saved s.reports s.got
  let s := { s with got := r.got, reports := s.reports ++ r.report.toList }
  match r.status with
  | .continue | .undefined => (.true, rel, s)
  | .notsupported =>
      (.false, rel, { s with reports := s.reports ++
        [.warning "internal error: unsupported relocation error" r.name rel.offset] })
  | .overflow =>
      if saved then storeValue link inputSection howto rel r.value r.crossModeJump s
      else
        match reportOverflow lib link howto r.name rel s with
        | (true, s) => storeValue link inputSection howto rel r.value r.crossModeJump s
        | (false, s) => (.false, rel, s)
  | .ok => storeValue link inputSection howto rel r.value r.crossModeJump s
  | .outofrange =>
      if howto.type.jalRelocP then
        (.false, rel, { s with reports := s.reports ++
          [.warning "JALX to a non-word-aligned address" r.name rel.offset] })
      else (.abort, rel, s)
  | .dangerous => (.abort, rel, s)

def relocateRel (isRel : Bool) (rel : InternalRela) (next : Option InternalRela) (s : SectionState σ) :
    SectionOutcome × InternalRela × SectionState σ :=
  if rel.sym.sec.any ElfSection.discarded then
    (.true, { rel with type := .rMipsNone, symndx := 0, addend := 0 }, { s with
      contents := lib.clearContents (mipsElf32RtypeToHowto rel.type) s.contents rel.offset })
  else
    let (howto, rel) := workingReloc link.order rel
    let relaP := s.useSavedAddend || !isRel
    let (rel, s) := readAddend lib link isRel howto rel s
    if link.relocatable then relocatableStep link inputSection relaP howto rel s
    else finalStep lib link ops inputSection howto rel next s

/-- The loop; the first `rels` relocations of the list are REL ones. -/
def relocateLoop (rels : Nat) : List InternalRela → SectionState σ →
    SectionOutcome × List InternalRela × SectionState σ
  | [], s => (.true, [], s)
  | rel :: rest, s =>
      match relocateRel lib link ops inputSection (0 < rels) rel rest.head? s with
      | (.true, rel, s) =>
          let (outcome, rest, s) := relocateLoop (rels - 1) rest s
          (outcome, rel :: rest, s)
      | (outcome, rel, s) => (outcome, rel :: rest, s)

def bfdMipsElfRelocateSection (rels : Nat) (relocs : List InternalRela) (contents : Store) (got : σ)
    (reports : List ElfReport) (smallDataReported : Bool) :
    SectionOutcome × List InternalRela × SectionState σ :=
  relocateLoop lib link ops inputSection rels relocs
    ⟨contents, got, reports, smallDataReported, 0, false⟩

end Relocate

theorem working_reloc_word (order : Endian) (rel : InternalRela) (not64 : rel.type ≠ .rMips64) :
    workingReloc order rel = (mipsElf32RtypeToHowto rel.type, rel) := by
  rw [workingReloc, if_neg not64]

variable {σ : Type} {lib : ElfLib} {link : ElfLink} {ops : GotOps σ} {inputSection : ElfSection}

/-- The addend that is read from the word `x` of a REL relocation. -/
def wordAddend (rel : InternalRela) (howto : RelocHowto) (x : BfdVma) : BfdVma :=
  let addend := x &&& BitField.mask 64 howto.bitpos howto.bitsize
  if addendIsHighP rel then addend else addend <<< howto.rightshift

theorem read_addend_word (rel : InternalRela) (howto : RelocHowto) (word : howto.WordField)
    (plain : plainOrderP rel.type = true) (s : SectionState σ) (fresh : s.useSavedAddend = false) :
    readAddend lib link true howto rel s = (mipsElfAdjustAddend lib link rel,
      { s with addend := wordAddend rel howto (bfdGet32 link.order s.contents rel.offset.toNat) }) := by
  simp only [readAddend, fresh, Bool.false_eq_true, if_false, if_true, wordAddend,
    read_rel_addend_plain link.order rel howto word plain]

theorem relocate_rel_word (rel : InternalRela) (next : Option InternalRela) (s : SectionState σ)
    (kept : rel.sym.sec.any ElfSection.discarded = false) (not64 : rel.type ≠ .rMips64)
    (word : (mipsElf32RtypeToHowto rel.type).WordField) (plain : plainOrderP rel.type = true)
    (fresh : s.useSavedAddend = false) :
    let howto := mipsElf32RtypeToHowto rel.type
    let adjusted := mipsElfAdjustAddend lib link rel
    let s' := { s with addend := wordAddend rel howto (bfdGet32 link.order s.contents rel.offset.toNat) }
    relocateRel lib link ops inputSection true rel next s =
      if link.relocatable then relocatableStep link inputSection false howto adjusted s'
      else finalStep lib link ops inputSection howto adjusted next s' := by
  simp only [relocateRel, kept, Bool.false_eq_true, if_false, working_reloc_word _ _ not64, fresh,
    Bool.not_true, Bool.or_false, read_addend_word _ _ word plain s fresh]

theorem relocatable_step_zero (rel : InternalRela) (howto : RelocHowto) (not64 : rel.type ≠ .rMips64)
    (stays : rel.addend = 0) (s : SectionState σ) :
    relocatableStep link inputSection false howto rel s = (.true, rel, s) := by
  have whole : ¬ (rel.type = .rMips64 ∧ link.order = .big) := fun both => not64 both.1
  simp only [relocatableStep, if_neg whole, stays, ne_eq, not_true_eq_false, decide_false, Bool.and_false,
    Bool.false_eq_true, if_false]

theorem relocate_loop_single (rel : InternalRela) (s : SectionState σ) :
    relocateLoop lib link ops inputSection 1 [rel] s =
      (let turn := relocateRel lib link ops inputSection true rel none s
      (turn.1, [turn.2.1], turn.2.2)) := by
  simp only [relocateLoop, List.head?_nil, Nat.zero_lt_one, decide_true]
  generalize relocateRel lib link ops inputSection true rel none s = turn
  obtain ⟨outcome, rel, s⟩ := turn
  cases outcome <;> rfl

theorem relocatable_step_word (isPartial : link.relocatable = true) (rel : InternalRela)
    (howto : RelocHowto) (word : howto.WordField) (plain : plainOrderP rel.type = true)
    (not64 : rel.type ≠ .rMips64) (moves : rel.addend ≠ 0) (s : SectionState σ) :
    let addend := adjustedField howto rel s.addend
    relocatableStep link inputSection false howto rel s = (.true, rel, { s with
      contents := bfdPut32 link.order
        (storeField howto addend (bfdGet32 link.order s.contents rel.offset.toNat)) s.contents
        rel.offset.toNat
      addend := addend
      reports := s.reports ++ [] }) := by
  have whole : ¬ (rel.type = .rMips64 ∧ link.order = .big) := fun both => not64 both.1
  have performed := perform_relocation_partial link howto word rel plain (adjustedField howto rel s.addend)
    inputSection s.contents isPartial
  simp only [relocatableStep, if_neg whole, Bool.not_false, Bool.true_and, moves, ne_eq, not_false_eq_true,
    decide_true, if_true, if_neg not64, performed, Option.toList]

end Openisa.Elf
