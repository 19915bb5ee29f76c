import Openisa.Elf.RelocateSection
import Openisa.Bfd.FinalLink

/-! A final link of one word on the ELF path, against a symbol that is defined. -/

namespace Openisa.Elf

open Openisa.Bfd
open Openisa.Library
open Openisa.Library.ByteStore

/-- The symbol is defined at `address`, in a section of the output that is not merged, and its code is
not compressed. -/
inductive DefinedAt : SymRef → BfdVma → Prop where
  | section (sym : ElfSym) (sec : ElfSection) (callStub : Option ElfSection) (kept : sec.discarded = false)
      (unmerged : sec.merge = false) (isa : sym.isa = .standard) (isSection : sym.isSection = true) :
      DefinedAt (.local sym sec none callStub) sec.base
  | «local» (sym : ElfSym) (sec : ElfSection) (callStub : Option ElfSection) (kept : sec.discarded = false)
      (unmerged : sec.merge = false) (isa : sym.isa = .standard) (inSection : sym.isSection = false) :
      DefinedAt (.local sym sec none callStub) (sec.base + sym.value)
  | global (h : HashEntry) (sec : ElfSection) (type : h.type = .defined ∨ h.type = .defweak)
      (inSection : h.sec = some sec) (kept : sec.discarded = false) (output : sec.hasOutput = true)
      (isa : h.isa = .standard) (noStub : h.fnStub = none) (name : (h.name == "_gp_disp") = false) :
      DefinedAt (.global h) (h.value + sec.vma + sec.outputOffset)

/-- Where a relocation goes: `__gnu_local_gp` stands for gp, and position-dependent code calls a symbol
through the stub it may have for that. -/
def elfTarget (link : ElfLink) (rType : MipsReloc) : SymRef → BfdVma → BfdVma
  | .local .., address => address
  | .global h, address =>
      if h.name == "__gnu_local_gp" then link.gp else
      match h.la25Stub with
      | some (sec, offset) => if relocationNeedsLa25StubP link rType false then sec.base + offset else address
      | none => address

def fieldValue (rType : MipsReloc) (isLocal : Bool) (target addend p : BfdVma) : BfdVma × Bool :=
  let howto := mipsElf32RtypeToHowto rType
  match rType with
  | .rMips26 =>
      let value := (if isLocal then addend ||| ((p + 4) &&& 0xf0000000)
        else mipsElfSignExtend addend 28) + target
      ((value >>> 2) &&& howto.dstMask, !isLocal && (value >>> 2) >>> 26 ≠ (p + 4) >>> 28)
  | .rMipsHi16 | .rMicromipsHi16 => (mipsElfHigh (addend + target) &&& howto.dstMask, false)
  | .rMipsPc16 =>
      let value := target + mipsElfSignExtend addend 18 - p
      ((value >>> howto.rightshift) &&& howto.dstMask, mipsElfOverflowP value 18)
  | .rMicromipsPc16S1 =>
      let value := target + mipsElfSignExtend addend 17 - p
      ((value >>> howto.rightshift) &&& howto.dstMask, mipsElfOverflowP value 17)
  | _ => ((target + addend) &&& howto.dstMask, false)

variable {σ : Type} {lib : ElfLib} {link : ElfLink} {ops : GotOps σ} {inputSection : ElfSection}

def SymRef.entry : SymRef → Option HashEntry
  | .local .. => none
  | .global h => some h

/-- The target that is found for a defined symbol is not compressed, not undefined and not gp's
displacement; its address is the one to relocate with. -/
structure PlainTarget (link : ElfLink) (rel : InternalRela) (address addend : BfdVma) (t : Target) : Prop where
  symbol : (if t.gnuLocalGp then link.gp else t.symbol) = elfTarget link rel.type rel.sym address
  addend : t.addend = addend
  gpDisp : t.gpDisp = false
  is16Bit : t.is16Bit = false
  isMicromips : t.isMicromips = false
  entry : t.h = rel.sym.entry
  defined : (t.h.any fun h => h.type == .undefweak) = false

theorem field_not_mips16 (type : MipsReloc) (field : fieldRelocP type = true) :
    type ≠ .rMips16_26 ∧ type ≠ .rMips16Call16 := by
  revert field
  cases type <;> decide

theorem redirect_no_stub (rel : InternalRela) (notJump : rel.type ≠ .rMips16_26)
    (noStub : fnStubOf rel = none) (t : Target) :
    redirectToStub link inputSection rel t = redirectToLa25Stub link rel t := by
  simp only [redirectToStub, noStub, notJump, ite_self, if_false, decide_false, Bool.false_and,
    Bool.false_eq_true]

theorem plain_global (rel : InternalRela) (h : HashEntry) (isGlobal : rel.sym = .global h)
    (notWeak : (h.type == .undefweak) = false) (address addend : BfdVma) (sec : Option ElfSection) :
    PlainTarget link rel address addend (redirectToLa25Stub link rel
      ⟨if h.name == "__gnu_local_gp" then 0 else address, addend, sec, some h, h.name, false,
        h.name == "__gnu_local_gp", false, false⟩) := by
  cases stub : h.la25Stub with
  | none =>
      constructor <;> simp [redirectToLa25Stub, elfTarget, isGlobal, stub, SymRef.entry, notWeak]
      by_cases localGp : h.name = "__gnu_local_gp" <;> simp [localGp]
  | some place =>
      by_cases needed : relocationNeedsLa25StubP link rel.type false = true
      · constructor <;> simp [redirectToLa25Stub, elfTarget, isGlobal, stub, SymRef.entry, notWeak, needed]
      · constructor <;> simp [redirectToLa25Stub, elfTarget, isGlobal, stub, SymRef.entry, notWeak, needed]
        by_cases localGp : h.name = "__gnu_local_gp" <;> simp [localGp]

theorem resolve_global (rel : InternalRela) (h : HashEntry) (sec : ElfSection)
    (type : h.type = .defined ∨ h.type = .defweak) (inSection : h.sec = some sec)
    (output : sec.hasOutput = true) (isa : h.isa = .standard) (name : (h.name == "_gp_disp") = false)
    (addend : BfdVma) (reports : List ElfReport) :
    ∃ sec', resolveGlobal link rel h addend reports =
      .found ⟨if h.name == "__gnu_local_gp" then 0 else h.value + sec.vma + sec.outputOffset, addend, sec',
        some h, h.name, false, h.name == "__gnu_local_gp", false, false⟩ := by
  by_cases localGp : (h.name == "__gnu_local_gp") = true
  · refine ⟨none, ?_⟩
    simp [resolveGlobal, name, localGp, isa]
  · refine ⟨some sec, ?_⟩
    rcases type with defined | weak
    · simp [resolveGlobal, name, localGp, isa, defined, inSection, output]
    · simp [resolveGlobal, name, localGp, isa, weak, inSection, output]

theorem resolve_defined (lib : ElfLib) (inputSection : ElfSection) (rel : InternalRela) (address addend : BfdVma)
    (defined : DefinedAt rel.sym address) (field : fieldRelocP rel.type = true) (reports : List ElfReport) :
    ∃ t, resolveSymbol lib link rel addend reports = .found t ∧
      PlainTarget link rel address addend (redirectToStub link inputSection rel t) := by
  have notJump := (field_not_mips16 rel.type field).1
  rcases rel with ⟨offset, type, symndx, ref, own⟩
  cases defined with
  | «section» sym sec callStub kept unmerged isa isSection =>
      refine ⟨_, rfl, ?_⟩
      rw [redirect_no_stub _ notJump rfl]
      constructor <;> simp [redirectToLa25Stub, resolveLocal, isa, unmerged, isSection, elfTarget,
        SymRef.entry]
  | «local» sym sec callStub kept unmerged isa inSection =>
      refine ⟨_, rfl, ?_⟩
      rw [redirect_no_stub _ notJump rfl]
      constructor <;> simp [redirectToLa25Stub, resolveLocal, isa, unmerged, inSection, elfTarget,
        SymRef.entry]
  | global h sec type' inSection kept output isa noStub name =>
      have noStub' : fnStubOf ⟨offset, type, symndx, .global h, own⟩ = none := by
        simp only [fnStubOf, noStub, Option.bind_none]
      have notWeak : (h.type == .undefweak) = false := by
        rcases type' with defined | weak
        · rw [defined]
          rfl
        · rw [weak]
          rfl
      obtain ⟨sec', found⟩ := resolve_global ⟨offset, type, symndx, .global h, own⟩ h sec type' inSection
        output isa name addend reports
      refine ⟨_, found, ?_⟩
      rw [redirect_no_stub _ notJump noStub']
      exact plain_global _ h rfl notWeak _ _ _

/-- VxWorks gives two symbols of shared objects a meaning of their own. -/
def gottRefP (link : ElfLink) (ref : SymRef) : Bool :=
  link.isVxworks && link.shared &&
    ref.entry.any fun h => h.name == "__GOTT_BASE__" || h.name == "__GOTT_INDEX__"

theorem field_not_gp (classes : lib.GpRelativeOnly) (type : MipsReloc) (field : fieldRelocP type = true) :
    (lib.gprel16RelocP type || type == .rMipsGprel32 || lib.literalRelocP type) = false := by
  by_contra gp
  rw [Bool.not_eq_false, Bool.or_eq_true, Bool.or_eq_true] at gp
  rcases gp with (gprel | isWord) | literal
  · have member := classes type (Or.inl gprel)
    revert field member
    cases type <;> decide
  · revert field isWord
    cases type <;> decide
  · have member := classes type (Or.inr literal)
    revert field member
    cases type <;> decide

theorem field_not_64 (type : MipsReloc) (field : fieldRelocP type = true) :
    type ≠ .rMips64 ∧ type.got16RelocP = false ∧ type ≠ .rMipsHigher ∧ type ≠ .rMipsHighest := by
  revert field
  cases type <;> decide

theorem field_type (type : MipsReloc) (field : fieldRelocP type = true) :
    (mipsElf32RtypeToHowto type).type = type := by
  revert field
  cases type <;> decide

theorem field_fits (type : MipsReloc) (field : fieldRelocP type = true) :
    let howto := mipsElf32RtypeToHowto type
    howto.rightshift + howto.bitpos + howto.bitsize ≤ 64 := by
  revert field
  cases type <;> decide

theorem field_cases (type : MipsReloc) (field : fieldRelocP type = true) :
    type = .rMips32 ∨ type = .rMips26 ∨ type = .rMipsHi16 ∨ type = .rMipsLo16 ∨ type = .rMipsPc16 ∨
      type = .rMicromipsHi16 ∨ type = .rMicromipsLo16 ∨ type = .rMicromipsPc16S1 := by
  revert field
  cases type <;> decide

theorem operands_plain (inputSection : ElfSection) (rel : InternalRela) (field : fieldRelocP rel.type = true)
    (address addend : BfdVma)
    (t : Target) (plain : PlainTarget link rel address addend t) (saved : Bool) :
    let o := operandsOf link inputSection rel (mipsElf32RtypeToHowto rel.type) saved t
    usesGotOffsetP o.rType = false ∧ o.crossModeJump = false := by
  rcases rel with ⟨offset, type, symndx, ref, own⟩
  rcases plain with ⟨symbol, addend', gpDisp, is16Bit, isMicromips, -, notWeak⟩
  rcases field_cases type field with rfl | rfl | rfl | rfl | rfl | rfl | rfl | rfl <;>
    simp [operandsOf, MipsReloc.gotPageRelocP, usesGotOffsetP, crossModeJumpP, is16Bit, isMicromips]

theorem relocation_value_field (ops : GotOps σ) (inputSection : ElfSection) (rel : InternalRela)
    (field : fieldRelocP rel.type = true)
    (address addend : BfdVma) (t : Target) (plain : PlainTarget link rel address addend t)
    (static : rel.type = .rMips32 → link.shared = false ∧ link.dynamicSectionsCreated = false) (saved : Bool)
    (g : BfdVma) (s : σ) :
    let o := operandsOf link inputSection rel (mipsElf32RtypeToHowto rel.type) saved t
    let r := fieldValue rel.type rel.sym.isLocal (elfTarget link rel.type rel.sym address) addend
      (inputSection.base + rel.offset)
    relocationValue ops link inputSection rel { o with g := g } s = (.value r.1 r.2, s) := by
  rcases rel with ⟨offset, type, symndx, ref, own⟩
  rcases plain with ⟨symbol, addend', gpDisp, is16Bit, isMicromips, -, notWeak⟩
  rcases field_cases type field with rfl | rfl | rfl | rfl | rfl | rfl | rfl | rfl
  · obtain ⟨notShared, notDynamic⟩ := static rfl
    simp [operandsOf, MipsReloc.gotPageRelocP, relocationValue, wordValue, notShared, notDynamic, symbol,
      addend', masked, fieldValue]
  · simp [operandsOf, MipsReloc.gotPageRelocP, relocationValue, jumpValue, crossModeJumpP, is16Bit,
      isMicromips, symbol, addend', fieldValue, notWeak]
  · simp [operandsOf, MipsReloc.gotPageRelocP, relocationValue, hiValue, gpDisp, symbol, addend', masked,
      fieldValue]
  · simp [operandsOf, MipsReloc.gotPageRelocP, relocationValue, loValue, gpDisp, symbol, addend', masked,
      fieldValue]
  · simp [operandsOf, MipsReloc.gotPageRelocP, relocationValue, branchValue, symbol, addend', fieldValue]
  · simp [operandsOf, MipsReloc.gotPageRelocP, relocationValue, hiValue, gpDisp, symbol, addend', masked,
      fieldValue]
  · simp [operandsOf, MipsReloc.gotPageRelocP, relocationValue, loValue, gpDisp, symbol, addend', masked,
      fieldValue]
  · simp [operandsOf, MipsReloc.gotPageRelocP, relocationValue, branchValue, symbol, addend', fieldValue]

/-- Everything that a field relocation needs: a defined symbol, and a link that makes no dynamic
relocation of it. -/
structure FieldRel (link : ElfLink) where
  type : MipsReloc
  offset : BfdVma
  symndx : Nat
  ref : SymRef
  address : BfdVma
  field : fieldRelocP type = true
  defined : DefinedAt ref address
  ordinary : gottRefP link ref = false
  static : type = .rMips32 → link.shared = false ∧ link.dynamicSectionsCreated = false

namespace FieldRel

variable (r : FieldRel link)

def rela (own : BfdVma) : InternalRela := ⟨r.offset, r.type, r.symndx, r.ref, own⟩

@[simp] theorem rela_offset (own : BfdVma) : (r.rela own).offset = r.offset := rfl

def howto : RelocHowto := mipsElf32RtypeToHowto r.type

theorem word : r.howto.WordField := (field_howto _ r.field).1

theorem plainOrder : plainOrderP r.type = true := by
  have plain := (field_howto _ r.field).2.1
  revert plain
  cases r.type <;> exact id

def place (inputSection : ElfSection) : BfdVma := inputSection.base + r.offset

def target : BfdVma := elfTarget link r.type r.ref r.address

def value (inputSection : ElfSection) (x : BfdVma) : BfdVma × Bool :=
  fieldValue r.type r.ref.isLocal r.target (wordAddend (r.rela 0) r.howto x) (r.place inputSection)

def finalWord (inputSection : ElfSection) (x : BfdVma) : BfdVma :=
  let value := (r.value inputSection x).1
  let stored := storeField r.howto value x
  if branchCandidateP link r.type stored then convertToBranch r.type value (r.place inputSection + 4) stored
  else stored

theorem calculate (ops : GotOps σ) (lib : ElfLib) (inputSection : ElfSection) (own addend : BfdVma)
    (reports : List ElfReport) (s : σ) :
    let v := fieldValue r.type r.ref.isLocal r.target addend (r.place inputSection)
    ∃ name, mipsElfCalculateRelocation ops lib link inputSection (r.rela own) addend r.howto false reports s =
      ⟨if v.2 then .overflow else .ok, v.1, name, false, s, none⟩ := by
  obtain ⟨t, found, plain⟩ := resolve_defined lib inputSection (r.rela own) r.address addend r.defined
    r.field reports
  generalize redirected : redirectToStub link inputSection (r.rela own) t = t' at plain
  refine ⟨t'.name, ?_⟩
  have apart : mixedIsaP (r.rela own).type t' = false := by
    simp only [mixedIsaP, plain.is16Bit, plain.isMicromips, Bool.and_false, Bool.or_self]
  have gott : gottSymbolP link t' = false := by
    rw [gottSymbolP, plain.entry]
    exact r.ordinary
  obtain ⟨noGot, cross⟩ := operands_plain inputSection (r.rela own) r.field r.address addend t' plain false
  have value := relocation_value_field ops inputSection (r.rela own) r.field r.address addend t' plain
    r.static false minusOne s
  have howto : mipsElf32RtypeToHowto (r.rela own).type = r.howto := rfl
  rw [howto] at noGot cross value
  dsimp only at value
  simp only [mipsElfCalculateRelocation, found, redirected, apart, Bool.false_eq_true, if_false,
    gotOffset, noGot, Bool.not_false, if_true, gott, value]
  rw [cross]
  rfl

theorem adjust (lib : ElfLib) : ∃ own, mipsElfAdjustAddend lib link (r.rela 0) = r.rela own := by
  rcases ref : r.ref with ⟨sym, sec, stub, callStub⟩ | h
  · simp only [mipsElfAdjustAddend, rela, ref]
    exact ⟨_, rfl⟩
  · exact ⟨0, by simp only [mipsElfAdjustAddend, rela, ref]⟩

theorem store_value (inputSection : ElfSection) (final : link.relocatable = false) (own : BfdVma)
    (s : SectionState σ) (fresh : s.useSavedAddend = false) :
    let x := bfdGet32 link.order s.contents r.offset.toNat
    storeValue link inputSection r.howto (r.rela own) (r.value inputSection x).1 false s = (.true, r.rela own,
      { s with
        contents := bfdPut32 link.order (r.finalWord inputSection x) s.contents r.offset.toNat
        reports := s.reports ++ [] }) := by
  have not64 : (r.rela own).type ≠ .rMips64 := (field_not_64 r.type r.field).1
  have performed := perform_relocation_word link r.howto r.word (r.rela own) r.plainOrder
    (r.value inputSection (bfdGet32 link.order s.contents r.offset.toNat)).1 inputSection s.contents
  dsimp only at performed ⊢
  rw [final, Bool.not_false, Bool.true_and] at performed
  simp only [storeValue, fresh, Bool.false_eq_true, if_false, if_neg not64, performed, if_true, Option.toList]
  rfl

/-- What a final link does with the value: an overflow is reported, and the word is stored unless the
callback refuses. -/
theorem final_step (ops : GotOps σ) (lib : ElfLib) (classes : lib.GpRelativeOnly)
    (inputSection : ElfSection) (final : link.relocatable = false) (own : BfdVma) (s : SectionState σ)
    (addend : s.addend = wordAddend (r.rela 0) r.howto (bfdGet32 link.order s.contents r.offset.toNat)) :
    let x := bfdGet32 link.order s.contents r.offset.toNat
    let turn := finalStep lib link ops inputSection r.howto (r.rela own) none s
    ∃ name,
      turn.2.2.reports = s.reports ++
        (if (r.value inputSection x).2 then [.relocOverflow name r.howto.name r.offset] else []) ∧
      (((r.value inputSection x).2 = false ∨ ∀ past report, link.callback past report = true) →
        turn.1 = .true ∧ turn.2.2.contents =
          bfdPut32 link.order (r.finalWord inputSection x) s.contents r.offset.toNat) := by
  obtain ⟨name, calculated⟩ := r.calculate ops lib inputSection own s.addend s.reports s.got
  have gp := field_not_gp classes r.type r.field
  have howtoType : r.howto.type = r.type := field_type r.type r.field
  rw [Bool.or_eq_false_iff, Bool.or_eq_false_iff] at gp
  have value : fieldValue r.type r.ref.isLocal r.target s.addend (r.place inputSection) =
      r.value inputSection (bfdGet32 link.order s.contents r.offset.toNat) := by
    rw [addend]
    rfl
  rw [value] at calculated
  refine ⟨name, ?_⟩
  simp only [finalStep, Option.any_none, calculated, Option.toList, List.append_nil]
  cases overflowed : (r.value inputSection (bfdGet32 link.order s.contents r.offset.toNat)).2 with
  | false =>
      have stored := r.store_value inputSection final own { s with useSavedAddend := false } rfl
      simp only [Bool.false_eq_true, if_false, List.append_nil] at stored ⊢
      rw [stored]
      exact ⟨rfl, fun _ => ⟨rfl, rfl⟩⟩
  | true =>
      have stored := r.store_value inputSection final own { s with
        useSavedAddend := false
        reports := s.reports ++ [.relocOverflow name r.howto.name r.offset] } rfl
      simp only [if_true, Bool.false_eq_true, if_false, List.append_nil] at stored ⊢
      simp only [reportOverflow, howtoType, gp, Bool.or_self, Bool.and_false, Bool.or_false,
        Bool.false_eq_true, if_false, rela_offset]
      cases accepted : link.callback s.reports (.relocOverflow name r.howto.name r.offset) with
      | false =>
          refine ⟨rfl, ?_⟩
          rintro (never | accepts)
          · cases never
          · cases accepted.symm.trans (accepts _ _)
      | true =>
          dsimp only
          rw [stored]
          exact ⟨rfl, fun _ => ⟨rfl, rfl⟩⟩

end FieldRel

theorem DefinedAt.kept {ref : SymRef} {address : BfdVma} (defined : DefinedAt ref address) :
    ref.sec.any ElfSection.discarded = false := by
  cases defined with
  | «section» sym sec callStub kept => exact kept
  | «local» sym sec callStub kept => exact kept
  | global h sec type inSection kept => simp only [SymRef.sec, type, if_true, inSection, Option.any_some, kept]

theorem FieldRel.relocate_section (r : FieldRel link) (ops : GotOps σ) (lib : ElfLib)
    (classes : lib.GpRelativeOnly) (inputSection : ElfSection) (final : link.relocatable = false) (d : Store)
    (got : σ) (reports : List ElfReport) (small : Bool) :
    let run := bfdMipsElfRelocateSection lib link ops inputSection 1 [r.rela 0] d got reports small
    let x := bfdGet32 link.order d r.offset.toNat
    ∃ name,
      run.2.2.reports = reports ++
        (if (r.value inputSection x).2 then [.relocOverflow name r.howto.name r.offset] else []) ∧
      (((r.value inputSection x).2 = false ∨ ∀ past report, link.callback past report = true) →
        run.1 = .true ∧ run.2.2.contents = bfdPut32 link.order (r.finalWord inputSection x) d r.offset.toNat) := by
  obtain ⟨own, adjusted⟩ := r.adjust lib
  obtain ⟨name, step⟩ := r.final_step ops lib classes inputSection final own ⟨d, got, reports, small,
    wordAddend (r.rela 0) r.howto (bfdGet32 link.order d r.offset.toNat), false⟩ rfl
  have not64 := (field_not_64 r.type r.field).1
  have howto : mipsElf32RtypeToHowto (r.rela 0).type = r.howto := rfl
  refine ⟨name, ?_⟩
  rw [bfdMipsElfRelocateSection, relocate_loop_single, relocate_rel_word (r.rela 0) none
    ⟨d, got, reports, small, 0, false⟩ r.defined.kept not64 r.word r.plainOrder rfl, final,
    if_neg Bool.false_ne_true, adjusted, howto]
  exact step

end Openisa.Elf
