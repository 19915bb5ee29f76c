import Openisa.Elf.Reference
import Openisa.Elf.TurnFrame
import Openisa.Relax.JumpHints

/-! The jumps through a register that become branches when their section is relocated. -/

namespace Openisa.Elf

open Openisa.Bfd
open Openisa.Library
open Openisa.Library.ByteStore
open Openisa.Library.Mips
open Openisa.Relax
open Openisa.Stubs

section Value

theorem found_of_found {a b c d : Prop} [Decidable a] [Decidable b] [Decidable c] [Decidable d] {t : Target}
    {w x y z last last' : Resolved} (stops : last ≠ .found t)
    (found : (if a then w else if b then x else if c then y else if d then z else last) = .found t) :
    (if a then w else if b then x else if c then y else if d then z else last') = .found t := by
  by_cases first : a
  · rw [if_pos first] at found ⊢
    exact found
  · rw [if_neg first] at found ⊢
    by_cases second : b
    · rw [if_pos second] at found ⊢
      exact found
    · rw [if_neg second] at found ⊢
      by_cases third : c
      · rw [if_pos third] at found ⊢
        exact found
      · rw [if_neg third] at found ⊢
        by_cases fourth : d
        · rw [if_pos fourth] at found ⊢
          exact found
        · rw [if_neg fourth] at found
          exact absurd found stops

theorem last_of_stop {a b c d : Prop} [Decidable a] [Decidable b] [Decidable c] [Decidable d] {w x y z : Target}
    {last : Resolved} {status : BfdRelocStatus} {name : String} {report : Option ElfReport}
    (stops : (if a then .found w else if b then .found x else if c then .found y else if d then .found z else last) =
      .stop status name report) : last = .stop status name report := by
  by_cases first : a
  · rw [if_pos first] at stops
    cases stops
  · rw [if_neg first] at stops
    by_cases second : b
    · rw [if_pos second] at stops
      cases stops
    · rw [if_neg second] at stops
      by_cases third : c
      · rw [if_pos third] at stops
        cases stops
      · rw [if_neg third] at stops
        by_cases fourth : d
        · rw [if_pos fourth] at stops
          cases stops
        · rwa [if_neg fourth] at stops

theorem resolve_found {lib : ElfLib} {link : ElfLink} {rel : InternalRela} {addend : BfdVma} {t : Target}
    {reports : List ElfReport} (found : resolveSymbol lib link rel addend reports = .found t) (reports' : List ElfReport) :
    resolveSymbol lib link rel addend reports' = .found t := by
  unfold resolveSymbol at found ⊢
  cases sym : rel.sym with
  | «local» symbol sec stub callStub =>
    rw [sym] at found
    exact found
  | global h =>
    rw [sym] at found
    dsimp only at found ⊢
    unfold resolveGlobal at found ⊢
    dsimp only at found ⊢
    by_cases gpDisp : (h.name == "_gp_disp") = true
    · rw [if_pos gpDisp] at found ⊢
      exact found
    · rw [if_neg gpDisp] at found ⊢
      by_cases localGp : (h.name == "__gnu_local_gp") = true
      · rw [if_pos localGp] at found ⊢
        exact found
      · rw [if_neg localGp] at found ⊢
        cases type : h.type <;> cases sec : h.sec <;> rw [type, sec] at found <;>
          first | exact found | exact found_of_found (fun stop => by cases stop) found

theorem resolve_stop {lib : ElfLib} {link : ElfLink} {rel : InternalRela} {addend : BfdVma} {reports : List ElfReport}
    {status : BfdRelocStatus} {name : String} {report : Option ElfReport}
    (stops : resolveSymbol lib link rel addend reports = .stop status name report) :
    status = .undefined ∨ status = .notsupported := by
  unfold resolveSymbol at stops
  cases sym : rel.sym with
  | «local» symbol sec stub callStub =>
    rw [sym] at stops
    cases stops
  | global h =>
    rw [sym] at stops
    dsimp only at stops
    unfold resolveGlobal at stops
    dsimp only at stops
    by_cases gpDisp : (h.name == "_gp_disp") = true
    · rw [if_pos gpDisp] at stops
      split at stops
      · cases stops
        exact .inr rfl
      · cases stops
    · rw [if_neg gpDisp] at stops
      by_cases localGp : (h.name == "__gnu_local_gp") = true
      · rw [if_pos localGp] at stops
        cases stops
      · rw [if_neg localGp] at stops
        have last : ∀ b : Bool, (if b = true then BfdRelocStatus.undefined else .notsupported) = .undefined ∨
            (if b = true then BfdRelocStatus.undefined else .notsupported) = .notsupported := by decide
        cases type : h.type <;> cases sec : h.sec <;> rw [type, sec] at stops <;>
          first | cases stops | (cases last_of_stop stops; exact last _)

variable (lib : ElfLib) (link : ElfLink) (inputSection : ElfSection)

/-- The address that an `R_MIPS_JALR` relocation stands for; a REL one has no addend. -/
def jalrValue (isRel : Bool) (rel : InternalRela) : Option BfdVma :=
  let addend := if isRel then 0 else rel.addend
  let rel := mipsElfAdjustAddend lib link rel
  match resolveSymbol lib link rel addend [] with
  | .stop .. => none
  | .found t =>
      let t := redirectToStub link inputSection rel t
      some ((if t.gnuLocalGp then link.gp else t.symbol) + t.addend)

variable {lib link inputSection}

theorem relocationValue_jalr {σ : Type} (ops : GotOps σ) {rel : InternalRela} (o : Operands) (type : o.rType = .rMipsJalr)
    {s : σ} {g : BfdVma} : relocationValue ops link inputSection rel { o with g := g } s =
      if o.t.h.any fun h => !h.callsLocal then (.stop .continue, s) else (.value (o.symbol + o.addend) false, s) := by
  unfold relocationValue
  rw [type]

theorem operandsOf_jalr {rel : InternalRela} (type : rel.type = .rMipsJalr) (howto : RelocHowto) (saveAddend : Bool)
    (t : Target) : (operandsOf link inputSection rel howto saveAddend t).symbol +
      (operandsOf link inputSection rel howto saveAddend t).addend =
        (if t.gnuLocalGp then link.gp else t.symbol) + t.addend := by
  simp [operandsOf, type, MipsReloc.gotPageRelocP]

theorem calculate_jalr {σ : Type} (ops : GotOps σ) (inputSection : ElfSection) {rel adjusted : InternalRela} (isRel : Bool)
    (same : mipsElfAdjustAddend lib link rel = adjusted) (type : adjusted.type = .rMipsJalr)
    (plain : link.isVxworks = false) {addend : BfdVma} (own : addend = if isRel then 0 else rel.addend)
    (howto : RelocHowto) (saveAddend : Bool) (reports : List ElfReport) (s : σ) :
    let r := mipsElfCalculateRelocation ops lib link inputSection adjusted addend howto saveAddend reports s
    (r.status = .ok ∧ jalrValue lib link inputSection isRel rel = some r.value) ∨ r.status = .continue ∨
      r.status = .undefined ∨ r.status = .notsupported := by
  unfold mipsElfCalculateRelocation
  cases resolved : resolveSymbol lib link adjusted addend reports with
  | stop status name report =>
    rcases resolve_stop resolved with undefined | refused
    · exact .inr (.inr (.inl undefined))
    · exact .inr (.inr (.inr refused))
  | found t =>
    have value : jalrValue lib link inputSection isRel rel =
        some ((if (redirectToStub link inputSection adjusted t).gnuLocalGp then link.gp
          else (redirectToStub link inputSection adjusted t).symbol) +
            (redirectToStub link inputSection adjusted t).addend) := by
      unfold jalrValue
      rw [same, ← own]
      dsimp only
      rw [resolve_found resolved []]
    dsimp only
    generalize redirectToStub link inputSection adjusted t = u at value ⊢
    split
    · exact .inr (.inr (.inr rfl))
    · have sum : (operandsOf link inputSection adjusted howto saveAddend u).symbol +
          (operandsOf link inputSection adjusted howto saveAddend u).addend =
            (if u.gnuLocalGp then link.gp else u.symbol) + u.addend := operandsOf_jalr type howto saveAddend u
      have rType : (operandsOf link inputSection adjusted howto saveAddend u).rType = .rMipsJalr := by
        simp [operandsOf, type, MipsReloc.gotPageRelocP]
      generalize operandsOf link inputSection adjusted howto saveAddend u = o at sum rType ⊢
      have noOffset : gotOffset ops link o.rType adjusted.symndx u o.symbol o.addend s = (some minusOne, s) := by
        rw [rType]
        rfl
      have noGott : gottSymbolP link u = false := by rw [gottSymbolP, plain, Bool.false_and, Bool.false_and]
      rw [noOffset]
      dsimp only
      rw [noGott, if_neg Bool.false_ne_true, relocationValue_jalr ops o rType]
      by_cases elsewhere : (o.t.h.any fun h => !h.callsLocal) = true
      · rw [if_pos elsewhere]
        exact .inr (.inl rfl)
      · rw [if_neg elsewhere]
        exact .inl ⟨rfl, value.trans (congrArg some sum.symm)⟩

end Value

section Turn

variable {σ : Type} {lib : ElfLib} {link : ElfLink} {ops : GotOps σ} {inputSection : ElfSection} {rel : InternalRela}

def Branched (order : Endian) (address target : Word) (loc : Nat) (d d' : Store) : Prop :=
  d' = d ∨ ∃ i j branch, decode ((bfdGet32 order d loc).setWidth 32) = some i ∧ branch.setWidth 32 = j.encode ∧
    BranchFor address target i j ∧ d' = bfdPut32 order branch d loc

theorem inReach_of_words {value address : BfdVma} (target : value.toNat % 4 = 0) (place : address.toNat % 4 = 0)
    (reach : (value - address).toInt ≤ 0x1ffff ∧ (value - address).toInt ≥ -0x20000) : InReach (value - address) := by
  refine ⟨?_, by omega, by omega⟩
  rw [BitVec.toNat_sub]
  omega

theorem perform_jalr (type : rel.type = .rMipsJalr) {value : BfdVma} (target : value.toNat % 4 = 0)
    (place : (inputSection.base + rel.offset).toNat % 4 = 0) (crossModeJump : Bool) (d : Store) :
    Branched link.order ((inputSection.base + rel.offset).setWidth 32) (value.setWidth 32) rel.offset.toNat d
      (mipsElfPerformRelocation link (mipsElf32RtypeToHowto .rMipsJalr) rel value inputSection d
        crossModeJump).contents := by
  have plain : plainOrderP rel.type = true := by rw [type]; rfl
  have noJump : rel.type.jalRelocP = false := by rw [type]; rfl
  have bare : ∀ x : BfdVma, (x &&& ~~~(0 : BfdVma)) ||| (value &&& 0) = x := by
    intro x
    have low : value &&& 0 = 0 := BitVec.and_zero
    have high : x &&& ~~~(0 : BfdVma) = x := BitVec.and_allOnes
    rw [low, high]
    exact BitVec.or_zero
  have performed : (mipsElfPerformRelocation link (mipsElf32RtypeToHowto .rMipsJalr) rel value inputSection d
      crossModeJump).contents = bfdPut32 link.order
        (if (!link.relocatable && !crossModeJump && branchCandidateP link rel.type (bfdGet32 link.order d rel.offset.toNat))
            = true then
          convertToBranch rel.type value (inputSection.base + rel.offset + 4) (bfdGet32 link.order d rel.offset.toNat)
        else bfdGet32 link.order d rel.offset.toNat) d rel.offset.toNat := by
    have whole : mipsElfObtainContents link.order (mipsElf32RtypeToHowto .rMipsJalr) rel d =
        bfdGet32 link.order d rel.offset.toNat := rfl
    have mask : (mipsElf32RtypeToHowto .rMipsJalr).dstMask = 0 := rfl
    unfold mipsElfPerformRelocation
    simp only [unshuffle_plain _ _ _ _ _ plain, shuffle_plain _ _ _ _ _ plain, noJump, whole, mask, bare,
      Bool.and_false, Bool.false_eq_true, if_false]
    rfl
  rw [performed]
  have kept : Branched link.order ((inputSection.base + rel.offset).setWidth 32) (value.setWidth 32) rel.offset.toNat d
      (bfdPut32 link.order (bfdGet32 link.order d rel.offset.toNat) d rel.offset.toNat) :=
    .inl (bfdPut32_get32 link.order d _)
  split
  · next candidate =>
    unfold convertToBranch
    dsimp only
    rw [if_neg (show ¬rel.type = .rMips26 by rw [type]; decide)]
    split
    · next near =>
      right
      have four : (inputSection.base + rel.offset + 4).toNat % 4 = 0 := by
        rw [BitVec.toNat_add, show (4 : BfdVma).toNat = 4 from rfl]
        omega
      have reach := inReach_of_words target four near
      have leads := branch_leads reach
      have found : bfdGet32 link.order d rel.offset.toNat = 0x0320f809 ∨
          bfdGet32 link.order d rel.offset.toNat = 0x03200008 := by
        simp only [branchCandidateP, type, Bool.and_eq_true, Bool.or_eq_true, beq_iff_eq] at candidate
        rcases candidate.2 with (⟨⟨_, other⟩, _⟩ | ⟨_, jalr⟩) | ⟨_, jr⟩
        · cases other
        · exact .inl jalr
        · exact .inr jr
      rcases found with jalr | jr
      · rw [jalr, if_neg (by decide)]
        exact ⟨.jalr 31 25, _, _, by decide, link_word _, .jalr 25 _ leads, rfl⟩
      · rw [jr, if_pos rfl]
        exact ⟨.jr 25, _, _, by decide, branch_word _, .jr 25 _ leads, rfl⟩
    · exact kept
  · exact kept

theorem relocateRel_jalr (ops : GotOps σ) (final : link.relocatable = false) (plain : link.isVxworks = false)
    (clears : lib.ClearsField) (type : rel.type = .rMipsJalr) (isRel : Bool) {next : Option InternalRela}
    (alone : ∀ n, next = some n → rel.offset ≠ n.offset) {s : SectionState σ} (fresh : s.useSavedAddend = false)
    (place : (inputSection.base + rel.offset).toNat % 4 = 0)
    (targets : ∀ value, jalrValue lib link inputSection isRel rel = some value → value.toNat % 4 = 0) :
    (relocateRel lib link ops inputSection isRel rel next s).2.2.contents = s.contents ∨
      ∃ value, jalrValue lib link inputSection isRel rel = some value ∧
        Branched link.order ((inputSection.base + rel.offset).setWidth 32) (value.setWidth 32) rel.offset.toNat s.contents
          (relocateRel lib link ops inputSection isRel rel next s).2.2.contents := by
  unfold relocateRel
  split
  · left
    funext i
    exact clears rel.type s.contents rel.offset i (.inr (by rw [type]; rfl))
  · rw [working_reloc_word _ _ (by rw [type]; decide), final, type]
    dsimp only
    rw [if_neg Bool.false_ne_true]
    obtain ⟨read, contents, addend⟩ : (readAddend lib link isRel (mipsElf32RtypeToHowto .rMipsJalr) rel s).1 =
        mipsElfAdjustAddend lib link rel ∧
        (readAddend lib link isRel (mipsElf32RtypeToHowto .rMipsJalr) rel s).2.contents = s.contents ∧
        (readAddend lib link isRel (mipsElf32RtypeToHowto .rMipsJalr) rel s).2.addend =
          if isRel then 0 else rel.addend := by
      have order : plainOrderP rel.type = true := by rw [type]; rfl
      have low : addendIsHighP rel = false := by rw [addendIsHighP, type]; rfl
      have mask : (mipsElf32RtypeToHowto .rMipsJalr).srcMask = 0 := rfl
      have zero : ∀ x : BfdVma, x &&& 0 = 0 := fun x => BitVec.and_zero
      unfold readAddend
      rw [fresh, if_neg Bool.false_ne_true]
      cases isRel with
      | true =>
        simp only [mipsElfReadRelAddend, unshuffle_plain _ _ _ _ _ order, shuffle_plain _ _ _ _ _ order, low, mask, zero,
          if_true, Bool.false_eq_true, if_false, true_and]
        rfl
      | false => exact ⟨rfl, rfl, rfl⟩
    generalize readAddend lib link isRel (mipsElf32RtypeToHowto .rMipsJalr) rel s = turn at read contents addend
    obtain ⟨adjusted, u⟩ := turn
    dsimp only at read contents addend ⊢
    obtain ⟨offset, sameType⟩ := adjustAddend_place lib link rel
    rw [← read] at offset sameType
    have jump : adjusted.type = .rMipsJalr := sameType.trans type
    have apart : (next.any fun next => adjusted.offset == next.offset && next.type != .rMipsNone) = false := by
      cases next with
      | none => rfl
      | some n =>
        have other : (adjusted.offset == n.offset) = false := by
          rw [offset]
          exact beq_false_of_ne (alone n rfl)
        rw [Option.any_some, other, Bool.false_and]
    have calculated := calculate_jalr ops inputSection isRel read.symm jump plain addend
      (mipsElf32RtypeToHowto .rMipsJalr) false u.reports u.got
    unfold finalStep
    rw [apart]
    dsimp only at calculated ⊢
    generalize mipsElfCalculateRelocation ops lib link inputSection adjusted u.addend (mipsElf32RtypeToHowto .rMipsJalr)
      false u.reports u.got = r at calculated ⊢
    rcases calculated with ⟨ok, value⟩ | continues | undefined | refused
    · right
      refine ⟨r.value, value, ?_⟩
      rw [ok, ← contents, ← offset]
      have stored : ∀ v : SectionState σ, v.useSavedAddend = false → v.contents = u.contents →
          Branched link.order ((inputSection.base + adjusted.offset).setWidth 32) (r.value.setWidth 32)
            adjusted.offset.toNat u.contents (storeValue link inputSection (mipsElf32RtypeToHowto .rMipsJalr) adjusted
              r.value r.crossModeJump v).2.2.contents := by
        intro v unsaved same
        rw [storeValue, unsaved, if_neg Bool.false_ne_true, if_neg (by rw [jump]; decide), same]
        exact perform_jalr jump (targets r.value value) (offset ▸ place) r.crossModeJump u.contents
      exact stored _ rfl rfl
    · left
      rw [continues]
      exact contents
    · left
      rw [undefined]
      exact contents
    · left
      rw [refused]
      exact contents

theorem storeValue_saved (howto : RelocHowto) (rel : InternalRela) (value : BfdVma) (crossModeJump : Bool)
    (s : SectionState σ) :
    (storeValue link inputSection howto rel value crossModeJump s).2.2.useSavedAddend = s.useSavedAddend := by
  unfold storeValue
  split
  · rfl
  · split
    · rfl
    · rfl

theorem finalStep_saved (howto : RelocHowto) (rel : InternalRela) (next : Option InternalRela) (s : SectionState σ) :
    (finalStep lib link ops inputSection howto rel next s).2.2.useSavedAddend =
      next.any fun next => rel.offset == next.offset && next.type != .rMipsNone := by
  unfold finalStep
  dsimp only
  split
  · rfl
  · rfl
  · rfl
  · split
    · exact storeValue_saved _ _ _ _ _
    · split
      · next reported =>
        rw [storeValue_saved]
        exact (congrArg (fun r => SectionState.useSavedAddend r.2) reported).symm
      · next reported => exact (congrArg (fun r => SectionState.useSavedAddend r.2) reported).symm
  · exact storeValue_saved _ _ _ _ _
  · split
    · rfl
    · rfl
  · rfl

theorem relocateRel_fresh (final : link.relocatable = false) (isRel : Bool) {next : Option InternalRela}
    (alone : ∀ n, next = some n → (workingReloc link.order rel).2.offset ≠ n.offset) {s : SectionState σ}
    (fresh : s.useSavedAddend = false) :
    (relocateRel lib link ops inputSection isRel rel next s).2.2.useSavedAddend = false := by
  unfold relocateRel
  split
  · exact fresh
  · rw [final]
    dsimp only
    rw [if_neg Bool.false_ne_true, finalStep_saved]
    have place : (readAddend lib link isRel (workingReloc link.order rel).1 (workingReloc link.order rel).2 s).1.offset =
        (workingReloc link.order rel).2.offset := by
      unfold readAddend
      rw [fresh, if_neg Bool.false_ne_true]
      exact (adjustAddend_place lib link _).1
    rw [place]
    cases next with
    | none => rfl
    | some n => rw [Option.any_some, beq_false_of_ne (alone n rfl), Bool.false_and]

end Turn

section Loop

variable (lib : ElfLib) (link : ElfLink) (inputSection : ElfSection)

/-- Where the jumps lie that the relocations mark, and where they lead; the first `rels` relocations are REL ones. -/
def hintMarks (rels : Nat) : List InternalRela → Marks
  | [] => []
  | rel :: rest =>
      (if rel.type = .rMipsJalr then
        ((jalrValue lib link inputSection (0 < rels) rel).map fun value =>
          ((inputSection.base + rel.offset).setWidth 32, value.setWidth 32)).toList
      else []) ++ hintMarks (rels - 1) rest

/-- The contents with the jumps that relocations mark as they were. -/
def withJumps (relocs : List InternalRela) (contents contents' : Store) : Store := fun i =>
  if relocs.any fun rel => rel.type = .rMipsJalr && rel.offset.toNat ≤ i && i < rel.offset.toNat + 4 then contents i
  else contents' i

/-- What an assembler makes sure of, and that the marked jumps lead to words. -/
structure HintsFit (rels : Nat) (relocs : List InternalRela) (size : Nat) : Prop where
  apart : relocs.Pairwise FieldsApart
  inside : ∀ rel ∈ relocs, rel.offset.toNat + fieldSize rel.type ≤ size
  words : ∀ rel ∈ relocs, rel.type = .rMipsJalr → rel.offset.toNat % 4 = 0
  targets : ∀ mark ∈ hintMarks lib link inputSection rels relocs, aligned mark.2 = true

theorem withJumps_jump {relocs : List InternalRela} {jump : InternalRela} (member : jump ∈ relocs)
    (type : jump.type = .rMipsJalr) (d d' : Store) :
    ∀ k, jump.offset.toNat ≤ k → k < jump.offset.toNat + 4 → withJumps relocs d d' k = d k := by
  intro k low high
  rw [withJumps, if_pos (List.any_eq_true.mpr ⟨jump, member, by simp [type, low, high]⟩)]

variable {lib link inputSection} {σ : Type} {ops : GotOps σ} {rels size : Nat} {rel : InternalRela}
  {relocs : List InternalRela} {s : SectionState σ}

theorem HintsFit.tail (fit : HintsFit lib link inputSection rels (rel :: relocs) size) :
    HintsFit lib link inputSection (rels - 1) relocs size where
  apart := (List.pairwise_cons.mp fit.apart).2
  inside r member := fit.inside r (List.mem_cons_of_mem _ member)
  words r member := fit.words r (List.mem_cons_of_mem _ member)
  targets mark member := fit.targets mark (List.mem_append_right _ member)

theorem HintsFit.mark (type : rel.type = .rMipsJalr) {value : BfdVma}
    (found : jalrValue lib link inputSection (0 < rels) rel = some value) :
    ((inputSection.base + rel.offset).setWidth 32, value.setWidth 32) ∈
      hintMarks lib link inputSection rels (rel :: relocs) := by
  rw [hintMarks, if_pos type, found]
  exact List.mem_append_left _ List.mem_cons_self

theorem relocateLoop_cases (lib : ElfLib) (link : ElfLink) (ops : GotOps σ) (inputSection : ElfSection) (rels : Nat)
    (rel : InternalRela) (relocs : List InternalRela) (s : SectionState σ) :
    (relocateLoop lib link ops inputSection rels (rel :: relocs) s).2.2 =
        (relocateLoop lib link ops inputSection (rels - 1) relocs
          (relocateRel lib link ops inputSection (0 < rels) rel relocs.head? s).2.2).2.2 ∨
      (relocateLoop lib link ops inputSection rels (rel :: relocs) s).2.2 =
        (relocateRel lib link ops inputSection (0 < rels) rel relocs.head? s).2.2 := by
  rw [relocateLoop]
  generalize relocateRel lib link ops inputSection (0 < rels) rel relocs.head? s = turn
  obtain ⟨outcome, r, t⟩ := turn
  cases outcome with
  | true => exact .inl rfl
  | false => exact .inr rfl
  | abort => exact .inr rfl

theorem relocateLoop_outside (final : link.relocatable = false) (clears : lib.ClearsField) {i : Nat}
    (outside : ∀ rel ∈ relocs, rel.Outside i) (rels : Nat) (s : SectionState σ) :
    (relocateLoop lib link ops inputSection rels relocs s).2.2.contents i = s.contents i := by
  induction relocs generalizing rels s with
  | nil => rfl
  | cons rel relocs ih =>
    rw [List.forall_mem_cons] at outside
    have turn : (relocateRel lib link ops inputSection (0 < rels) rel relocs.head? s).2.2.contents i = s.contents i :=
      relocateRel_outside final clears _ rel _ s outside.1
    rcases relocateLoop_cases lib link ops inputSection rels rel relocs s with goesOn | ends
    · rw [goesOn, ih outside.2, turn]
    · rw [ends, turn]

theorem FieldsApart.word {jump : InternalRela} (apart : FieldsApart rel jump ∨ FieldsApart jump rel) {k : Nat}
    (low : jump.offset.toNat ≤ k) (high : k < jump.offset.toNat + 4) : rel.Outside k := by
  have word := fieldSize_word jump.type
  unfold FieldsApart at apart
  unfold InternalRela.Outside
  omega

theorem HintsFit.alone (fit : HintsFit lib link inputSection rels (rel :: relocs) size) (room : size ≤ 2 ^ 32)
    {n : InternalRela} (next : relocs.head? = some n) : (workingReloc link.order rel).2.offset ≠ n.offset := by
  have apart := (List.pairwise_cons.mp fit.apart).1 n (List.mem_of_mem_head? next)
  have inside := fit.inside rel List.mem_cons_self
  have wordHere := fieldSize_word rel.type
  have wordThere := fieldSize_word n.type
  unfold FieldsApart at apart
  intro same
  have place := congrArg BitVec.toNat same
  unfold workingReloc at place
  by_cases type : rel.type = .rMips64
  · have eight : fieldSize rel.type = 8 := by rw [type]; rfl
    rw [if_pos type] at place
    dsimp only at place
    split at place
    · rw [BitVec.toNat_add, show (4 : BfdVma).toNat = 4 from rfl] at place
      omega
    · omega
  · rw [if_neg type] at place
    dsimp only at place
    omega

theorem HintsFit.aloneJump (fit : HintsFit lib link inputSection rels (rel :: relocs) size)
    {n : InternalRela} (next : relocs.head? = some n) : rel.offset ≠ n.offset := by
  have apart := (List.pairwise_cons.mp fit.apart).1 n (List.mem_of_mem_head? next)
  have wordHere := fieldSize_word rel.type
  have wordThere := fieldSize_word n.type
  unfold FieldsApart at apart
  intro same
  rw [same] at apart
  omega

/-- The word of a jump is as before, or a branch, when the loop ends. -/
def JumpWord (link : ElfLink) (inputSection : ElfSection) (marks : Marks) (rel : InternalRela) (d d' : Store) : Prop :=
  (∀ k, rel.offset.toNat ≤ k → k < rel.offset.toNat + 4 → d' k = d k) ∨ ∃ target i j,
    ((inputSection.base + rel.offset).setWidth 32, target) ∈ marks ∧
      decode ((bfdGet32 link.order d rel.offset.toNat).setWidth 32) = some i ∧
      decode ((bfdGet32 link.order d' rel.offset.toNat).setWidth 32) = some j ∧
      BranchFor ((inputSection.base + rel.offset).setWidth 32) target i j

theorem JumpWord.congr {marks marks' : Marks} {d d' e e' : Store} (word : JumpWord link inputSection marks rel d d')
    (more : ∀ mark ∈ marks, mark ∈ marks') (before : ∀ k, rel.offset.toNat ≤ k → k < rel.offset.toNat + 4 → e k = d k)
    (after : ∀ k, rel.offset.toNat ≤ k → k < rel.offset.toNat + 4 → e' k = d' k) :
    JumpWord link inputSection marks' rel e e' := by
  rcases word with kept | ⟨target, i, j, marked, was, is, branch⟩
  · exact .inl fun k low high => (after k low high).trans ((kept k low high).trans (before k low high).symm)
  · refine .inr ⟨target, i, j, more _ marked, ?_, ?_, branch⟩
    · rw [bfdGet32_congr link.order before, was]
    · rw [bfdGet32_congr link.order after, is]

theorem Branched.jumpWord {marks : Marks} {target : Word} {d d' : Store}
    (marked : ((inputSection.base + rel.offset).setWidth 32, target) ∈ marks)
    (branched : Branched link.order ((inputSection.base + rel.offset).setWidth 32) target rel.offset.toNat d d') :
    JumpWord link inputSection marks rel d d' := by
  rcases branched with rfl | ⟨i, j, branch, was, encoded, becomes, rfl⟩
  · exact .inl fun _ _ _ => rfl
  · exact .inr ⟨target, i, j, marked, was, by rw [bfdPut32_get, encoded, decode_encode], becomes⟩

theorem relocateLoop_jump (final : link.relocatable = false) (plain : link.isVxworks = false) (clears : lib.ClearsField)
    (base : (inputSection.base).toNat % 4 = 0) (room : size ≤ 2 ^ 32)
    (fit : HintsFit lib link inputSection rels relocs size) (fresh : s.useSavedAddend = false) {jump : InternalRela}
    (member : jump ∈ relocs) (type : jump.type = .rMipsJalr) :
    JumpWord link inputSection (hintMarks lib link inputSection rels relocs) jump s.contents
      (relocateLoop lib link ops inputSection rels relocs s).2.2.contents := by
  induction relocs generalizing rels s with
  | nil => cases member
  | cons rel relocs ih =>
    have apart := (List.pairwise_cons.mp fit.apart).1
    have still : (relocateRel lib link ops inputSection (0 < rels) rel relocs.head? s).2.2.useSavedAddend = false :=
      relocateRel_fresh final _ (fun n next => fit.alone room next) fresh
    rcases List.mem_cons.mp member with rfl | later
    · have turn : JumpWord link inputSection (hintMarks lib link inputSection rels (jump :: relocs)) jump s.contents
          (relocateRel lib link ops inputSection (0 < rels) jump relocs.head? s).2.2.contents := by
        have place : (inputSection.base + jump.offset).toNat % 4 = 0 := by
          have word := fit.words jump member type
          rw [BitVec.toNat_add]
          omega
        have targets : ∀ value, jalrValue lib link inputSection (0 < rels) jump = some value → value.toNat % 4 = 0 := by
          intro value found
          have target := fit.targets _ (HintsFit.mark type found)
          simp only [aligned, decide_eq_true_eq, BitVec.toNat_setWidth] at target
          omega
        rcases relocateRel_jalr ops final plain clears type (0 < rels) (fun n next => fit.aloneJump next) fresh
          place targets with same | ⟨value, found, branched⟩
        · rw [same]
          exact .inl fun _ _ _ => rfl
        · exact branched.jumpWord (HintsFit.mark type found)
      rcases relocateLoop_cases lib link ops inputSection rels jump relocs s with goesOn | ends
      · rw [goesOn]
        refine turn.congr (fun _ marked => marked) (fun _ _ _ => rfl) fun k low high => ?_
        exact relocateLoop_outside final clears (fun r there => FieldsApart.word (.inr (apart r there)) low high) _ _
      · rw [ends]
        exact turn
    · have kept : ∀ k, jump.offset.toNat ≤ k → k < jump.offset.toNat + 4 →
          (relocateRel lib link ops inputSection (0 < rels) rel relocs.head? s).2.2.contents k = s.contents k :=
        fun k low high => relocateRel_outside final clears _ rel _ s (FieldsApart.word (.inl (apart jump later)) low high)
      rcases relocateLoop_cases lib link ops inputSection rels rel relocs s with goesOn | ends
      · rw [goesOn]
        exact (ih fit.tail still later).congr (fun _ marked => List.mem_append_right _ marked)
          (fun k low high => (kept k low high).symm) fun _ _ _ => rfl
      · rw [ends]
        exact .inl kept

/-- A word of the linked section is as it would be with the jumps left alone, or a marked jump that became a branch. -/
theorem relocated_hinted (final : link.relocatable = false) (plain : link.isVxworks = false) (clears : lib.ClearsField)
    (base : aligned (inputSection.base.setWidth 32) = true) (room : size ≤ 2 ^ 32)
    (fit : HintsFit lib link inputSection rels relocs size) (fresh : s.useSavedAddend = false) {offset : Nat}
    (word : offset % 4 = 0) : HintedWord link.order (inputSection.base.setWidth 32) size
      (hintMarks lib link inputSection rels relocs)
      (withJumps relocs s.contents (relocateLoop lib link ops inputSection rels relocs s).2.2.contents)
      (relocateLoop lib link ops inputSection rels relocs s).2.2.contents offset := by
  have words : inputSection.base.toNat % 4 = 0 := by
    simp only [aligned, decide_eq_true_eq, BitVec.toNat_setWidth] at base
    omega
  by_cases jumps : ∃ jump ∈ relocs, jump.type = .rMipsJalr ∧ jump.offset.toNat = offset
  · obtain ⟨jump, member, type, rfl⟩ := jumps
    have done : JumpWord link inputSection (hintMarks lib link inputSection rels relocs) jump
        (withJumps relocs s.contents (relocateLoop lib link ops inputSection rels relocs s).2.2.contents)
        (relocateLoop lib link ops inputSection rels relocs s).2.2.contents :=
      (relocateLoop_jump final plain clears words room fit fresh member type).congr (fun _ marked => marked)
        (withJumps_jump member type _ _) fun _ _ _ => rfl
    rw [JumpWord, place_word] at done
    have inside := fit.inside jump member
    have wide := fieldSize_word jump.type
    rcases done with kept | changed
    · exact .inl kept
    · exact .inr ⟨by omega, changed⟩
  · refine .inl fun k low high => ?_
    have other : ¬(relocs.any fun rel => rel.type = .rMipsJalr && rel.offset.toNat ≤ k && k < rel.offset.toNat + 4) =
        true := by
      intro found
      obtain ⟨jump, member, covers⟩ := List.any_eq_true.mp found
      simp only [Bool.and_eq_true, decide_eq_true_eq] at covers
      have place := fit.words jump member covers.1.1
      exact jumps ⟨jump, member, covers.1.1, by omega⟩
    rw [withJumps, if_neg other]

end Loop

section Run

variable {σ : Type} {lib : ElfLib} {link : ElfLink} {inputSection : ElfSection} {rels size : Nat}
  {relocs : List InternalRela}

/-- A linked section runs as it would with its marked jumps left alone, whatever its other instructions do, as long as the
registers of the jumps hold what the relocations say. -/
theorem hinted_jumps_run (ops : GotOps σ) (final : link.relocatable = false) (plain : link.isVxworks = false)
    (clears : lib.ClearsField) (place : aligned (inputSection.base.setWidth 32) = true)
    (room : (inputSection.base.setWidth 32).toNat + size ≤ 2 ^ 32)
    (fit : HintsFit lib link inputSection rels relocs size) (contents : Store) (got : σ) (reports : List ElfReport)
    (smallDataReported : Bool) (rest : Store) (others : Others) (interlocks : Bool) (n : Nat) (s : State) :
    let linked := (bfdMipsElfRelocateSection lib link ops inputSection rels relocs contents got reports
      smallDataReported).2.2.contents
    let unhinted := loadSection (inputSection.base.setWidth 32) size (withJumps relocs contents linked) rest
    (∀ k < n, ∀ s' mem, runAny link.order others interlocks k (s, unhinted) = some (s', mem) →
      Promised link.order (hintMarks lib link inputSection rels relocs) others s' mem) →
      Option.Rel (Alike link.order (hintMarks lib link inputSection rels relocs))
        (runAny link.order others interlocks n (s, unhinted))
        (runAny link.order others interlocks n
          (s, loadSection (inputSection.base.setWidth 32) size linked rest)) := by
  intro linked unhinted promised
  have hinted : ∀ offset, offset % 4 = 0 → HintedWord link.order (inputSection.base.setWidth 32) size
      (hintMarks lib link inputSection rels relocs) (withJumps relocs contents linked) linked offset := fun offset word =>
    relocated_hinted (s := ⟨contents, got, reports, smallDataReported, 0, false⟩) final plain clears place (by omega) fit rfl
      word
  exact (hinted_section place room hinted rest).run n s promised

def sampleJump : InternalRela := ⟨0, .rMipsJalr, 1, .local sectionSym (keptSection 0x400000 0) none none, 0x10⟩

theorem reference_clears_field : referenceElfLib.ClearsField := fun _ _ _ _ _ => rfl

def sampleLinked : Store := (bfdMipsElfRelocateSection referenceElfLib (staticLink .big false) noGot
  (keptSection 0x400000 0) 0 [sampleJump] sampleCaller () [] false).2.2.contents

theorem sampleJump_marks :
    hintMarks referenceElfLib (staticLink .big false) (keptSection 0x400000 0) 0 [sampleJump] = [(0x400000, 0x400010)] := by
  decide

theorem sampleJump_fits : HintsFit referenceElfLib (staticLink .big false) (keptSection 0x400000 0) 0 [sampleJump] 32 where
  apart := List.pairwise_singleton _ _
  inside := by decide
  words := by decide
  targets := by
    rw [sampleJump_marks]
    exact List.forall_mem_singleton.mpr (by decide)

theorem sampleJump_kept : decode (readWord .big
    (loadSection 0x400000 32 (withJumps [sampleJump] sampleCaller sampleLinked) fun _ => 0) 0x400000) =
      some (.jalr 31 25) := by
  have loaded : Loaded (loadSection 0x400000 32 (withJumps [sampleJump] sampleCaller sampleLinked) fun _ => 0) 0x400000 32
      (withJumps [sampleJump] sampleCaller sampleLinked) := loadSection_loaded (by decide) _ _
  have kept := withJumps_jump (List.mem_singleton_self sampleJump) rfl sampleCaller sampleLinked
  have word : readWord .big _ (0x400000 + BitVec.ofNat 32 sampleJump.offset.toNat) = _ := loaded.readWord (by decide)
  rw [bfdGet32_congr .big kept] at word
  exact (congrArg decode word).trans (by decide)

theorem hinted_jumps_run_call :
    bfdGet32 .big sampleLinked 0 = 0x04110003 ∧
      Option.Rel (Alike .big (hintMarks referenceElfLib (staticLink .big false) (keptSection 0x400000 0) 0 [sampleJump]))
        (runAny .big storeWord true 1
          (sampleEntered, loadSection 0x400000 32 (withJumps [sampleJump] sampleCaller sampleLinked) fun _ => 0))
        (runAny .big storeWord true 1 (sampleEntered, loadSection 0x400000 32 sampleLinked fun _ => 0)) :=
  ⟨by decide, hinted_jumps_run noGot rfl rfl reference_clears_field (by decide) (by decide) sampleJump_fits
    sampleCaller () [] false (fun _ => 0) storeWord true 1 sampleEntered fun k below s' mem reached => by
      have zero : k = 0 := by omega
      subst zero
      cases reached
      rw [sampleJump_marks]
      exact sampleEntered_promised sampleJump_kept⟩

end Run

end Openisa.Elf
