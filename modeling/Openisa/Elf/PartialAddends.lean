import Openisa.Elf.Reference
import Openisa.Elf.FinalWord
import Openisa.Bfd.HiLoPair

/-! What a partial link on the ELF path leaves in the fields of relocations against section symbols. -/

namespace Openisa.Elf

open Openisa.Bfd
open Openisa.Library
open Openisa.Library.ByteStore

/-- A REL relocation of a word field against the symbol of a section that is kept. -/
structure SectionRel where
  type : MipsReloc
  offset : BfdVma
  symndx : Nat
  sym : ElfSym
  sec : ElfSection
  stub : Option ElfSection
  callStub : Option ElfSection
  field : fieldRelocP type = true
  isSection : sym.isSection = true
  kept : sec.discarded = false
  aligned : sec.outputOffset.toNat % 4 = 0

namespace SectionRel

variable (r : SectionRel)

def rela : InternalRela := ⟨r.offset, r.type, r.symndx, .local r.sym r.sec r.stub r.callStub, 0⟩

def howto : RelocHowto := mipsElf32RtypeToHowto r.type

def adjusted : InternalRela := { r.rela with addend := r.sec.outputOffset }

/-- The word that the partial link leaves in the place of `x`. -/
def partialWord (x : BfdVma) : BfdVma :=
  if r.sec.outputOffset = 0 then x
  else storeField r.howto (adjustedField r.howto r.adjusted (wordAddend r.rela r.howto x)) x

theorem word : r.howto.WordField := (field_howto _ r.field).1

theorem plain : plainOrderP r.type = true := by
  have plain := (field_howto _ r.field).2.1
  revert plain
  cases r.type <;> exact id

end SectionRel

theorem field_high (type : MipsReloc) (field : fieldRelocP type = true) (high : type.hi16RelocP = true) :
    (mipsElf32RtypeToHowto type).bitpos = 0 ∧ 16 ≤ (mipsElf32RtypeToHowto type).bitsize := by
  revert field high
  cases type <;> decide

variable {σ : Type} {lib : ElfLib} {link : ElfLink} {ops : GotOps σ} {inputSection : ElfSection}

theorem SectionRel.partialWord_lt (r : SectionRel) (x : BfdVma) (short : x.toNat < 2 ^ 32) :
    (r.partialWord x).toNat < 2 ^ 32 := by
  rw [SectionRel.partialWord]
  split
  · exact short
  · exact store_field_lt _ r.word _ _ short

theorem relocate_rel_partial (ops : GotOps σ) (inputSection : ElfSection)
    (isPartial : link.relocatable = true) (classes : lib.GpRelativeOnly)
    (r : SectionRel) (next : Option InternalRela) (s : SectionState σ) (fresh : s.useSavedAddend = false) :
    let turn := relocateRel lib link ops inputSection true r.rela next s
    turn.1 = .true ∧ turn.2.2.useSavedAddend = false ∧
      turn.2.2.contents = bfdPut32 link.order
        (r.partialWord (bfdGet32 link.order s.contents r.offset.toNat)) s.contents r.offset.toNat := by
  have not64 := (field_not_64 r.type r.field).1
  have gp := field_not_gp classes r.type r.field
  have discarded : (r.rela.sym.sec.any ElfSection.discarded) = false := by
    simp only [SectionRel.rela, SymRef.sec, Option.any_some, r.kept]
  have adjusted : mipsElfAdjustAddend lib link r.rela = r.adjusted := by
    simp only [mipsElfAdjustAddend, SectionRel.adjusted, SectionRel.rela, gp, isPartial, r.isSection,
      if_true, Bool.false_eq_true, if_false]
    rw [show (0 : BfdVma) + r.sec.outputOffset = r.sec.outputOffset from BitVec.zero_add _]
  have howto : mipsElf32RtypeToHowto r.rela.type = r.howto := rfl
  dsimp only
  rw [relocate_rel_word r.rela next s discarded not64 r.word r.plain fresh, isPartial, if_pos rfl, adjusted,
    howto, SectionRel.partialWord]
  by_cases zero : r.sec.outputOffset = 0
  · rw [if_pos zero, relocatable_step_zero r.adjusted r.howto not64 zero, bfdPut32_get32]
    exact ⟨rfl, fresh, rfl⟩
  · rw [if_neg zero, relocatable_step_word isPartial r.adjusted r.howto r.word r.plain not64 zero]
    exact ⟨rfl, fresh, rfl⟩

def partialContents (order : Endian) (rs : List SectionRel) (d : Store) : Store :=
  rs.foldl (fun d r => bfdPut32 order (r.partialWord (bfdGet32 order d r.offset.toNat)) d r.offset.toNat) d

theorem relocate_loop_partial (ops : GotOps σ) (inputSection : ElfSection)
    (isPartial : link.relocatable = true) (classes : lib.GpRelativeOnly)
    (rs : List SectionRel) (s : SectionState σ) (fresh : s.useSavedAddend = false) :
    let run := relocateLoop lib link ops inputSection rs.length (rs.map SectionRel.rela) s
    run.1 = .true ∧ run.2.2.contents = partialContents link.order rs s.contents := by
  induction rs generalizing s with
  | nil => exact ⟨rfl, rfl⟩
  | cons r rest ih =>
      have turn := relocate_rel_partial ops inputSection isPartial classes r
        (rest.map SectionRel.rela).head? s fresh
      generalize outcome : relocateRel lib link ops inputSection true r.rela
        (rest.map SectionRel.rela).head? s = result at turn
      obtain ⟨status, rel, s'⟩ := result
      obtain ⟨rfl, fresh', contents⟩ := turn
      have later := ih s' fresh'
      simp only [List.length_cons, List.map_cons, relocateLoop, Nat.zero_lt_succ, decide_true, outcome,
        Nat.add_sub_cancel]
      rw [partialContents, List.foldl_cons, ← contents]
      exact later

/-- Two relocations of disjoint words. -/
def Apart (a b : SectionRel) : Prop :=
  a.offset.toNat + 4 ≤ b.offset.toNat ∨ b.offset.toNat + 4 ≤ a.offset.toNat

theorem partial_contents_apart (order : Endian) (loc : Nat) (rs : List SectionRel)
    (apart : ∀ r ∈ rs, loc + 4 ≤ r.offset.toNat ∨ r.offset.toNat + 4 ≤ loc) (d : Store) :
    bfdGet32 order (partialContents order rs d) loc = bfdGet32 order d loc := by
  induction rs generalizing d with
  | nil => rfl
  | cons r rest ih =>
      rw [partialContents, List.foldl_cons]
      refine (ih (fun later member => apart later (List.mem_cons_of_mem _ member)) _).trans ?_
      exact bfdGet32_put32_disjoint order _ d _ _ (apart r (List.mem_cons_self ..))

theorem partial_contents_word (order : Endian) (rs : List SectionRel) (apart : rs.Pairwise Apart)
    (r : SectionRel) (member : r ∈ rs) (d : Store) :
    bfdGet32 order (partialContents order rs d) r.offset.toNat =
      r.partialWord (bfdGet32 order d r.offset.toNat) := by
  induction rs generalizing d with
  | nil => cases member
  | cons first rest ih =>
      obtain ⟨others, pairs⟩ := List.pairwise_cons.mp apart
      rw [partialContents, List.foldl_cons]
      rcases List.mem_cons.mp member with rfl | later
      · refine (partial_contents_apart order _ rest others _).trans ?_
        exact bfdGet32_put32 order _ d _ (r.partialWord_lt _ (bfdGet32_lt order d _))
      · refine (ih pairs later _).trans ?_
        rw [bfdGet32_put32_disjoint order _ d _ _ (others r later).symm]

theorem adjusted_field_low (howto : RelocHowto) (word : howto.WordField) (rel adjusted : InternalRela)
    (low : addendIsHighP rel = false ∧ (adjusted.type.hi16RelocP || adjusted.type.got16RelocP) = false)
    (whole : adjusted.type ≠ .rMipsHigher ∧ adjusted.type ≠ .rMipsHighest)
    (fits : howto.rightshift + howto.bitpos + howto.bitsize ≤ 64) (x : BfdVma) :
    ((adjustedField howto adjusted (wordAddend rel howto x)).extractLsb' howto.bitpos howto.bitsize).toNat =
      ((x.extractLsb' howto.bitpos howto.bitsize).toNat +
        adjusted.addend.toNat / 2 ^ (howto.rightshift + howto.bitpos)) % 2 ^ howto.bitsize := by
  have fits' : howto.bitpos + howto.bitsize ≤ 64 := by omega
  have under : ∀ v : BfdVma, (v &&& howto.srcMask).extractLsb' howto.bitpos howto.bitsize =
      v.extractLsb' howto.bitpos howto.bitsize := by
    intro v
    rw [word.src]
    exact BitField.field_and_mask _ _ fits' v
  simp only [adjustedField, wordAddend, low, whole, if_false, Bool.false_eq_true, under]
  rw [BitField.toNat_field, BitVec.toNat_ushiftRight, BitVec.toNat_add, BitVec.toNat_shiftLeft,
    BitField.and_mask_toNat _ _ fits', Nat.shiftRight_eq_div_pow, Nat.shiftLeft_eq, Nat.mod_add_mod,
    Nat.div_div_eq_div_mul, ← Nat.pow_add, SplitSum.mod_pow_div_mod _ _ _ fits, Nat.mul_assoc,
    ← Nat.pow_add, Nat.add_comm howto.bitpos, Nat.add_comm, Nat.add_mul_div_right _ _ (Nat.two_pow_pos _),
    Nat.add_comm]

theorem adjusted_field_high (howto : RelocHowto) (word : howto.WordField) (rel adjusted : InternalRela)
    (high : addendIsHighP rel = true ∧ adjusted.type.hi16RelocP = true)
    (start : howto.bitpos = 0) (wide : 16 ≤ howto.bitsize) (x : BfdVma) :
    ((adjustedField howto adjusted (wordAddend rel howto x)).extractLsb' howto.bitpos howto.bitsize).toNat =
      ((x.extractLsb' howto.bitpos howto.bitsize).toNat + adjusted.addend.toNat + 2 ^ 15) / 2 ^ 16 %
        2 ^ 16 := by
  have fits' : howto.bitpos + howto.bitsize ≤ 64 := le_trans word.fits (by decide)
  have under : ∀ v : BfdVma, (v &&& howto.srcMask).extractLsb' howto.bitpos howto.bitsize =
      v.extractLsb' howto.bitpos howto.bitsize := by
    intro v
    rw [word.src]
    exact BitField.field_and_mask _ _ fits' v
  simp only [adjustedField, wordAddend, high, Bool.true_or, if_true, under]
  rw [BitField.toNat_field, mips_elf_high_toNat, BitVec.toNat_add, BitField.and_mask_toNat _ _ fits', start]
  have inner := fun y => SplitSum.mod_pow_div_mod 64 16 16 (by decide) y
  have below := Nat.mod_lt (((x.extractLsb' 0 howto.bitsize).toNat + adjusted.addend.toNat + 2 ^ 15) / 2 ^ 16)
    (Nat.two_pow_pos 16)
  rw [Nat.pow_zero, Nat.mul_one, Nat.div_one, ← inner, Nat.mod_add_mod, inner,
    Nat.mod_eq_of_lt (lt_of_lt_of_le below (Nat.pow_le_pow_right (by decide) wide))]

namespace SectionRel

variable (r : SectionRel)

def fieldIn (order : Endian) (d : Store) : Nat := wordField order r.howto d r.offset.toNat

theorem fieldIn_lt (order : Endian) (d : Store) : r.fieldIn order d < 2 ^ r.howto.bitsize :=
  wordField_lt order r.howto d r.offset.toNat

/-- The word of the relocation is the one that a partial link leaves. -/
def Rewritten (order : Endian) (d d' : Store) : Prop :=
  bfdGet32 order d' r.offset.toNat = r.partialWord (bfdGet32 order d r.offset.toNat)

variable {r} {order : Endian} {d d' : Store}

theorem Rewritten.outside (rewritten : r.Rewritten order d d') :
    bfdGet32 order d' r.offset.toNat &&& ~~~r.howto.dstMask =
      bfdGet32 order d r.offset.toNat &&& ~~~r.howto.dstMask := by
  rw [rewritten, partialWord]
  split
  · rfl
  · exact store_field_outside _ r.word _ _

theorem Rewritten.fieldIn_low (rewritten : r.Rewritten order d d') (low : r.type.hi16RelocP = false) :
    r.fieldIn order d' = (r.fieldIn order d +
      r.sec.outputOffset.toNat / 2 ^ (r.howto.rightshift + r.howto.bitpos)) % 2 ^ r.howto.bitsize := by
  obtain ⟨-, notGot, notHigher, notHighest⟩ := field_not_64 r.type r.field
  rw [fieldIn, wordField, rewritten, partialWord]
  split
  · rename_i zero
    have short := r.fieldIn_lt order d
    have stays : r.sec.outputOffset.toNat = 0 := congrArg BitVec.toNat zero
    rw [stays, Nat.zero_div, Nat.add_zero]
    exact (Nat.mod_eq_of_lt short).symm
  · rw [store_field_field _ r.word]
    apply adjusted_field_low _ r.word
    · simp only [addendIsHighP, adjusted, rela, low, notGot, Bool.false_and, Bool.or_false, and_self]
    · exact ⟨notHigher, notHighest⟩
    · exact field_fits r.type r.field

theorem Rewritten.fieldIn_high (rewritten : r.Rewritten order d d') (high : r.type.hi16RelocP = true)
    (moves : r.sec.outputOffset ≠ 0) :
    r.fieldIn order d' =
      (r.fieldIn order d + r.sec.outputOffset.toNat + 2 ^ 15) / 2 ^ 16 % 2 ^ 16 := by
  have layout := field_high r.type r.field high
  rw [fieldIn, wordField, rewritten, partialWord, if_neg moves, store_field_field _ r.word]
  apply adjusted_field_high _ r.word
  · simp only [addendIsHighP, adjusted, rela, high, Bool.true_or, and_self]
  · exact layout.1
  · exact layout.2

/-- The relocation encodes the old addend and the output offset, and the rest of its word stays. -/
structure KeepsAddend (r : SectionRel) (order : Endian) (d d' : Store) : Prop where
  addend : r.fieldIn order d' * 2 ^ r.howto.rightshift % 2 ^ (r.howto.rightshift + r.howto.bitsize) =
    (r.fieldIn order d * 2 ^ r.howto.rightshift + r.sec.outputOffset.toNat) %
      2 ^ (r.howto.rightshift + r.howto.bitsize)
  outside : bfdGet32 order d' r.offset.toNat &&& ~~~r.howto.dstMask =
    bfdGet32 order d r.offset.toNat &&& ~~~r.howto.dstMask

theorem Rewritten.keeps_addend_iff (rewritten : r.Rewritten order d d') (low : r.type.hi16RelocP = false)
    (whole : r.sec.outputOffset.toNat % 2 ^ r.howto.rightshift = 0) :
    r.KeepsAddend order d d' ↔
      r.sec.outputOffset.toNat / 2 ^ (r.howto.rightshift + r.howto.bitpos) % 2 ^ r.howto.bitsize =
        r.sec.outputOffset.toNat / 2 ^ r.howto.rightshift % 2 ^ r.howto.bitsize := by
  have target : r.fieldIn order d * 2 ^ r.howto.rightshift + r.sec.outputOffset.toNat =
      (r.fieldIn order d + r.sec.outputOffset.toNat / 2 ^ r.howto.rightshift) * 2 ^ r.howto.rightshift := by
    rw [Nat.add_mul, Nat.div_mul_cancel (Nat.dvd_of_mod_eq_zero whole)]
  have range : 2 ^ (r.howto.rightshift + r.howto.bitsize) = 2 ^ r.howto.bitsize * 2 ^ r.howto.rightshift := by
    rw [Nat.pow_add, Nat.mul_comm]
  have law : r.fieldIn order d' * 2 ^ r.howto.rightshift % 2 ^ (r.howto.rightshift + r.howto.bitsize) =
      (r.fieldIn order d * 2 ^ r.howto.rightshift + r.sec.outputOffset.toNat) %
        2 ^ (r.howto.rightshift + r.howto.bitsize) ↔
      r.sec.outputOffset.toNat / 2 ^ (r.howto.rightshift + r.howto.bitpos) ≡
        r.sec.outputOffset.toNat / 2 ^ r.howto.rightshift [MOD 2 ^ r.howto.bitsize] := by
    rw [target, range, Nat.mul_mod_mul_right, Nat.mul_mod_mul_right, rewritten.fieldIn_low low, Nat.mod_mod,
      Nat.mul_left_inj (Nat.two_pow_pos _).ne']
    exact ⟨Nat.ModEq.add_left_cancel' _, Nat.ModEq.add_left _⟩
  exact ⟨fun keeps => law.mp keeps.addend, fun same => ⟨law.mpr same, rewritten.outside⟩⟩

end SectionRel

structure SectionPair where
  pair : HiLoPair
  hi : SectionRel
  lo : SectionRel
  isHi : hi.type = pair.hi
  isLo : lo.type = pair.lo
  oneSection : lo.sec = hi.sec

namespace SectionPair

variable (p : SectionPair)

def offset : Nat := p.hi.sec.outputOffset.toNat

def joined (order : Endian) (d : Store) : Nat :=
  p.hi.fieldIn order d <<< p.pair.shift ||| p.lo.fieldIn order d

structure KeepsAddend (order : Endian) (d d' : Store) : Prop where
  addend : p.joined order d' = (p.joined order d + p.offset) % 2 ^ 32
  hiOutside : bfdGet32 order d' p.hi.offset.toNat &&& ~~~p.hi.howto.dstMask =
    bfdGet32 order d p.hi.offset.toNat &&& ~~~p.hi.howto.dstMask
  loOutside : bfdGet32 order d' p.lo.offset.toNat &&& ~~~p.lo.howto.dstMask =
    bfdGet32 order d p.lo.offset.toNat &&& ~~~p.lo.howto.dstMask

theorem loField_lt (order : Endian) (d : Store) : p.lo.fieldIn order d < 2 ^ p.pair.shift := by
  have below := p.lo.fieldIn_lt order d
  rw [SectionRel.howto, p.isLo, p.pair.lo_layout.2.1] at below
  exact below

theorem hiField_lt (order : Endian) (d : Store) : p.hi.fieldIn order d < 2 ^ (32 - p.pair.shift) := by
  have below := p.hi.fieldIn_lt order d
  rw [SectionRel.howto, p.isHi, p.pair.hi_layout.2.1] at below
  exact below

theorem joined_eq (order : Endian) (d : Store) :
    p.joined order d = p.hi.fieldIn order d * 2 ^ p.pair.shift + p.lo.fieldIn order d := by
  rw [joined, ← Nat.shiftLeft_eq]
  exact (Nat.shiftLeft_add_eq_or_of_lt (p.loField_lt order d) _).symm

theorem addend_iff (order : Endian) (d d' : Store) :
    p.joined order d' = (p.joined order d + p.offset) % 2 ^ 32 ↔
      p.hi.fieldIn order d' =
          (p.hi.fieldIn order d + (p.lo.fieldIn order d + p.offset) / 2 ^ p.pair.shift) %
            2 ^ (32 - p.pair.shift) ∧
        p.lo.fieldIn order d' = (p.lo.fieldIn order d + p.offset) % 2 ^ p.pair.shift := by
  have pos := Nat.two_pow_pos p.pair.shift
  have quotient : (p.hi.fieldIn order d * 2 ^ p.pair.shift + p.lo.fieldIn order d + p.offset) /
      2 ^ p.pair.shift =
        p.hi.fieldIn order d + (p.lo.fieldIn order d + p.offset) / 2 ^ p.pair.shift := by
    rw [Nat.add_assoc, Nat.mul_comm, Nat.mul_add_div pos]
  have rest : (p.hi.fieldIn order d * 2 ^ p.pair.shift + p.lo.fieldIn order d + p.offset) %
      2 ^ p.pair.shift = (p.lo.fieldIn order d + p.offset) % 2 ^ p.pair.shift := by
    rw [Nat.add_assoc, Nat.mul_comm, Nat.mul_add_mod]
  rw [p.joined_eq, p.joined_eq, ← p.pair.shift_high, ← SplitSum.join_mod, quotient, rest]
  exact SplitSum.join_eq_iff _ _ _ _ (p.loField_lt order d') (Nat.mod_lt _ pos)

end SectionPair

/-- When the pair with the fields `h` and `l` keeps its addend under the offset `o`: the low part of the
offset must be the same with and without the position of its field, and rounding at 16 bits must agree
with the split of the pair. -/
def PairKept (pair : HiLoPair) (h l o : Nat) : Prop :=
  o = 0 ∨ (o / 2 ^ (mipsElf32RtypeToHowto pair.lo).bitpos % 2 ^ pair.shift = o % 2 ^ pair.shift ∧
    (h + o + 2 ^ 15) / 2 ^ 16 % 2 ^ 16 = (h + (l + o) / 2 ^ pair.shift) % 2 ^ (32 - pair.shift))

instance (pair : HiLoPair) (h l o : Nat) : Decidable (PairKept pair h l o) :=
  inferInstanceAs (Decidable (_ ∨ _ ∧ _))

theorem SectionPair.keeps_addend_iff (p : SectionPair) {order : Endian} {d d' : Store}
    (hi : p.hi.Rewritten order d d') (lo : p.lo.Rewritten order d d') :
    p.KeepsAddend order d d' ↔ PairKept p.pair (p.hi.fieldIn order d) (p.lo.fieldIn order d) p.offset := by
  have isHigh : p.hi.type.hi16RelocP = true := by
    rw [p.isHi]
    cases p.pair <;> rfl
  have isLow : p.lo.type.hi16RelocP = false := by
    rw [p.isLo]
    cases p.pair <;> rfl
  have loField : p.lo.fieldIn order d' = (p.lo.fieldIn order d + p.offset /
      2 ^ (mipsElf32RtypeToHowto p.pair.lo).bitpos) % 2 ^ p.pair.shift := by
    have field := lo.fieldIn_low isLow
    rw [SectionRel.howto, p.isLo, p.pair.lo_layout.1, p.pair.lo_layout.2.1, p.oneSection,
      Nat.zero_add] at field
    exact field
  have split : p.KeepsAddend order d d' ↔ p.joined order d' = (p.joined order d + p.offset) % 2 ^ 32 :=
    ⟨fun keeps => keeps.addend, fun addend => ⟨addend, hi.outside, lo.outside⟩⟩
  rw [split, p.addend_iff, PairKept]
  by_cases zero : p.offset = 0
  · have stays : p.hi.sec.outputOffset = 0 := BitVec.eq_of_toNat_eq zero
    have hiField : p.hi.fieldIn order d' = p.hi.fieldIn order d := by
      rw [SectionRel.fieldIn, wordField, hi, SectionRel.partialWord, if_pos stays]
      rfl
    have carry := Nat.div_eq_of_lt (p.loField_lt order d)
    rw [hiField, loField, zero, Nat.zero_div, Nat.add_zero, carry, Nat.add_zero,
      Nat.mod_eq_of_lt (p.hiField_lt order d)]
    simp only [and_self, true_or]
  · have moves : p.hi.sec.outputOffset ≠ 0 := fun stays => zero (congrArg BitVec.toNat stays)
    have parts : (p.lo.fieldIn order d + p.offset / 2 ^ (mipsElf32RtypeToHowto p.pair.lo).bitpos) %
        2 ^ p.pair.shift = (p.lo.fieldIn order d + p.offset) % 2 ^ p.pair.shift ↔
          p.offset / 2 ^ (mipsElf32RtypeToHowto p.pair.lo).bitpos ≡ p.offset [MOD 2 ^ p.pair.shift] :=
      ⟨Nat.ModEq.add_left_cancel' _, Nat.ModEq.add_left _⟩
    rw [hi.fieldIn_high isHigh moves, loField, parts, and_comm]
    exact ⟨Or.inr, fun kept => kept.resolve_left zero⟩

/-- When a partial link keeps the addends of relocations against section symbols: always for words and
jumps; for a branch, when the offset means the same with and without the position of its field; for
the halves of an address, as `PairKept` says. -/
theorem partial_addends_kept_iff (lib : ElfLib) (link : ElfLink) (ops : GotOps σ)
    (inputSection : ElfSection) (isPartial : link.relocatable = true) (classes : lib.GpRelativeOnly)
    (rs : List SectionRel)
    (apart : rs.Pairwise Apart) (d : Store) (got : σ) (reports : List ElfReport) (small : Bool) :
    let run := bfdMipsElfRelocateSection lib link ops inputSection rs.length (rs.map SectionRel.rela)
      d got reports small
    run.1 = .true ∧
    (∀ r ∈ rs, singleP r.type = true →
      (r.KeepsAddend link.order d run.2.2.contents ↔
        (r.type = .rMipsPc16 → r.sec.outputOffset.toNat / 2 ^ 14 % 2 ^ 14 =
          r.sec.outputOffset.toNat / 2 ^ 2 % 2 ^ 14))) ∧
    ∀ p : SectionPair, p.hi ∈ rs → p.lo ∈ rs →
      (p.KeepsAddend link.order d run.2.2.contents ↔
        PairKept p.pair (p.hi.fieldIn link.order d) (p.lo.fieldIn link.order d) p.offset) := by
  intro run
  obtain ⟨done, contents⟩ := relocate_loop_partial ops inputSection isPartial classes rs
    ⟨d, got, reports, small, 0, false⟩ rfl
  have rewritten : ∀ r ∈ rs, r.Rewritten link.order d run.2.2.contents := by
    intro r member
    change bfdGet32 _ run.2.2.contents _ = _
    have words := partial_contents_word link.order rs apart r member d
    rw [← words]
    exact congrArg (fun d => bfdGet32 link.order d r.offset.toNat) contents
  refine ⟨done, ?_, ?_⟩
  · intro r member alone
    have low : r.type.hi16RelocP = false := by
      revert alone
      cases r.type <;> decide
    have whole : r.sec.outputOffset.toNat % 2 ^ r.howto.rightshift = 0 := by
      have shift : 2 ^ r.howto.rightshift ∣ 4 := by
        revert alone
        rw [SectionRel.howto]
        cases r.type <;> decide
      exact Nat.mod_eq_zero_of_dvd (shift.trans (Nat.dvd_of_mod_eq_zero r.aligned))
    rw [(rewritten r member).keeps_addend_iff low whole, SectionRel.howto]
    generalize r.type = type at alone
    cases type <;> first
      | (exact absurd alone (by decide))
      | exact ⟨fun _ other => absurd other (by decide), fun _ => rfl⟩
      | exact ⟨fun same _ => same, fun same => same rfl⟩
  · intro p hiMember loMember
    exact p.keeps_addend_iff (rewritten p.hi hiMember) (rewritten p.lo loMember)

/-- A relocation at `offset` against a section at `outputOffset` of the output. -/
def sectionRelAt (type : MipsReloc) (field : fieldRelocP type = true) (offset outputOffset : BfdVma)
    (aligned : outputOffset.toNat % 4 = 0) : SectionRel where
  type := type
  offset := offset
  symndx := 1
  sym := sectionSym
  sec := keptSection 0 outputOffset
  stub := none
  callStub := none
  field := field
  isSection := rfl
  kept := rfl
  aligned := aligned

def sectionPairAt (outputOffset : BfdVma) (aligned : outputOffset.toNat % 4 = 0) : SectionPair where
  pair := .mips
  hi := sectionRelAt .rMipsHi16 rfl 0 outputOffset aligned
  lo := sectionRelAt .rMipsLo16 rfl 4 outputOffset aligned
  isHi := rfl
  isLo := rfl
  oneSection := rfl

def partialRun (p : SectionPair) (d : Store) : Store :=
  (bfdMipsElfRelocateSection referenceElfLib (staticLink .big true) noGot (keptSection 0 0) 2
    [p.hi.rela, p.lo.rela] d () [] false).2.2.contents

def highAddend : Store := fun i => if i = 1 then 0x03 else if i = 2 then 0xff else if i = 3 then 0xd4 else 0

theorem partial_addends_kept_high :
    (sectionPairAt 0x100000 rfl).KeepsAddend .big highAddend
      (partialRun (sectionPairAt 0x100000 rfl) highAddend) :=
  ((partial_addends_kept_iff referenceElfLib (staticLink .big true) noGot (keptSection 0 0) rfl
    reference_gp_relative_only [(sectionPairAt 0x100000 rfl).hi, (sectionPairAt 0x100000 rfl).lo]
    (List.pairwise_pair.mpr (Or.inl (by decide))) highAddend () [] false).2.2
    (sectionPairAt 0x100000 rfl) (List.mem_cons_self ..)
    (List.mem_cons_of_mem _ (List.mem_singleton_self _))).mpr (by decide)

theorem partial_addends_lost :
    ¬ (sectionPairAt 0x1000 rfl).KeepsAddend .big (fun _ => 0)
      (partialRun (sectionPairAt 0x1000 rfl) fun _ => 0) := by
  intro keeps
  have addend := keeps.addend
  revert addend
  decide

end Openisa.Elf
