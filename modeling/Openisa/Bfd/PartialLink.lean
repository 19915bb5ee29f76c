import Openisa.Bfd.HiLoPair
import Mathlib.Data.BitVec

/-! A partial link followed by a final link of its output, against one final link. -/

namespace Openisa.Bfd

open Openisa.Library
open Openisa.Library.ByteStore

/-- Where a section and the section of its symbol lie in an intermediate object, whose sections start at
0, and where that object's sections lie in the output. -/
structure Placement where
  limit : BfdVma
  sectionOffset : BfdVma
  targetOffset : BfdVma
  midLimit : BfdVma
  finalSection : OutputSection
  finalSectionOffset : BfdVma
  finalTarget : OutputSection
  finalTargetOffset : BfdVma
  sectionAligned : sectionOffset.toNat % 4 = 0
  targetAligned : targetOffset.toNat % 4 = 0

def sectionSymbol (vma offset : BfdVma) : Asymbol :=
  ⟨".text", ⟨.regular, ⟨vma⟩, offset, 0⟩, 0, ⟨true, false, false, true⟩⟩

def linkEntries (lib : BfdLib) (order : Endian) (symbol : Asymbol) (inputSection : Asection)
    (relocatable : Bool) : List Arelent → Store → List SpecialResult × Store
  | [], d => ([], d)
  | entry :: rest, d =>
      let r := bfdMipsElfGenericReloc lib order entry symbol 0 inputSection relocatable (startState d)
      let (rs, d) := linkEntries lib order symbol inputSection relocatable rest (r.state.mem 0)
      (r :: rs, d)

namespace Placement

variable (p : Placement)

def midSection : Asection := ⟨.regular, ⟨0⟩, p.sectionOffset, p.limit⟩

def midTarget : Asymbol := sectionSymbol 0 p.targetOffset

def outSection : Asection := ⟨.regular, p.finalSection, p.finalSectionOffset, p.midLimit⟩

def outTarget : Asymbol := sectionSymbol p.finalTarget.vma p.finalTargetOffset

def directSection : Asection :=
  ⟨.regular, p.finalSection, p.finalSectionOffset + p.sectionOffset, p.limit⟩

def directTarget : Asymbol := sectionSymbol p.finalTarget.vma (p.finalTargetOffset + p.targetOffset)

/-- The statuses of both links, and the bytes of the intermediate section, which holds those of the
first link among bytes `b` of other sections. -/
def twoLinks (lib : BfdLib) (order : Endian) (entries : List Arelent) (d b : Store) :
    List BfdRelocStatus × Store :=
  let (first, d) := linkEntries lib order p.midTarget p.midSection true entries d
  let (second, d) := linkEntries lib order p.outTarget p.outSection false (first.map SpecialResult.entry)
    (place p.sectionOffset.toNat d b)
  (first.map SpecialResult.status ++ second.map SpecialResult.status, d)

def oneLink (lib : BfdLib) (order : Endian) (entries : List Arelent) (d : Store) :
    List BfdRelocStatus × Store :=
  let (rs, d) := linkEntries lib order p.directTarget p.directSection false entries d
  (rs.map SpecialResult.status, d)

/-- Both ways to link give the same verdict and the same bytes of the section. -/
structure Transparent (lib : BfdLib) (order : Endian) (entries : List Arelent) (d b : Store) : Prop where
  verdict : (∀ status ∈ (p.twoLinks lib order entries d b).1, status = .ok) ↔
    ∀ status ∈ (p.oneLink lib order entries d).1, status = .ok
  words : ∀ i, (p.twoLinks lib order entries d b).2 (p.sectionOffset.toNat + i) =
    (p.oneLink lib order entries d).2 i

/-- What the final link of the intermediate object adds to a field at `address`. -/
def outValue (h : RelocHowto) (address : BfdVma) : BfdVma :=
  let target := p.finalTarget.vma + p.finalTargetOffset
  if h.pcRelative then target - p.finalSection.vma - p.finalSectionOffset - address else target

def directValue (h : RelocHowto) (address : BfdVma) : BfdVma :=
  p.targetOffset + p.outValue h (address + p.sectionOffset)

end Placement

structure PlacedReloc (p : Placement) where
  entry : Arelent
  known : entry.howto = mipsElf32RtypeToHowto entry.howto.type
  field : fieldRelocP entry.howto.type = true
  addend : entry.addend = 0
  aligned : entry.address.toNat % 4 = 0
  inside : ¬ entry.address > p.limit
  midInside : ¬ entry.address + p.sectionOffset > p.midLimit
  noWrap : entry.address.toNat + p.sectionOffset.toNat < 2 ^ 64

variable {lib : BfdLib} {order : Endian} {p : Placement}

namespace PlacedReloc

variable (e : PlacedReloc p)

theorem howtoFacts : e.entry.howto.WordField ∧ plainOrderP e.entry.howto.type = true ∧
    e.entry.howto.partialInplace = true := by
  have facts := field_howto _ e.field
  rw [← e.known] at facts
  exact ⟨facts.1, facts.2.1, facts.2.2.2⟩

def moved : Arelent := { e.entry with address := e.entry.address + p.sectionOffset }

theorem moved_address : e.moved.address.toNat = p.sectionOffset.toNat + e.entry.address.toNat := by
  rw [moved, BitVec.toNat_add, Nat.mod_eq_of_lt e.noWrap, Nat.add_comm]

theorem addToWord_place (h : RelocHowto) (val : BfdVma) (d b : Store) (base loc : Nat) :
    addToWord order h val (place base d b) (base + loc) = place base (addToWord order h val d loc) b := by
  simp only [addToWord, bfdPut32, bfdPut, bfdGet32, bfdGet, load_place, store_place]

theorem first_link (order : Endian) (sums : lib.StoresSum) (d : Store) :
    let loc := e.entry.address.toNat
    let status := (lib.relocateContents e.entry.howto order p.targetOffset d loc).1
    let r := bfdMipsElfGenericReloc lib order e.entry p.midTarget 0 p.midSection true (startState d)
    r.status = status ∧ r.entry = (if status = .ok then e.moved else e.entry) ∧
      r.state.mem 0 = addToWord order e.entry.howto p.targetOffset d loc := by
  obtain ⟨word, plain, inplace⟩ := e.howtoFacts
  have value : fieldAdjustment e.entry p.midTarget p.midSection true + e.entry.addend = p.targetOffset := by
    simp [fieldAdjustment, Placement.midTarget, sectionSymbol, e.addend]
  have result := generic_reloc_partial order sums e.entry p.midTarget 0 p.midSection (startState d)
    e.inside word plain inplace
  rw [value] at result
  rw [result]
  exact ⟨rfl, rfl, RelocState.setData_mem _ _ _⟩

theorem out_value_eq (entry : Arelent) (addend : entry.addend = 0) :
    fieldAdjustment entry p.outTarget p.outSection false + entry.addend =
      p.outValue entry.howto entry.address := by
  by_cases pc : entry.howto.pcRelative = true <;>
    simp [fieldAdjustment, Placement.outTarget, Placement.outSection, Placement.outValue, sectionSymbol,
      addend, pc]

theorem second_link (order : Endian) (sums : lib.StoresSum) (entry : Arelent) (howto : entry.howto = e.entry.howto)
    (addend : entry.addend = 0) (inside : ¬ entry.address > p.midLimit) (d : Store) :
    let val := p.outValue e.entry.howto entry.address
    let r := bfdMipsElfGenericReloc lib order entry p.outTarget 0 p.outSection false (startState d)
    r.status = (lib.relocateContents e.entry.howto order val d entry.address.toNat).1 ∧
      r.state.mem 0 = addToWord order e.entry.howto val d entry.address.toNat := by
  obtain ⟨word, plain, -⟩ := e.howtoFacts
  have result := generic_reloc_final order sums entry p.outTarget 0 p.outSection (startState d)
    inside (howto ▸ word) (howto ▸ plain)
  rw [out_value_eq entry addend, howto] at result
  rw [result]
  exact ⟨rfl, RelocState.setData_mem _ _ _⟩

theorem direct_link (order : Endian) (sums : lib.StoresSum) (d : Store) :
    let val := p.directValue e.entry.howto e.entry.address
    let r := bfdMipsElfGenericReloc lib order e.entry p.directTarget 0 p.directSection false (startState d)
    r.status = (lib.relocateContents e.entry.howto order val d e.entry.address.toNat).1 ∧
      r.state.mem 0 = addToWord order e.entry.howto val d e.entry.address.toNat := by
  obtain ⟨word, plain, -⟩ := e.howtoFacts
  have value : fieldAdjustment e.entry p.directTarget p.directSection false + e.entry.addend =
      p.directValue e.entry.howto e.entry.address := by
    by_cases pc : e.entry.howto.pcRelative = true
    · simp only [fieldAdjustment, Placement.directTarget, Placement.directSection, Placement.directValue,
        Placement.outValue, sectionSymbol, e.addend, pc, Bool.not_false, Bool.true_or, if_true,
        Bool.false_eq_true, if_false]
      ring
    · simp only [fieldAdjustment, Placement.directTarget, Placement.directSection, Placement.directValue,
        Placement.outValue, sectionSymbol, e.addend, pc, Bool.not_false, Bool.true_or, if_true,
        Bool.false_eq_true, if_false]
      ring
  have result := generic_reloc_final order sums e.entry p.directTarget 0 p.directSection
    (startState d) e.inside word plain
  rw [value] at result
  rw [result]
  exact ⟨rfl, RelocState.setData_mem _ _ _⟩

theorem addToWord_sum_iff (order : Endian) (h : RelocHowto) (word : h.WordField) (wide : 1 < 2 ^ h.bitsize)
    (fits : h.rightshift + h.bitsize ≤ 64) (u v : BfdVma) (d : Store) (loc : Nat) :
    addToWord order h v (addToWord order h u d loc) loc = addToWord order h (u + v) d loc ↔
      u.toNat % 2 ^ h.rightshift + v.toNat % 2 ^ h.rightshift < 2 ^ h.rightshift := by
  have short : ∀ x : BfdVma, (BitField.addField h.bitpos h.bitsize (bfdGet32 order d loc) x).toNat < 2 ^ 32 :=
    fun x => BitField.addField_lt _ _ 32 word.fits _ _ (bfdGet32_lt order d loc)
  have quotient := SplitSum.mod_pow_div_mod 64 h.rightshift h.bitsize fits
  have carry := SplitSum.add_div_mod_iff (Nat.two_pow_pos h.rightshift) wide 0 u.toNat v.toNat
  rw [addToWord_addToWord h word, addToWord, bfdPut32_eq_iff _ _ _ _ _ (short _) (short _),
    BitField.addField_eq_iff _ _ (le_trans word.fits (by decide)), ← BitVec.toNat_inj,
    BitVec.toNat_setWidth, BitVec.toNat_setWidth, BitVec.toNat_add, BitVec.toNat_ushiftRight,
    BitVec.toNat_ushiftRight, BitVec.toNat_ushiftRight, BitVec.toNat_add, Nat.shiftRight_eq_div_pow,
    Nat.shiftRight_eq_div_pow, Nat.shiftRight_eq_div_pow, quotient,
    Nat.mod_mod_of_dvd _ (Nat.pow_dvd_pow 2 (by omega : h.bitsize ≤ 64))]
  simpa only [Nat.zero_add] using carry

end PlacedReloc

def addAll (order : Endian) (val : PlacedReloc p → BfdVma) (es : List (PlacedReloc p)) (d : Store) : Store :=
  es.foldl (fun d e => addToWord order e.entry.howto (val e) d e.entry.address.toNat) d

def Quiet (es : List (PlacedReloc p)) : Prop :=
  ∀ e ∈ es, e.entry.howto.complainOnOverflow = .dont

theorem quiet_first (order : Endian) (sums : lib.StoresSum) (silence : lib.NeverComplains) (es : List (PlacedReloc p))
    (quiet : Quiet es) (d : Store) :
    let r := linkEntries lib order p.midTarget p.midSection true (es.map PlacedReloc.entry) d
    (∀ status ∈ r.1.map SpecialResult.status, status = .ok) ∧
      r.1.map SpecialResult.entry = es.map PlacedReloc.moved ∧
      r.2 = addAll order (fun _ => p.targetOffset) es d := by
  induction es generalizing d with
  | nil => exact ⟨nofun, rfl, rfl⟩
  | cons e rest ih =>
      obtain ⟨status, entry, mem⟩ := e.first_link order sums d
      have ok := silence e.entry.howto order p.targetOffset d e.entry.address.toNat
        (quiet e (List.mem_cons_self ..))
      rw [ok] at status entry
      obtain ⟨statuses, entries, bytes⟩ := ih (fun later member => quiet later (List.mem_cons_of_mem _ member))
        (addToWord order e.entry.howto p.targetOffset d e.entry.address.toNat)
      simp only [List.map_cons, linkEntries, mem, status, entry, if_true, List.mem_cons, forall_eq_or_imp]
      exact ⟨⟨trivial, statuses⟩, by rw [entries], bytes⟩

theorem quiet_second (order : Endian) (sums : lib.StoresSum) (silence : lib.NeverComplains) (es : List (PlacedReloc p))
    (quiet : Quiet es) (d b : Store) :
    let r := linkEntries lib order p.outTarget p.outSection false (es.map PlacedReloc.moved)
      (place p.sectionOffset.toNat d b)
    (∀ status ∈ r.1.map SpecialResult.status, status = .ok) ∧
      r.2 = place p.sectionOffset.toNat
        (addAll order (fun e => p.outValue e.entry.howto (e.entry.address + p.sectionOffset)) es d) b := by
  induction es generalizing d with
  | nil => exact ⟨nofun, rfl⟩
  | cons e rest ih =>
      obtain ⟨status, mem⟩ := e.second_link order sums e.moved rfl e.addend e.midInside
        (place p.sectionOffset.toNat d b)
      have ok := silence e.entry.howto order (p.outValue e.entry.howto e.moved.address)
        (place p.sectionOffset.toNat d b) e.moved.address.toNat (quiet e (List.mem_cons_self ..))
      rw [ok] at status
      rw [e.moved_address, PlacedReloc.addToWord_place] at mem
      obtain ⟨statuses, bytes⟩ := ih (fun later member => quiet later (List.mem_cons_of_mem _ member))
        (addToWord order e.entry.howto (p.outValue e.entry.howto e.moved.address) d e.entry.address.toNat)
      simp only [List.map_cons, linkEntries, mem, status, List.mem_cons, forall_eq_or_imp]
      exact ⟨⟨trivial, statuses⟩, bytes⟩

theorem quiet_direct (order : Endian) (sums : lib.StoresSum) (silence : lib.NeverComplains) (es : List (PlacedReloc p))
    (quiet : Quiet es) (d : Store) :
    let r := linkEntries lib order p.directTarget p.directSection false (es.map PlacedReloc.entry) d
    (∀ status ∈ r.1.map SpecialResult.status, status = .ok) ∧
      r.2 = addAll order (fun e => p.directValue e.entry.howto e.entry.address) es d := by
  induction es generalizing d with
  | nil => exact ⟨nofun, rfl⟩
  | cons e rest ih =>
      obtain ⟨status, mem⟩ := e.direct_link order sums d
      have ok := silence e.entry.howto order (p.directValue e.entry.howto e.entry.address) d
        e.entry.address.toNat (quiet e (List.mem_cons_self ..))
      rw [ok] at status
      obtain ⟨statuses, bytes⟩ := ih (fun later member => quiet later (List.mem_cons_of_mem _ member))
        (addToWord order e.entry.howto (p.directValue e.entry.howto e.entry.address) d
          e.entry.address.toNat)
      simp only [List.map_cons, linkEntries, mem, status, List.mem_cons, forall_eq_or_imp]
      exact ⟨⟨trivial, statuses⟩, bytes⟩

theorem place_eq_iff (base : Nat) (d d' b : Store) :
    (∀ i, place base d b (base + i) = d' i) ↔ d = d' := by
  simp only [place_base]
  exact ⟨funext, fun same i => congrFun same i⟩

theorem quiet_transparent_iff (order : Endian) (sums : lib.StoresSum) (silence : lib.NeverComplains)
    (es : List (PlacedReloc p)) (quiet : Quiet es) (d b : Store) :
    p.Transparent lib order (es.map PlacedReloc.entry) d b ↔
      addAll order (fun e => p.outValue e.entry.howto (e.entry.address + p.sectionOffset)) es
          (addAll order (fun _ => p.targetOffset) es d) =
        addAll order (fun e => p.directValue e.entry.howto e.entry.address) es d := by
  obtain ⟨ok, entries, bytes⟩ := quiet_first order sums silence es quiet d
  obtain ⟨ok', bytes'⟩ := quiet_second order sums silence es quiet
    (addAll order (fun _ => p.targetOffset) es d) b
  obtain ⟨ok'', bytes''⟩ := quiet_direct order sums silence es quiet d
  have two : (p.twoLinks lib order (es.map PlacedReloc.entry) d b).2 = place p.sectionOffset.toNat
      (addAll order (fun e => p.outValue e.entry.howto (e.entry.address + p.sectionOffset)) es
        (addAll order (fun _ => p.targetOffset) es d)) b := by
    simp only [Placement.twoLinks, entries, bytes]
    exact bytes'
  have one : (p.oneLink lib order (es.map PlacedReloc.entry) d).2 =
      addAll order (fun e => p.directValue e.entry.howto e.entry.address) es d := bytes''
  rw [← place_eq_iff p.sectionOffset.toNat _ _ b, ← two, ← one]
  constructor
  · intro transparent
    exact transparent.words
  · intro words
    refine ⟨⟨fun _ => ok'', fun _ => ?_⟩, words⟩
    simp only [Placement.twoLinks, entries, bytes]
    intro status member
    rcases List.mem_append.mp member with first | second
    · exact ok status first
    · exact ok' status second

theorem addToWord_put (order : Endian) (h : RelocHowto) (val x : BfdVma) (d : Store) (loc : Nat) :
    bfdPut32 order x (addToWord order h val d loc) loc = bfdPut32 order x d loc :=
  bfdPut32_put32 order _ x d loc

theorem addAll_pair_iff (hi lo : PlacedReloc p)
    (apart : hi.entry.address.toNat + 4 ≤ lo.entry.address.toNat ∨
      lo.entry.address.toNat + 4 ≤ hi.entry.address.toNat)
    (u v w : PlacedReloc p → BfdVma) (d : Store)
    (loSum : ∀ d, addToWord order lo.entry.howto (v lo) (addToWord order lo.entry.howto (u lo) d
      lo.entry.address.toNat) lo.entry.address.toNat =
        addToWord order lo.entry.howto (w lo) d lo.entry.address.toNat) :
    addAll order v [hi, lo] (addAll order u [hi, lo] d) = addAll order w [hi, lo] d ↔
      addToWord order hi.entry.howto (v hi) (addToWord order hi.entry.howto (u hi) d
        hi.entry.address.toNat) hi.entry.address.toNat =
          addToWord order hi.entry.howto (w hi) d hi.entry.address.toNat := by
  simp only [addAll, List.foldl_cons, List.foldl_nil]
  rw [addToWord_comm lo.entry.howto hi.entry.howto _ _ _ _ _ apart.symm, loSum]
  constructor
  · intro same
    have words := congrArg (fun d => bfdGet32 order d hi.entry.address.toNat) same
    simp only [addToWord_apart _ _ _ _ _ apart] at words
    calc
      _ = bfdPut32 order (bfdGet32 order (addToWord order hi.entry.howto (v hi) (addToWord order
            hi.entry.howto (u hi) d hi.entry.address.toNat) hi.entry.address.toNat)
            hi.entry.address.toNat) d hi.entry.address.toNat := by
        rw [← addToWord_put order hi.entry.howto (u hi) _ d, ← addToWord_put order hi.entry.howto (v hi),
          bfdPut32_get32]
      _ = bfdPut32 order (bfdGet32 order (addToWord order hi.entry.howto (w hi) d
            hi.entry.address.toNat) hi.entry.address.toNat) d hi.entry.address.toNat := by rw [words]
      _ = _ := by rw [← addToWord_put order hi.entry.howto (w hi), bfdPut32_get32]
  · intro same
    rw [same]

def Placement.targetBase (p : Placement) : BfdVma := p.finalTarget.vma + p.finalTargetOffset

theorem pair_transparent_iff (sums : lib.StoresSum) (silence : lib.NeverComplains) (pair : HiLoPair)
    (hi lo : PlacedReloc p) (isHi : hi.entry.howto.type = pair.hi) (isLo : lo.entry.howto.type = pair.lo)
    (apart : hi.entry.address.toNat + 4 ≤ lo.entry.address.toNat ∨
      lo.entry.address.toNat + 4 ≤ hi.entry.address.toNat) (d b : Store) :
    p.Transparent lib order [hi.entry, lo.entry] d b ↔
      p.targetOffset.toNat % 2 ^ pair.shift + p.targetBase.toNat % 2 ^ pair.shift < 2 ^ pair.shift := by
  have hiHowto : hi.entry.howto = mipsElf32RtypeToHowto pair.hi := isHi ▸ hi.known
  have loHowto : lo.entry.howto = mipsElf32RtypeToHowto pair.lo := isLo ▸ lo.known
  have quiet : Quiet [hi, lo] := by
    intro e member
    simp only [List.mem_cons, List.not_mem_nil, or_false] at member
    rcases member with rfl | rfl
    · rw [hiHowto]
      cases pair <;> rfl
    · rw [loHowto]
      cases pair <;> rfl
  have hiValue : ∀ address, p.outValue hi.entry.howto address = p.targetBase := fun address => by
    simp [Placement.outValue, hiHowto, pair.hi_layout.2.2, Placement.targetBase]
  have whole := quiet_transparent_iff order sums silence [hi, lo] quiet d b
  have hiSum := PlacedReloc.addToWord_sum_iff order hi.entry.howto hi.howtoFacts.1
    (by rw [hiHowto]; cases pair <;> decide) (by rw [hiHowto]; cases pair <;> decide) p.targetOffset
    p.targetBase d hi.entry.address.toNat
  have loSum := fun v d => (PlacedReloc.addToWord_sum_iff order lo.entry.howto lo.howtoFacts.1
    (by rw [loHowto]; cases pair <;> decide) (by rw [loHowto]; cases pair <;> decide) p.targetOffset
    v d lo.entry.address.toNat).mpr
    (by rw [loHowto, pair.lo_layout.1]; simp only [Nat.pow_zero, Nat.mod_one]; decide)
  rw [hiHowto, pair.hi_layout.1, ← hiHowto] at hiSum
  refine whole.trans ((addAll_pair_iff hi lo apart _ _ _ d fun d => ?_).trans ?_)
  · exact loSum _ d
  · rw [hiValue, Placement.directValue, hiValue]
    exact hiSum

theorem single_shift (type : MipsReloc) (single : singleP type = true) :
    2 ^ (mipsElf32RtypeToHowto type).rightshift ∣ 4 ∧ 1 < 2 ^ (mipsElf32RtypeToHowto type).bitsize ∧
      (mipsElf32RtypeToHowto type).rightshift + (mipsElf32RtypeToHowto type).bitsize ≤ 64 := by
  revert single
  cases type <;> decide

/-- The words of a single relocation come out right: the offset of the target has no bits that the shift
drops. -/
theorem PlacedReloc.single_sum (order : Endian) (e : PlacedReloc p) (single : singleP e.entry.howto.type = true)
    (v : BfdVma) (d : Store) (loc : Nat) :
    addToWord order e.entry.howto v (addToWord order e.entry.howto p.targetOffset d loc) loc =
      addToWord order e.entry.howto (p.targetOffset + v) d loc := by
  obtain ⟨shift, wide, fits⟩ := single_shift _ single
  rw [← e.known] at shift wide fits
  refine (PlacedReloc.addToWord_sum_iff order e.entry.howto e.howtoFacts.1 wide fits _ _ d loc).mpr ?_
  have none : p.targetOffset.toNat % 2 ^ e.entry.howto.rightshift = 0 :=
    Nat.mod_eq_zero_of_dvd (dvd_trans shift (Nat.dvd_of_mod_eq_zero p.targetAligned))
  rw [none, Nat.zero_add]
  exact Nat.mod_lt _ (Nat.two_pow_pos _)

/-- `complain_overflow_signed` lets this value and its sum with the field pass. -/
def Accepts (h : RelocHowto) (v : BfdVma) (field : Int) : Prop :=
  FitsSigned h.bitsize (signedAddress v / 2 ^ h.rightshift) ∧
    FitsSigned h.bitsize (signedAddress v / 2 ^ h.rightshift + field)

instance (h : RelocHowto) (v : BfdVma) (field : Int) : Decidable (Accepts h v field) :=
  inferInstanceAs (Decidable (_ ∧ _))

def fieldShare (h : RelocHowto) (v : BfdVma) : Nat := v.toNat / 2 ^ h.rightshift % 2 ^ h.bitsize

abbrev pc16Howto : RelocHowto := mipsElf32RtypeToHowto .rMipsPc16

/-- When the two links of a branch agree with the one: as long as the first link succeeds, the final
verdicts agree; when it fails, the one link must fail too, and the final link of the relocation, which was
not moved, must not make a difference. -/
def BranchTransparent (p : Placement) (address : BfdVma) (field : Int) : Prop :=
  let moved := address + p.sectionOffset
  if Accepts pc16Howto p.targetOffset field then
    Accepts pc16Howto (p.outValue pc16Howto moved) (field + signedAddress p.targetOffset / 4) ↔
      Accepts pc16Howto (p.directValue pc16Howto address) field
  else
    ¬ Accepts pc16Howto (p.directValue pc16Howto address) field ∧
      (p.sectionOffset = 0 ∨ fieldShare pc16Howto (p.outValue pc16Howto moved) = 0 ∧
        (p.sectionOffset ≤ address → fieldShare pc16Howto (p.outValue pc16Howto address) = 0))

theorem relocate_ok_iff (order : Endian) (verdicts : lib.OkOrOverflow) (checks : lib.ChecksSigned) (h : RelocHowto)
    (word : h.WordField) (signed : h.complainOnOverflow = .signed) (v : BfdVma) (d : Store) (loc : Nat) :
    (lib.relocateContents h order v d loc).1 = .ok ↔
      Accepts h v ((bfdGet32 order d loc).extractLsb' h.bitpos h.bitsize).toInt := by
  have overflow := checks h order v d loc signed word
  rw [Accepts, ← not_iff_not, ← overflow]
  rcases verdicts h order v d loc with ok | exceeds
  · simp [ok]
  · simp [exceeds]

theorem pc16_field_add (field : BitVec 14) (v : BfdVma) (accepts : Accepts pc16Howto v field.toInt) :
    (field + (v >>> 2).setWidth 14).toInt = field.toInt + signedAddress v / 4 := by
  obtain ⟨value, sum⟩ := accepts
  simp only [FitsSigned, signedAddress, mipsElf32RtypeToHowto, howto, Nat.reducePow, Nat.reduceSub,
    BitVec.toInt_eq_toNat_cond, BitVec.toNat_setWidth] at value sum ⊢
  simp only [BitVec.toNat_add, BitVec.toNat_setWidth, BitVec.toNat_ushiftRight, Nat.shiftRight_eq_div_pow]
  omega

theorem share_zero_iff (order : Endian) (h : RelocHowto) (word : h.WordField) (v : BfdVma) (d : Store) (loc : Nat) :
    addToWord order h v d loc = d ↔ fieldShare h v = 0 := by
  have short : ∀ x : BfdVma, (BitField.addField h.bitpos h.bitsize (bfdGet32 order d loc) x).toNat < 2 ^ 32 :=
    fun x => BitField.addField_lt _ _ 32 word.fits _ _ (bfdGet32_lt order d loc)
  have fits : h.bitpos + h.bitsize ≤ 64 := le_trans word.fits (by decide)
  have zero : BitField.addField h.bitpos h.bitsize (bfdGet32 order d loc) 0 = bfdGet32 order d loc := by
    apply BitField.eq_of_field_eq h.bitpos h.bitsize
    · rw [BitField.field_addField _ _ fits]
      simp
    · exact BitField.addField_outside _ _ _ _
  have back : d = bfdPut32 order (BitField.addField h.bitpos h.bitsize (bfdGet32 order d loc) 0) d loc := by
    rw [zero, bfdPut32_get32]
  conv_lhs => rhs; rw [back]
  rw [addToWord, bfdPut32_eq_iff _ _ _ _ _ (short _) (short _), BitField.addField_eq_iff _ _ fits,
    ← BitVec.toNat_inj, BitVec.toNat_setWidth, BitVec.toNat_ushiftRight, Nat.shiftRight_eq_div_pow,
    fieldShare]
  simp

theorem one_link_single (order : Endian) (sums : lib.StoresSum) (e : PlacedReloc p) (d : Store) :
    let val := p.directValue e.entry.howto e.entry.address
    p.oneLink lib order [e.entry] d =
      ([(lib.relocateContents e.entry.howto order val d e.entry.address.toNat).1],
        addToWord order e.entry.howto val d e.entry.address.toNat) := by
  obtain ⟨status, mem⟩ := e.direct_link order sums d
  simp only [Placement.oneLink, linkEntries, status, mem, List.map_cons, List.map_nil]

theorem two_links_single (order : Endian) (sums : lib.StoresSum) (e : PlacedReloc p) (d b : Store) (kept : Arelent)
    (isKept : kept = if (lib.relocateContents e.entry.howto order p.targetOffset d e.entry.address.toNat).1 = .ok
      then e.moved else e.entry) (howto : kept.howto = e.entry.howto) (addend : kept.addend = 0)
    (inside : ¬ kept.address > p.midLimit) :
    let mid := place p.sectionOffset.toNat
      (addToWord order e.entry.howto p.targetOffset d e.entry.address.toNat) b
    let val := p.outValue e.entry.howto kept.address
    p.twoLinks lib order [e.entry] d b =
      ([(lib.relocateContents e.entry.howto order p.targetOffset d e.entry.address.toNat).1,
          (lib.relocateContents e.entry.howto order val mid kept.address.toNat).1],
        addToWord order e.entry.howto val mid kept.address.toNat) := by
  obtain ⟨status, entry, mem⟩ := e.first_link order sums d
  rw [← isKept] at entry
  obtain ⟨status', mem'⟩ := e.second_link order sums kept howto addend inside
    (place p.sectionOffset.toNat (addToWord order e.entry.howto p.targetOffset d e.entry.address.toNat) b)
  simp only [Placement.twoLinks, linkEntries, status, entry, mem, status', mem', List.map_cons,
    List.map_nil, List.singleton_append]

theorem addToWord_of_word (h : RelocHowto) (val : BfdVma) (d : Store) (loc : Nat)
    (word : bfdGet32 order (addToWord order h val d loc) loc = bfdGet32 order d loc) :
    addToWord order h val d loc = d := by
  rw [← bfdPut32_get32 order (addToWord order h val d loc) loc, word, addToWord_put, bfdPut32_get32]

/-- The section after the final link of a relocation that was not moved, in an intermediate object
where the section does not come first. -/
theorem unmoved_words_iff (order : Endian) (e : PlacedReloc p) (later : p.sectionOffset.toNat ≠ 0) (u v : BfdVma)
    (d b : Store) :
    (∀ i, addToWord order e.entry.howto u (place p.sectionOffset.toNat d b) e.entry.address.toNat
        (p.sectionOffset.toNat + i) = addToWord order e.entry.howto v d e.entry.address.toNat i) ↔
      fieldShare e.entry.howto v = 0 ∧
        (p.sectionOffset ≤ e.entry.address → fieldShare e.entry.howto u = 0) := by
  have word := e.howtoFacts.1
  have aligned := e.aligned
  have sectionAligned := p.sectionAligned
  rw [BitVec.le_def]
  by_cases reaches : p.sectionOffset.toNat ≤ e.entry.address.toNat
  · obtain ⟨inner, address⟩ := Nat.exists_eq_add_of_le reaches
    have apart : e.entry.address.toNat + 4 ≤ inner ∨ inner + 4 ≤ e.entry.address.toNat := by omega
    simp only [reaches, forall_const]
    rw [← share_zero_iff order e.entry.howto word v d e.entry.address.toNat,
      ← share_zero_iff order e.entry.howto word u d inner]
    nth_rewrite 1 [address]
    rw [PlacedReloc.addToWord_place, place_eq_iff]
    constructor
    · intro same
      have untouched : addToWord order e.entry.howto v d e.entry.address.toNat = d := by
        apply addToWord_of_word
        rw [← same, addToWord_apart _ _ _ _ _ apart]
      exact ⟨untouched, same.trans untouched⟩
    · rintro ⟨outer, inside⟩
      rw [outer, inside]
  · have outside : ∀ i, addToWord order e.entry.howto u (place p.sectionOffset.toNat d b)
        e.entry.address.toNat (p.sectionOffset.toNat + i) = d i := by
      intro i
      rw [addToWord_byte _ _ _ _ _ (by omega), place_base]
    simp only [outside, reaches, false_implies, and_true]
    rw [← share_zero_iff order e.entry.howto word v d e.entry.address.toNat]
    exact ⟨fun same => (funext same).symm, fun same i => by rw [same]⟩

def PlacedReloc.branchField (e : PlacedReloc p) (order : Endian) (d : Store) : BitVec 14 :=
  (bfdGet32 order d e.entry.address.toNat).extractLsb' 12 14

theorem PlacedReloc.branch_howto (e : PlacedReloc p) (isBranch : e.entry.howto.type = .rMipsPc16) :
    e.entry.howto = pc16Howto := by
  rw [e.known, isBranch]

theorem PlacedReloc.branch_ok_iff (order : Endian) (verdicts : lib.OkOrOverflow) (checks : lib.ChecksSigned)
    (e : PlacedReloc p) (isBranch : e.entry.howto.type = .rMipsPc16) (v : BfdVma) (d : Store) :
    (lib.relocateContents pc16Howto order v d e.entry.address.toNat).1 = .ok ↔
      Accepts pc16Howto v (e.branchField order d).toInt :=
  relocate_ok_iff order verdicts checks pc16Howto (e.branch_howto isBranch ▸ e.howtoFacts.1) rfl v d _

theorem PlacedReloc.branch_again_iff (order : Endian) (verdicts : lib.OkOrOverflow) (checks : lib.ChecksSigned)
    (e : PlacedReloc p) (isBranch : e.entry.howto.type = .rMipsPc16) (v : BfdVma) (d b : Store)
    (first : Accepts pc16Howto p.targetOffset (e.branchField order d).toInt) :
    (lib.relocateContents pc16Howto order v (place p.sectionOffset.toNat
        (addToWord order pc16Howto p.targetOffset d e.entry.address.toNat) b)
        (p.sectionOffset.toNat + e.entry.address.toNat)).1 = .ok ↔
      Accepts pc16Howto v ((e.branchField order d).toInt + signedAddress p.targetOffset / 4) := by
  have word : pc16Howto.WordField := e.branch_howto isBranch ▸ e.howtoFacts.1
  have ok := relocate_ok_iff order verdicts checks pc16Howto word rfl v (place p.sectionOffset.toNat
    (addToWord order pc16Howto p.targetOffset d e.entry.address.toNat) b)
    (p.sectionOffset.toNat + e.entry.address.toNat)
  have reread : bfdGet32 order (place p.sectionOffset.toNat
      (addToWord order pc16Howto p.targetOffset d e.entry.address.toNat) b)
      (p.sectionOffset.toNat + e.entry.address.toNat) =
        bfdGet32 order (addToWord order pc16Howto p.targetOffset d e.entry.address.toNat)
          e.entry.address.toNat := by
    rw [bfdGet32, bfdGet, load_place]
    rfl
  rw [reread, addToWord_field pc16Howto word] at ok
  change _ ↔ Accepts _ _ (e.branchField order d + (p.targetOffset >>> 2).setWidth 14).toInt at ok
  rw [pc16_field_add (e.branchField order d) p.targetOffset first] at ok
  exact ok

theorem branch_moved_iff (sums : lib.StoresSum) (verdicts : lib.OkOrOverflow) (checks : lib.ChecksSigned)
    (e : PlacedReloc p) (isBranch : e.entry.howto.type = .rMipsPc16) (d b : Store)
    (first : Accepts pc16Howto p.targetOffset (e.branchField order d).toInt) :
    p.Transparent lib order [e.entry] d b ↔
      (Accepts pc16Howto (p.outValue pc16Howto e.moved.address)
          ((e.branchField order d).toInt + signedAddress p.targetOffset / 4) ↔
        Accepts pc16Howto (p.directValue pc16Howto e.entry.address) (e.branchField order d).toInt) := by
  have howto := e.branch_howto isBranch
  have status := (e.branch_ok_iff order verdicts checks isBranch p.targetOffset d).mpr first
  have sum := e.single_sum order (by rw [isBranch]; rfl)
  have one := one_link_single order sums e d
  have two := two_links_single order sums e d b e.moved (by rw [howto, if_pos status]) rfl
    e.addend e.midInside
  simp only [howto] at sum one
  dsimp only at two
  rw [howto, status, e.moved_address, PlacedReloc.addToWord_place, sum] at two
  rw [← e.branch_ok_iff order verdicts checks isBranch, ← e.branch_again_iff order verdicts checks isBranch _ d b first]
  constructor
  · intro transparent
    have verdict := transparent.verdict
    rw [two, one] at verdict
    simpa using verdict
  · intro verdict
    refine ⟨?_, ?_⟩
    · rw [two, one]
      simpa using verdict
    · rw [two, one]
      exact (place_eq_iff _ _ _ b).mpr rfl

/-- A branch that failed the first link stays where it was, and what the final link adds to is another word
unless the section comes first. -/
theorem branch_stayed_iff (sums : lib.StoresSum) (verdicts : lib.OkOrOverflow) (checks : lib.ChecksSigned)
    (e : PlacedReloc p) (isBranch : e.entry.howto.type = .rMipsPc16) (d b : Store)
    (first : ¬ Accepts pc16Howto p.targetOffset (e.branchField order d).toInt) :
    p.Transparent lib order [e.entry] d b ↔
      ¬ Accepts pc16Howto (p.directValue pc16Howto e.entry.address) (e.branchField order d).toInt ∧
        (p.sectionOffset = 0 ∨ fieldShare pc16Howto (p.outValue pc16Howto e.moved.address) = 0 ∧
          (p.sectionOffset ≤ e.entry.address →
            fieldShare pc16Howto (p.outValue pc16Howto e.entry.address) = 0)) := by
  have howto := e.branch_howto isBranch
  have firstOk := e.branch_ok_iff order verdicts checks isBranch p.targetOffset d
  have status : (lib.relocateContents pc16Howto order p.targetOffset d e.entry.address.toNat).1 ≠ .ok :=
    fun isOk => first (firstOk.mp isOk)
  have sum := e.single_sum order (by rw [isBranch]; rfl)
  have one := one_link_single order sums e d
  simp only [howto] at sum one
  have inMid : ¬ e.entry.address > p.midLimit := by
    have noWrap := e.noWrap
    have midInside := e.midInside
    simp only [gt_iff_lt, BitVec.lt_def, BitVec.toNat_add] at midInside ⊢
    omega
  have two := two_links_single order sums e d b e.entry (by rw [howto, if_neg status]) rfl
    e.addend inMid
  dsimp only at two
  rw [howto] at two
  have failed : (∀ s ∈ (p.twoLinks lib order [e.entry] d b).1, s = .ok) ↔ False := by
    rw [two]
    simp [status]
  have words : (∀ i, (p.twoLinks lib order [e.entry] d b).2 (p.sectionOffset.toNat + i) =
      (p.oneLink lib order [e.entry] d).2 i) ↔
        (p.sectionOffset = 0 ∨ fieldShare pc16Howto (p.outValue pc16Howto e.moved.address) = 0 ∧
          (p.sectionOffset ≤ e.entry.address →
            fieldShare pc16Howto (p.outValue pc16Howto e.entry.address) = 0)) := by
    rw [two, one, Placement.directValue, ← sum]
    by_cases base : p.sectionOffset = 0
    · have start : ∀ d, place 0 d b = d := fun d => funext fun i => by simp [place]
      simp [base, start]
    · have later : p.sectionOffset.toNat ≠ 0 := fun zero => base (BitVec.eq_of_toNat_eq zero)
      have same := unmoved_words_iff order e later (p.outValue pc16Howto e.entry.address)
        (p.outValue pc16Howto e.moved.address)
        (addToWord order pc16Howto p.targetOffset d e.entry.address.toNat) b
      rw [howto] at same
      simp only [base, false_or]
      exact same
  rw [← e.branch_ok_iff order verdicts checks isBranch]
  constructor
  · intro transparent
    have verdict := transparent.verdict
    rw [failed, one] at verdict
    exact ⟨by simpa using verdict, words.mp transparent.words⟩
  · rintro ⟨verdict, same⟩
    refine ⟨?_, words.mpr same⟩
    rw [failed, one]
    simpa using verdict

theorem branch_transparent_iff (sums : lib.StoresSum) (verdicts : lib.OkOrOverflow)
    (checks : lib.ChecksSigned) (e : PlacedReloc p) (isBranch : e.entry.howto.type = .rMipsPc16)
    (d b : Store) :
    p.Transparent lib order [e.entry] d b ↔
      BranchTransparent p e.entry.address (e.branchField order d).toInt := by
  rw [BranchTransparent]
  by_cases first : Accepts pc16Howto p.targetOffset (e.branchField order d).toInt
  · rw [if_pos first]
    exact branch_moved_iff sums verdicts checks e isBranch d b first
  · rw [if_neg first]
    exact branch_stayed_iff sums verdicts checks e isBranch d b first

theorem unchecked_transparent (sums : lib.StoresSum) (silence : lib.NeverComplains) (e : PlacedReloc p)
    (single : singleP e.entry.howto.type = true) (noBranch : e.entry.howto.type ≠ .rMipsPc16) (d b : Store) :
    p.Transparent lib order [e.entry] d b := by
  have quiet : Quiet [e] := by
    intro other member
    obtain rfl := List.mem_singleton.mp member
    rw [other.known]
    revert single noBranch
    cases other.entry.howto.type <;> decide
  exact (quiet_transparent_iff order sums silence [e] quiet d b).mpr
    (e.single_sum order single _ d e.entry.address.toNat)

/-- When a partial link makes no difference: never a difference for a word or a jump; for a branch, as
`BranchTransparent` says; for the two halves of an address, exactly when the offset in the intermediate
object and the base of the target do not carry out of the low part. -/
theorem partial_link_transparent_iff (order : Endian) (sums : lib.StoresSum) (verdicts : lib.OkOrOverflow)
    (silence : lib.NeverComplains) (checks : lib.ChecksSigned) (p : Placement) (d b : Store) :
    (∀ e : PlacedReloc p, singleP e.entry.howto.type = true →
      (p.Transparent lib order [e.entry] d b ↔
        (e.entry.howto.type = .rMipsPc16 →
          BranchTransparent p e.entry.address (e.branchField order d).toInt))) ∧
    ∀ (pair : HiLoPair) (hi lo : PlacedReloc p), hi.entry.howto.type = pair.hi →
      lo.entry.howto.type = pair.lo →
      (hi.entry.address.toNat + 4 ≤ lo.entry.address.toNat ∨
        lo.entry.address.toNat + 4 ≤ hi.entry.address.toNat) →
      (p.Transparent lib order [hi.entry, lo.entry] d b ↔
        p.targetOffset.toNat % 2 ^ pair.shift + p.targetBase.toNat % 2 ^ pair.shift < 2 ^ pair.shift) := by
  constructor
  · intro e single
    by_cases isBranch : e.entry.howto.type = .rMipsPc16
    · rw [branch_transparent_iff sums verdicts checks e isBranch]
      exact ⟨fun condition _ => condition, fun condition => condition isBranch⟩
    · exact ⟨fun _ branch => absurd branch isBranch,
        fun _ => unchecked_transparent sums silence e single isBranch d b⟩
  · intro pair hi lo isHi isLo apart
    exact pair_transparent_iff sums silence pair hi lo isHi isLo apart d b

/-- The target section lies at `offset` of the intermediate object, whose section of it lies at 0x2000. -/
def samplePlacement (offset : BfdVma) (aligned : offset.toNat % 4 = 0) : Placement where
  limit := 8
  sectionOffset := 0
  targetOffset := offset
  midLimit := 8
  finalSection := ⟨0x1000⟩
  finalSectionOffset := 0
  finalTarget := ⟨0x2000⟩
  finalTargetOffset := 0
  sectionAligned := rfl
  targetAligned := aligned

theorem partial_link_low_offset :
    (samplePlacement 0x1000 rfl).Transparent referenceLib .big
      [relocAt .rMipsHi16 0 (symbolAt 0 0), relocAt .rMipsLo16 4 (symbolAt 0 0)] (fun _ => 0) (fun _ => 0) :=
  ((partial_link_transparent_iff .big reference_stores_sum reference_ok_or_overflow
    reference_never_complains reference_checks_signed (samplePlacement 0x1000 rfl) (fun _ => 0)
    (fun _ => 0)).2 .mips
    ⟨relocAt .rMipsHi16 0 (symbolAt 0 0), rfl, rfl, rfl, rfl, by decide, by decide, by decide⟩
    ⟨relocAt .rMipsLo16 4 (symbolAt 0 0), rfl, rfl, rfl, rfl, by decide, by decide, by decide⟩
    rfl rfl (by decide)).mpr (by decide)

theorem partial_link_carry_lost :
    ¬ (samplePlacement 0x2000 rfl).Transparent referenceLib .big
      [relocAt .rMipsHi16 0 (symbolAt 0 0), relocAt .rMipsLo16 4 (symbolAt 0 0)] (fun _ => 0)
      (fun _ => 0) := by
  intro transparent
  have word := transparent.words 3
  revert word
  decide

end Openisa.Bfd
