import Openisa.Bfd.PendingHi16
import Openisa.Bfd.ShuffledWord

/-! Relocation addresses near the end of a section, and the bytes that the special functions reach for. -/

namespace Openisa.Bfd

open Openisa.Library
open Openisa.Library.ByteStore

structure Access where
  data : DataPtr
  limit : BfdVma
  start : Nat
  bytes : Nat

namespace Access

def Inside (a : Access) : Prop := a.start + a.bytes ≤ a.limit.toNat

instance (a : Access) : Decidable a.Inside := inferInstanceAs (Decidable (_ ≤ _))

def Covers (a : Access) (p : DataPtr) (i : Nat) : Prop := a.data = p ∧ a.start ≤ i ∧ i < a.start + a.bytes

end Access

/-- The accesses of `relocateField`: the two shuffles, and the field between them. -/
def fieldAccesses (h : RelocHowto) (data : DataPtr) (inputSection : Asection) (loc : Nat) : List Access :=
  let shuffled := if plainOrderP h.type then [] else [(⟨data, inputSection.limit, loc, 4⟩ : Access)]
  shuffled ++ [⟨data, inputSection.limit, loc, bfdGetRelocSize h⟩] ++ shuffled

def genericAccesses (entry : Arelent) (data : DataPtr) (inputSection : Asection) (relocatable : Bool) :
    List Access :=
  if entry.address > inputSection.limit then [] else
  if relocatable && !entry.howto.partialInplace then []
  else fieldAccesses entry.howto data inputSection entry.address.toNat

def drainAccesses (lib : BfdLib) (order : Endian) (symbol : Asymbol) (data : DataPtr) (relocatable : Bool) :
    List MipsHi16 → RelocState → List Access
  | [], _ => []
  | hi :: next, s =>
      let rel := hi.withHi16Howto.rel
      let r := bfdMipsElfGenericReloc lib order rel symbol hi.data hi.inputSection relocatable s
      let done := if r.status = .outofrange then [] else [PendingQueue.Event.drained hi (symbol, data)]
      genericAccesses rel hi.data hi.inputSection relocatable ++
        if r.status ≠ .ok then []
        else drainAccesses lib order symbol data relocatable next
          { r.state with history := r.state.history ++ done }

def lo16Accesses (lib : BfdLib) (order : Endian) (entry : Arelent) (symbol : Asymbol) (data : DataPtr)
    (inputSection : Asection) (relocatable : Bool) (s : RelocState) : List Access :=
  if entry.address > inputSection.limit then [] else
  let location := entry.address.toNat
  let d := bfdMipsElfRelocUnshuffle order entry.howto.type false (s.mem data) location
  let s := s.setData data (bfdMipsElfRelocShuffle order entry.howto.type false d location)
  let drained := drainHi16List lib order symbol data relocatable s.mipsHi16List s
  [⟨data, inputSection.limit, location, 4⟩] ++
    drainAccesses lib order symbol data relocatable s.mipsHi16List s ++
    if drained.1 ≠ .ok then [] else genericAccesses entry data inputSection relocatable

/-- The entry of the inner relocation of an `R_MIPS_64`. -/
def reloc32Of (order : Endian) (entry : Arelent) : Arelent := { entry with
  address := if order = .big then entry.address + 4 else entry.address
  howto := mipsElf32RtypeToHowto .rMips32 }

/-- Where the upper half of an `R_MIPS_64` lies. -/
def upperAddress (order : Endian) (entry : Arelent) : BfdVma :=
  if order = .little then entry.address + 4 else entry.address

/-- `bfd_perform_relocation` leaves the inner relocation alone in a partial link against an absolute
symbol, and calls its special function otherwise. -/
def mips3264bitAccesses (lib : BfdLib) (order : Endian) (entry : Arelent) (data : DataPtr)
    (inputSection : Asection) (relocatable : Bool) (s : RelocState) : List Access :=
  let reloc32 := reloc32Of order entry
  let special := bfdMipsElfGenericReloc lib order reloc32 reloc32.sym data inputSection relocatable
  let r := lib.performRelocation (some special) reloc32 data inputSection relocatable s
  (if relocatable && entry.sym.asection.kind == .absolute then []
    else genericAccesses reloc32 data inputSection relocatable) ++
    [⟨data, inputSection.limit, r.entry.address.toNat, 4⟩,
      ⟨data, inputSection.limit, (upperAddress order entry).toNat, 4⟩]

/-- The special functions that test a relocation's address against the limit of its section. -/
def limitedP : SpecialFunction → Bool
  | .bfdMipsElfGenericReloc | .bfdMipsElfHi16Reloc | .bfdMipsElfLo16Reloc | .mips3264bitReloc => true
  | _ => false

/-- A call of one of them. A relocation that is only queued reaches for no byte. -/
structure LimitedCall where
  f : SpecialFunction
  entry : Arelent
  data : DataPtr
  inputSection : Asection
  relocatable : Bool
  limited : limitedP f = true
  known : entry.KnownHowto
  special : entry.howto.specialFunction = some f

namespace LimitedCall

variable (call : LimitedCall)

def accesses (lib : BfdLib) (order : Endian) (s : RelocState) : List Access :=
  match call.f with
  | .bfdMipsElfGenericReloc =>
      genericAccesses call.entry call.data call.inputSection call.relocatable
  | .bfdMipsElfLo16Reloc =>
      lo16Accesses lib order call.entry call.entry.sym call.data call.inputSection call.relocatable s
  | .mips3264bitReloc =>
      mips3264bitAccesses lib order call.entry call.data call.inputSection call.relocatable s
  | _ => []

def result (lib : BfdLib) (order : Endian) (s : RelocState) : SpecialResult :=
  runSpecialFunction lib order none call.f call.entry call.data call.inputSection call.relocatable s

/-- All bytes lie inside their sections, or the call is refused and changes none. -/
def Clean (lib : BfdLib) (order : Endian) (s : RelocState) : Prop :=
  (∀ a ∈ call.accesses lib order s, a.Inside) ∨
    ((call.result lib order s).status = .outofrange ∧ (call.result lib order s).state.mem = s.mem)

def Confined (lib : BfdLib) (order : Endian) (s : RelocState) : Prop :=
  ∀ p i, (∀ a ∈ call.accesses lib order s, ¬ a.Covers p i) → (call.result lib order s).state.mem p i = s.mem p i

end LimitedCall

def WordInside (inputSection : Asection) (address : BfdVma) : Prop :=
  address.toNat + 4 ≤ inputSection.limit.toNat

instance (inputSection : Asection) (address : BfdVma) : Decidable (WordInside inputSection address) :=
  inferInstanceAs (Decidable (_ ≤ _))

/-- What the upper half of an `R_MIPS_64` is set to. -/
def upperHalf (order : Endian) (d : Store) (address : BfdVma) : BfdVma :=
  if bfdGet32 order d address.toNat &&& 0x80000000 ≠ 0 then 0xffffffff else 0

def LimitedCall.KeepsInside (call : LimitedCall) (order : Endian) (s : RelocState) : Prop :=
  match call.f with
  | .bfdMipsElfGenericReloc =>
      call.entry.address > call.inputSection.limit ∨
        (call.relocatable && !call.entry.howto.partialInplace) = true ∨
        call.entry.address.toNat + bfdGetRelocSize call.entry.howto ≤ call.inputSection.limit.toNat
  | .bfdMipsElfLo16Reloc =>
      call.entry.address > call.inputSection.limit ∨
        (WordInside call.inputSection call.entry.address ∧
          ∀ hi ∈ s.mipsHi16List, WordInside hi.inputSection hi.rel.address)
  | .mips3264bitReloc =>
      let lower := (reloc32Of order call.entry).address
      let upper := upperAddress order call.entry
      if call.relocatable && call.entry.sym.asection.kind == .absolute then
        WordInside call.inputSection (lower + call.inputSection.outputOffset) ∧
          WordInside call.inputSection upper
      else if lower > call.inputSection.limit then
        bfdGet32 order (s.mem call.data) upper.toNat = upperHalf order (s.mem call.data) lower
      else WordInside call.inputSection lower ∧ WordInside call.inputSection upper ∧
        (call.relocatable = true → WordInside call.inputSection (lower + call.inputSection.outputOffset))
  | _ => True

/-- The entries of the pending list are relocations that are queued, and passed the test. -/
structure MipsHi16.Queued (hi : MipsHi16) : Prop where
  known : hi.rel.KnownHowto
  special : hi.rel.howto.specialFunction = some .bfdMipsElfHi16Reloc ∨
    hi.rel.howto.specialFunction = some .bfdMipsElfGot16Reloc
  inside : ¬ hi.rel.address > hi.inputSection.limit

def RelocState.QueuedOnly (s : RelocState) : Prop := ∀ hi ∈ s.mipsHi16List, hi.Queued

theorem RelocState.QueuedOnly.ready {s : RelocState} (queued : s.QueuedOnly) : s.Ready := fun hi member =>
  ⟨(queued hi member).inside,
    queued_silent hi.rel (queued hi member).known (queued hi member).special hi.data hi.inputSection⟩

theorem shuffled_size (type : MipsReloc) (shuffled : plainOrderP (mipsElf32RtypeToHowto type).type = false) :
    bfdGetRelocSize (mipsElf32RtypeToHowto type) = 4 := by
  revert shuffled
  cases type <;> decide

theorem field_accesses_inside (entry : Arelent) (known : entry.KnownHowto) (data : DataPtr)
    (inputSection : Asection) (loc : Nat) :
    (∀ a ∈ fieldAccesses entry.howto data inputSection loc, a.Inside) ↔
      loc + bfdGetRelocSize entry.howto ≤ inputSection.limit.toNat := by
  by_cases plain : plainOrderP entry.howto.type = true
  · simp [fieldAccesses, plain, Access.Inside]
  · have four : bfdGetRelocSize entry.howto = 4 := by
      rw [known] at plain ⊢
      exact shuffled_size _ (Bool.eq_false_iff.mpr plain)
    simp [fieldAccesses, plain, Access.Inside, four]

theorem generic_accesses_inside (entry : Arelent) (known : entry.KnownHowto) (data : DataPtr)
    (inputSection : Asection) (relocatable : Bool) :
    (∀ a ∈ genericAccesses entry data inputSection relocatable, a.Inside) ↔
      entry.address > inputSection.limit ∨ (relocatable && !entry.howto.partialInplace) = true ∨
        entry.address.toNat + bfdGetRelocSize entry.howto ≤ inputSection.limit.toNat := by
  rw [genericAccesses]
  by_cases outside : entry.address > inputSection.limit
  · simp [outside]
  by_cases separate : (relocatable && !entry.howto.partialInplace) = true
  · simp [outside, separate]
  · rw [if_neg outside, if_neg separate, field_accesses_inside entry known]
    simp only [outside, separate, false_or, Bool.false_eq_true]

variable {lib : BfdLib} (order : Endian)

theorem lo16_layout (entry : Arelent) (known : entry.KnownHowto)
    (special : entry.howto.specialFunction = some .bfdMipsElfLo16Reloc) :
    entry.howto.partialInplace = true ∧ bfdGetRelocSize entry.howto = 4 ∧
      entry.howto.complainOnOverflow = .dont := by
  rw [known] at special ⊢
  rw [lo16_special_type _ special]
  decide

theorem MipsHi16.Queued.layout {hi : MipsHi16} (queued : hi.Queued) :
    hi.withHi16Howto.rel.KnownHowto ∧ hi.withHi16Howto.rel.howto.partialInplace = true ∧
      bfdGetRelocSize hi.withHi16Howto.rel.howto = 4 := by
  have special := queued.special
  rw [queued.known] at special
  rcases queueing_type _ special with type | type | type | type <;>
    simp only [MipsHi16.withHi16Howto, Arelent.KnownHowto, type]
  · refine ⟨?_, ?_⟩
    · rw [← type]
      exact queued.known
    · rw [queued.known, type]
      decide
  · decide
  · decide
  · decide

theorem MipsHi16.Queued.generic_accesses {hi : MipsHi16} (queued : hi.Queued) (relocatable : Bool) :
    (∀ a ∈ genericAccesses hi.withHi16Howto.rel hi.data hi.inputSection relocatable, a.Inside) ↔
      WordInside hi.inputSection hi.rel.address := by
  rcases queued.layout with ⟨known, inplace, four⟩
  rw [generic_accesses_inside _ known, with_hi16_howto_address, inplace, four]
  simp only [queued.inside, Bool.not_true, Bool.and_false, Bool.false_eq_true, false_or]
  rfl

theorem drain_accesses_inside (silence : lib.NeverComplains) (symbol : Asymbol) (data : DataPtr)
    (relocatable : Bool) (pending : List MipsHi16) (queued : ∀ hi ∈ pending, hi.Queued) (s : RelocState) :
    (∀ a ∈ drainAccesses lib order symbol data relocatable pending s, a.Inside) ↔
      ∀ hi ∈ pending, WordInside hi.inputSection hi.rel.address := by
  induction pending generalizing s with
  | nil => simp [drainAccesses]
  | cons hi next ih =>
      have own := queued hi List.mem_cons_self
      have ok := generic_reloc_silent order silence hi.withHi16Howto.rel symbol hi.data hi.inputSection
        relocatable s (by rw [with_hi16_howto_address]; exact own.inside)
        (queued_silent hi.rel own.known own.special hi.data hi.inputSection)
      have rest := fun t => ih (fun later member => queued later (List.mem_cons_of_mem _ member)) t
      simp only [drainAccesses, ok, ne_eq, not_true_eq_false, if_false, List.forall_mem_append,
        List.forall_mem_cons, own.generic_accesses, rest]

theorem generic_reloc_refused (verdicts : lib.OkOrOverflow) (entry : Arelent) (symbol : Asymbol)
    (data : DataPtr) (inputSection : Asection) (relocatable : Bool) (s : RelocState) :
    (bfdMipsElfGenericReloc lib order entry symbol data inputSection relocatable s).status = .outofrange ↔
      entry.address > inputSection.limit := by
  by_cases outside : entry.address > inputSection.limit
  · simp [bfdMipsElfGenericReloc, outside]
  · simp only [outside, iff_false, bfdMipsElfGenericReloc, if_false]
    split
    · exact fun refused => BfdRelocStatus.noConfusion refused
    · rcases verdicts entry.howto order (fieldAdjustment entry symbol inputSection relocatable + entry.addend)
        (bfdMipsElfRelocUnshuffle order entry.howto.type false (s.mem data) entry.address.toNat)
        entry.address.toNat with ok | overflow
      · simp [relocateField, ok]
      · simp [relocateField, overflow]

theorem generic_clean_iff (verdicts : lib.OkOrOverflow) (entry : Arelent) (known : entry.KnownHowto)
    (symbol : Asymbol) (data : DataPtr) (inputSection : Asection) (relocatable : Bool) (s : RelocState) :
    let r := bfdMipsElfGenericReloc lib order entry symbol data inputSection relocatable s
    ((∀ a ∈ genericAccesses entry data inputSection relocatable, a.Inside) ∨
        (r.status = .outofrange ∧ r.state.mem = s.mem)) ↔
      (entry.address > inputSection.limit ∨ (relocatable && !entry.howto.partialInplace) = true ∨
        entry.address.toNat + bfdGetRelocSize entry.howto ≤ inputSection.limit.toNat) := by
  dsimp only
  rw [generic_accesses_inside entry known]
  constructor
  · rintro (inside | ⟨refused, _⟩)
    · exact inside
    · exact Or.inl ((generic_reloc_refused order verdicts _ _ _ _ _ _).mp refused)
  · exact Or.inl

theorem lo16_clean_iff (silence : lib.NeverComplains) (entry : Arelent) (known : entry.KnownHowto)
    (special : entry.howto.specialFunction = some .bfdMipsElfLo16Reloc) (symbol : Asymbol) (data : DataPtr)
    (inputSection : Asection) (relocatable : Bool) (s : RelocState) (queued : s.QueuedOnly) :
    let r := bfdMipsElfLo16Reloc lib order entry symbol data inputSection relocatable s
    ((∀ a ∈ lo16Accesses lib order entry symbol data inputSection relocatable s, a.Inside) ∨
        (r.status = .outofrange ∧ r.state.mem = s.mem)) ↔
      (entry.address > inputSection.limit ∨ (WordInside inputSection entry.address ∧
        ∀ hi ∈ s.mipsHi16List, WordInside hi.inputSection hi.rel.address)) := by
  dsimp only
  by_cases outside : entry.address > inputSection.limit
  · simp [lo16Accesses, outside]
  rcases lo16_layout entry known special with ⟨inplace, four, silent⟩
  have drained := fun t => drain_installable order silence symbol data relocatable s.mipsHi16List
    queued.ready t
  have reached := fun t => drain_accesses_inside order silence symbol data relocatable s.mipsHi16List queued t
  have ok := fun t => generic_reloc_silent order silence entry symbol data inputSection relocatable t
    outside silent
  have own := generic_accesses_inside entry known data inputSection relocatable
  rw [inplace, four] at own
  have accepted : (bfdMipsElfLo16Reloc lib order entry symbol data inputSection relocatable s).status = .ok := by
    simp only [bfdMipsElfLo16Reloc, if_neg outside, RelocState.setData_list, (drained _).1, ne_eq,
      not_true_eq_false, if_false, ok]
  simp only [lo16Accesses, RelocState.setData_list, (drained _).1, ne_eq, not_true_eq_false,
    if_false, List.forall_mem_append, own, reached, accepted, reduceCtorEq, false_and, or_false, outside,
    false_or, Bool.not_true, Bool.and_false, Bool.false_eq_true, List.forall_mem_singleton]
  constructor
  · rintro ⟨⟨word, others⟩, _⟩
    exact ⟨word, others⟩
  · rintro ⟨word, others⟩
    exact ⟨⟨word, others⟩, word⟩

/-- The inner relocation of an `R_MIPS_64`, as `bfd_perform_relocation` answers. -/
def innerResult (lib : BfdLib) (order : Endian) (entry : Arelent) (data : DataPtr) (inputSection : Asection)
    (relocatable : Bool) (s : RelocState) : SpecialResult :=
  lib.performRelocation (some (bfdMipsElfGenericReloc lib order (reloc32Of order entry)
    (reloc32Of order entry).sym data inputSection relocatable)) (reloc32Of order entry) data inputSection
    relocatable s

theorem reloc64_state (lib : BfdLib) (entry : Arelent) (data : DataPtr) (inputSection : Asection) (relocatable : Bool)
    (s : RelocState) :
    let r := innerResult lib order entry data inputSection relocatable s
    (mips3264bitReloc lib order entry data inputSection relocatable s).status = r.status ∧
      (mips3264bitReloc lib order entry data inputSection relocatable s).state = r.state.setData data
        (bfdPut32 order (upperHalf order (r.state.mem data) r.entry.address) (r.state.mem data)
          (upperAddress order entry).toNat) := ⟨rfl, rfl⟩

theorem inner_kept (absolute : lib.KeepsAbsolute) (entry : Arelent) (data : DataPtr) (inputSection : Asection)
    (relocatable : Bool) (s : RelocState)
    (kept : (relocatable && entry.sym.asection.kind == .absolute) = true) :
    innerResult lib order entry data inputSection relocatable s =
      ⟨.ok, { reloc32Of order entry with
        address := (reloc32Of order entry).address + inputSection.outputOffset }, s, none⟩ := by
  rw [Bool.and_eq_true, beq_iff_eq] at kept
  rw [innerResult, kept.1]
  exact absolute _ _ _ _ _ kept.2

theorem inner_called (special : lib.ReturnsSpecial) (verdicts : lib.OkOrOverflow) (entry : Arelent)
    (data : DataPtr) (inputSection : Asection) (relocatable : Bool) (s : RelocState)
    (live : ¬ (relocatable && entry.sym.asection.kind == .absolute) = true) :
    innerResult lib order entry data inputSection relocatable s =
      bfdMipsElfGenericReloc lib order (reloc32Of order entry) entry.sym data inputSection relocatable s := by
  apply special
  · intro isPartial absolute
    exact live (by rw [Bool.and_eq_true, beq_iff_eq]; exact ⟨isPartial, absolute⟩)
  · intro continued
    have field : fieldStatusP (bfdMipsElfGenericReloc lib order (reloc32Of order entry) entry.sym data
        inputSection relocatable s).status = true := generic_reloc_status verdicts _ _ _ _ _ _
    have same : (bfdMipsElfGenericReloc lib order (reloc32Of order entry) entry.sym data inputSection
      relocatable s).status = .continue := continued
    rw [same] at field
    cases field

theorem inner_inside (silence : lib.NeverComplains) (entry : Arelent) (data : DataPtr) (inputSection : Asection)
    (relocatable : Bool) (s : RelocState) (inside : ¬ (reloc32Of order entry).address > inputSection.limit) :
    let r := bfdMipsElfGenericReloc lib order (reloc32Of order entry) entry.sym data inputSection relocatable s
    r.status = .ok ∧ r.entry = (reloc32Of order entry).moved inputSection relocatable := by
  have ok := fun val d => silence (mipsElf32RtypeToHowto .rMips32) order val d
    (reloc32Of order entry).address.toNat rfl
  have inplace : (reloc32Of order entry).howto = mipsElf32RtypeToHowto .rMips32 := rfl
  have plain : (relocatable && !(mipsElf32RtypeToHowto .rMips32).partialInplace) = false := Bool.and_false _
  simp only [bfdMipsElfGenericReloc, if_neg inside, inplace, plain, relocateField, ok, ne_eq,
    not_true_eq_false, if_false, Bool.false_eq_true]
  exact ⟨trivial, trivial⟩

theorem upper_half_lt (d : Store) (address : BfdVma) : (upperHalf order d address).toNat < 2 ^ 32 := by
  rw [upperHalf]
  split <;> decide

theorem put32_self_iff (x : BfdVma) (word : x.toNat < 2 ^ 32) (d : Store) (loc : Nat) :
    bfdPut32 order x d loc = d ↔ bfdGet32 order d loc = x := by
  constructor
  · intro same
    rw [← same]
    exact bfdGet32_put32 order x d loc word
  · intro same
    rw [← same]
    exact bfdPut32_get32 order d loc

theorem set_data_mem_iff (s : RelocState) (data : DataPtr) (d : Store) :
    (s.setData data d).mem = s.mem ↔ d = s.mem data := Function.update_eq_self_iff

theorem reloc64_clean_iff (special : lib.ReturnsSpecial) (absolute : lib.KeepsAbsolute)
    (silence : lib.NeverComplains) (verdicts : lib.OkOrOverflow) (entry : Arelent) (data : DataPtr)
    (inputSection : Asection) (relocatable : Bool) (s : RelocState) :
    let r := mips3264bitReloc lib order entry data inputSection relocatable s
    let lower := (reloc32Of order entry).address
    let upper := upperAddress order entry
    ((∀ a ∈ mips3264bitAccesses lib order entry data inputSection relocatable s, a.Inside) ∨
        (r.status = .outofrange ∧ r.state.mem = s.mem)) ↔
      if relocatable && entry.sym.asection.kind == .absolute then
        WordInside inputSection (lower + inputSection.outputOffset) ∧ WordInside inputSection upper
      else if lower > inputSection.limit then
        bfdGet32 order (s.mem data) upper.toNat = upperHalf order (s.mem data) lower
      else WordInside inputSection lower ∧ WordInside inputSection upper ∧
        (relocatable = true → WordInside inputSection (lower + inputSection.outputOffset)) := by
  have state := reloc64_state order lib entry data inputSection relocatable s
  have accesses : mips3264bitAccesses lib order entry data inputSection relocatable s =
      (if relocatable && entry.sym.asection.kind == .absolute then []
        else genericAccesses (reloc32Of order entry) data inputSection relocatable) ++
      [⟨data, inputSection.limit,
          (innerResult lib order entry data inputSection relocatable s).entry.address.toNat, 4⟩,
        ⟨data, inputSection.limit, (upperAddress order entry).toNat, 4⟩] := rfl
  dsimp only at state ⊢
  rw [accesses, state.1, state.2]
  by_cases kept : (relocatable && entry.sym.asection.kind == .absolute) = true
  · rw [if_pos kept, if_pos kept, inner_kept order absolute _ _ _ _ _ kept]
    simp [Access.Inside, WordInside]
  rw [if_neg kept, if_neg kept, inner_called order special verdicts _ _ _ _ _ kept]
  by_cases outside : (reloc32Of order entry).address > inputSection.limit
  · have refused : bfdMipsElfGenericReloc lib order (reloc32Of order entry) entry.sym data inputSection
        relocatable s = ⟨.outofrange, reloc32Of order entry, s, none⟩ := by
      rw [bfdMipsElfGenericReloc, if_pos outside]
    have beyond : ¬ (reloc32Of order entry).address.toNat + 4 ≤ inputSection.limit.toNat := by
      have above := BitVec.lt_def.mp outside
      omega
    rw [if_pos outside, refused, set_data_mem_iff, put32_self_iff order _ (upper_half_lt order _ _)]
    constructor
    · rintro (allInside | ⟨_, same⟩)
      · exact absurd (allInside _ (List.mem_append_right _ List.mem_cons_self)) beyond
      · exact same
    · intro same
      exact Or.inr ⟨rfl, same⟩
  · have inside := inner_inside order silence entry data inputSection relocatable s outside
    have own := generic_accesses_inside (reloc32Of order entry) rfl data inputSection relocatable
    have inplace : (reloc32Of order entry).howto.partialInplace = true := rfl
    have four : bfdGetRelocSize (reloc32Of order entry).howto = 4 := rfl
    rw [inplace, four] at own
    simp only [outside, Bool.not_true, Bool.and_false, Bool.false_eq_true, false_or] at own
    rw [if_neg outside, inside.1, inside.2, List.forall_mem_append, own]
    cases relocatable with
    | false => simp [Arelent.moved, Access.Inside, WordInside]
    | true => simp [Arelent.moved, Access.Inside, WordInside, and_comm]

theorem LimitedCall.clean_iff (call : LimitedCall) (special : lib.ReturnsSpecial) (absolute : lib.KeepsAbsolute)
    (silence : lib.NeverComplains) (verdicts : lib.OkOrOverflow) (s : RelocState) (queued : s.QueuedOnly) :
    call.Clean lib order s ↔ call.KeepsInside order s := by
  rcases call with ⟨f, entry, data, inputSection, relocatable, limited, known, isSpecial⟩
  cases f with
  | bfdMipsElfGenericReloc =>
      exact generic_clean_iff order verdicts entry known entry.sym data inputSection relocatable s
  | bfdMipsElfHi16Reloc => simp [LimitedCall.Clean, LimitedCall.KeepsInside, LimitedCall.accesses]
  | bfdMipsElfLo16Reloc =>
      exact lo16_clean_iff order silence entry known isSpecial entry.sym data inputSection relocatable s queued
  | mips3264bitReloc =>
      exact reloc64_clean_iff order special absolute silence verdicts entry data inputSection relocatable s
  | bfdMipsElfGot16Reloc | bfdMipsElf32Gprel16Reloc | mipsElfGprel32Reloc | mips16GprelReloc
  | bfdElfGenericReloc | bfdElfRelVtableRelocFn => cases limited

theorem outside_of_free {a : Access} {p : DataPtr} {i : Nat} (free : ¬ a.Covers p i) (same : a.data = p) :
    i < a.start ∨ a.start + a.bytes ≤ i := by
  by_contra within
  exact free ⟨same, by omega, by omega⟩

theorem relocate_field_frame (sums : lib.StoresSum) (h : RelocHowto) (val : BfdVma) (d : Store) (data : DataPtr)
    (inputSection : Asection) (loc i : Nat)
    (free : ∀ a ∈ fieldAccesses h data inputSection loc, ¬ a.Covers data i) :
    (relocateField lib order h val d loc).2 i = d i := by
  have field := outside_of_free (free ⟨data, inputSection.limit, loc, bfdGetRelocSize h⟩
    (by simp [fieldAccesses])) rfl
  have contents : ∀ d', (lib.relocateContents h order val d' loc).2 i = d' i := by
    intro d'
    rw [sums]
    exact store_outside order _ _ d' loc i field
  simp only [relocateField]
  by_cases plain : plainOrderP h.type = true
  · rw [shuffle_plain _ _ _ _ _ plain, unshuffle_plain _ _ _ _ _ plain, contents]
  · have word := outside_of_free (free ⟨data, inputSection.limit, loc, 4⟩ (by simp [fieldAccesses, plain])) rfl
    rw [shuffle_outside _ _ _ _ _ _ word, contents, unshuffle_outside _ _ _ _ _ _ word]

theorem set_data_byte (s : RelocState) (data p : DataPtr) (d : Store) (i : Nat)
    (same : data = p → d i = s.mem data i) : (s.setData data d).mem p i = s.mem p i := by
  by_cases own : p = data
  · rw [own, RelocState.setData_mem]
    exact same own.symm
  · rw [RelocState.setData_mem_other _ _ _ _ own]

theorem generic_frame (sums : lib.StoresSum) (entry : Arelent) (symbol : Asymbol) (data : DataPtr)
    (inputSection : Asection) (relocatable : Bool) (s : RelocState) (p : DataPtr) (i : Nat)
    (free : ∀ a ∈ genericAccesses entry data inputSection relocatable, ¬ a.Covers p i) :
    (bfdMipsElfGenericReloc lib order entry symbol data inputSection relocatable s).state.mem p i =
      s.mem p i := by
  rw [genericAccesses] at free
  rw [bfdMipsElfGenericReloc]
  split
  · rfl
  · rename_i inside
    rw [if_neg inside] at free
    dsimp only
    split
    · rfl
    · rename_i inplace
      rw [if_neg inplace] at free
      have stored := fun val => set_data_byte s data p
        (relocateField lib order entry.howto val (s.mem data) entry.address.toNat).2 i fun own => by
          rw [← own] at free
          exact relocate_field_frame order sums _ _ _ data inputSection _ _ free
      split <;> exact stored _

theorem drain_frame (sums : lib.StoresSum) (symbol : Asymbol) (data : DataPtr) (relocatable : Bool)
    (pending : List MipsHi16) (s : RelocState) (p : DataPtr) (i : Nat)
    (free : ∀ a ∈ drainAccesses lib order symbol data relocatable pending s, ¬ a.Covers p i) :
    (drainHi16List lib order symbol data relocatable pending s).2.mem p i = s.mem p i := by
  induction pending generalizing s with
  | nil => rfl
  | cons hi next ih =>
      simp only [drainAccesses, List.forall_mem_append] at free
      have first := generic_frame order sums hi.withHi16Howto.rel symbol hi.data hi.inputSection relocatable s
        p i free.1
      simp only [drainHi16List]
      split
      · exact first
      · rename_i ok
        have later := free.2
        rw [if_neg ok] at later
        rw [ih _ later]
        exact first

theorem lo16_frame (sums : lib.StoresSum) (entry : Arelent) (symbol : Asymbol) (data : DataPtr)
    (inputSection : Asection) (relocatable : Bool) (s : RelocState) (p : DataPtr) (i : Nat)
    (free : ∀ a ∈ lo16Accesses lib order entry symbol data inputSection relocatable s, ¬ a.Covers p i) :
    (bfdMipsElfLo16Reloc lib order entry symbol data inputSection relocatable s).state.mem p i = s.mem p i := by
  rw [lo16Accesses] at free
  simp only [bfdMipsElfLo16Reloc]
  split
  · rfl
  · rename_i inside
    simp only [if_neg inside, List.forall_mem_append, List.forall_mem_singleton] at free
    rcases free with ⟨⟨own, drained⟩, last⟩
    have looked := set_data_byte s data p (bfdMipsElfRelocShuffle order entry.howto.type false
      (bfdMipsElfRelocUnshuffle order entry.howto.type false (s.mem data) entry.address.toNat)
      entry.address.toNat) i fun same => by
        have word := outside_of_free own same
        rw [shuffle_outside _ _ _ _ _ _ word, unshuffle_outside _ _ _ _ _ _ word]
    have emptied := drain_frame order sums symbol data relocatable _ _ p i drained
    split
    · exact emptied.trans looked
    · rename_i ok
      rw [if_neg ok] at last
      exact (generic_frame order sums entry symbol data inputSection relocatable _ p i last).trans
        (emptied.trans looked)

theorem reloc64_frame (sums : lib.StoresSum) (special : lib.ReturnsSpecial) (absolute : lib.KeepsAbsolute)
    (verdicts : lib.OkOrOverflow) (entry : Arelent) (data : DataPtr) (inputSection : Asection)
    (relocatable : Bool) (s : RelocState) (p : DataPtr) (i : Nat)
    (free : ∀ a ∈ mips3264bitAccesses lib order entry data inputSection relocatable s, ¬ a.Covers p i) :
    (mips3264bitReloc lib order entry data inputSection relocatable s).state.mem p i = s.mem p i := by
  rw [mips3264bitAccesses, List.forall_mem_append] at free
  have inner : (innerResult lib order entry data inputSection relocatable s).state.mem p i = s.mem p i := by
    by_cases kept : (relocatable && entry.sym.asection.kind == .absolute) = true
    · rw [inner_kept order absolute _ _ _ _ _ kept]
    · rw [if_neg kept] at free
      rw [inner_called order special verdicts _ _ _ _ _ kept]
      exact generic_frame order sums _ _ _ _ _ _ p i free.1
  have upper := free.2 ⟨data, inputSection.limit, (upperAddress order entry).toNat, 4⟩ (by simp)
  rw [(reloc64_state order lib entry data inputSection relocatable s).2]
  refine (set_data_byte _ data p _ i fun same => ?_).trans inner
  exact store_outside order 4 _ _ _ i (outside_of_free upper same)

theorem LimitedCall.frame (call : LimitedCall) (sums : lib.StoresSum) (special : lib.ReturnsSpecial)
    (absolute : lib.KeepsAbsolute) (verdicts : lib.OkOrOverflow) (s : RelocState) : call.Confined lib order s := by
  intro p i free
  rcases call with ⟨f, entry, data, inputSection, relocatable, limited, known, isSpecial⟩
  cases f with
  | bfdMipsElfGenericReloc =>
      exact generic_frame order sums entry entry.sym data inputSection relocatable s p i free
  | bfdMipsElfHi16Reloc =>
      change (bfdMipsElfHi16Reloc entry data inputSection relocatable s).state.mem p i = _
      rw [bfdMipsElfHi16Reloc]
      split <;> rfl
  | bfdMipsElfLo16Reloc =>
      exact lo16_frame order sums entry entry.sym data inputSection relocatable s p i free
  | mips3264bitReloc =>
      exact reloc64_frame order sums special absolute verdicts entry data inputSection relocatable s p i free
  | bfdMipsElfGot16Reloc | bfdMipsElf32Gprel16Reloc | mipsElfGprel32Reloc | mips16GprelReloc
  | bfdElfGenericReloc | bfdElfRelVtableRelocFn => cases limited

end Openisa.Bfd
