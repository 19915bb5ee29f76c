import Openisa.Bfd.PendingHi16
import Openisa.Bfd.ShuffledWord
import Openisa.Library.SplitSum

/-! The high parts that wait for a MIPS16 low part, and the address that each of them makes with it. -/

namespace Openisa.Bfd

open Openisa.Library
open Openisa.Library.ByteStore

def immediate (order : Endian) (rType : MipsReloc) (d : Store) (loc : Nat) : BitVec 16 :=
  (instructionWord order rType d loc).extractLsb' 0 16

def highPart (order : Endian) (hi : Arelent) (d : Store) : BitVec 16 :=
  immediate order .rMips16Hi16 d hi.address.toNat

def Arelent.Apart (a b : Arelent) : Prop :=
  a.address.toNat + 4 ≤ b.address.toNat ∨ b.address.toNat + 4 ≤ a.address.toNat

/-- High parts on instructions of their own, and the low part that follows them. -/
structure Mips16Site where
  inputSection : Asection
  highs : List Arelent
  low : Arelent
  highHowto : ∀ hi ∈ highs, hi.howto = mipsElf32RtypeToHowto .rMips16Hi16
  lowHowto : low.howto = mipsElf32RtypeToHowto .rMips16Lo16
  inside : ∀ reloc ∈ highs ++ [low], ¬ reloc.address > inputSection.limit
  addend : ∀ reloc ∈ highs ++ [low], reloc.addend = 0
  apart : (highs ++ [low]).Pairwise Arelent.Apart

/-- A high part as the queue holds it, with an instruction of its own in the data. -/
structure WaitingHigh (inputSection : Asection) (data : DataPtr) (hi : MipsHi16) : Prop where
  howto : hi.rel.howto = mipsElf32RtypeToHowto .rMips16Hi16
  inside : ¬ hi.rel.address > hi.inputSection.limit
  addend : hi.rel.addend = 0
  section_eq : hi.inputSection = inputSection
  data_eq : hi.data = data

variable {lib : BfdLib} (order : Endian)

theorem generic_reloc_stores (lib : BfdLib) (entry : Arelent) (symbol : Asymbol) (data : DataPtr) (inputSection : Asection)
    (s : RelocState) (inside : ¬ entry.address > inputSection.limit) :
    let stored := relocateField lib order entry.howto
      (fieldAdjustment entry symbol inputSection false + entry.addend) (s.mem data) entry.address.toNat
    (bfdMipsElfGenericReloc lib order entry symbol data inputSection false s).status = stored.1 ∧
      (bfdMipsElfGenericReloc lib order entry symbol data inputSection false s).state =
        s.setData data stored.2 := by
  simp only [bfdMipsElfGenericReloc, if_neg inside, Bool.false_and, Bool.false_eq_true, if_false]
  split
  · exact ⟨rfl, rfl⟩
  · rename_i ok
    exact ⟨(not_not.mp ok).symm, rfl⟩

theorem mips16_reloc_immediate (sums : lib.StoresSum) (silent : lib.NeverComplains) (entry : Arelent)
    (symbol : Asymbol) (data : DataPtr) (inputSection : Asection) (s : RelocState)
    (inside : ¬ entry.address > inputSection.limit) (addend : entry.addend = 0)
    (howto : entry.howto = mipsElf32RtypeToHowto .rMips16Hi16 ∨
      entry.howto = mipsElf32RtypeToHowto .rMips16Lo16) :
    let r := bfdMipsElfGenericReloc lib order entry symbol data inputSection false s
    r.status = .ok ∧ r.state.mipsHi16List = s.mipsHi16List ∧
      immediate order entry.howto.type (r.state.mem data) entry.address.toNat =
        immediate order entry.howto.type (s.mem data) entry.address.toNat +
          (symbol.address >>> entry.howto.rightshift).setWidth 16 ∧
      ∀ i, i < entry.address.toNat ∨ entry.address.toNat + 4 ≤ i → r.state.mem data i = s.mem data i := by
  have layout : entry.howto.WordField ∧ entry.howto.complainOnOverflow = .dont ∧
      entry.howto.pcRelative = false ∧ entry.howto.bitpos = 0 ∧ entry.howto.bitsize = 16 := by
    rcases howto with high | low
    · rw [high]
      decide
    · rw [low]
      decide
  rcases layout with ⟨word, dont, absolute, position, size⟩
  have value : fieldAdjustment entry symbol inputSection false + entry.addend = symbol.address := by
    simp [fieldAdjustment, Asymbol.address, absolute, addend]
  have stores := generic_reloc_stores order lib entry symbol data inputSection s inside
  rw [value] at stores
  have field := relocate_field_word order (s.mem data) entry.address.toNat sums entry.howto word symbol.address
  refine ⟨?_, ?_, ?_, ?_⟩
  · rw [stores.1]
    exact silent entry.howto order _ _ _ dont
  · rw [stores.2]
    rfl
  · rw [stores.2, RelocState.setData_mem, immediate, field.1, position, size]
    exact BitField.field_addField 0 16 (by decide) _ _
  · intro i outside
    rw [stores.2, RelocState.setData_mem]
    exact field.2 i outside

theorem Arelent.Apart.symm {a b : Arelent} (apart : a.Apart b) : b.Apart a := Or.symm apart

theorem immediate_congr (rType : MipsReloc) {d d' : Store} {loc : Nat}
    (same : ∀ i, loc ≤ i → i < loc + 4 → d i = d' i) :
    immediate order rType d loc = immediate order rType d' loc := by
  rw [immediate, immediate, instruction_word_congr order rType loc same]

/-- Each of the high parts is increased by the high half of the address, and no other byte changes. -/
structure HighsMoved (order : Endian) (symbol : Asymbol) (pending : List MipsHi16) (d d' : Store) : Prop where
  moved : ∀ hi ∈ pending, immediate order .rMips16Hi16 d' hi.rel.address.toNat =
    immediate order .rMips16Hi16 d hi.rel.address.toNat + (symbol.address >>> 16).setWidth 16
  elsewhere : ∀ i, (∀ hi ∈ pending, i < hi.rel.address.toNat ∨ hi.rel.address.toNat + 4 ≤ i) → d' i = d i

variable {order} in
theorem HighsMoved.cons {symbol : Asymbol} {hi : MipsHi16} {next : List MipsHi16} {d d' d'' : Store}
    (first : HighsMoved order symbol [hi] d d') (rest : HighsMoved order symbol next d' d'')
    (apart : ∀ other ∈ next, hi.rel.Apart other.rel) : HighsMoved order symbol (hi :: next) d d'' where
  moved hi' member := by
    rcases List.mem_cons.mp member with rfl | later
    · rw [← first.moved hi' List.mem_cons_self]
      apply immediate_congr
      intro i above below
      apply rest.elsewhere
      intro other isNext
      have disjoint := apart other isNext
      unfold Arelent.Apart at disjoint
      omega
    · have same : ∀ i, hi'.rel.address.toNat ≤ i → i < hi'.rel.address.toNat + 4 → d' i = d i := by
        intro i above below
        apply first.elsewhere
        intro single isHi
        rw [List.mem_singleton.mp isHi]
        have disjoint := apart hi' later
        unfold Arelent.Apart at disjoint
        omega
      rw [rest.moved hi' later, immediate_congr order .rMips16Hi16 same]
  elsewhere i outside := by
    rw [rest.elsewhere i fun later member => outside later (List.mem_cons_of_mem _ member)]
    apply first.elsewhere
    intro single isHi
    rw [List.mem_singleton.mp isHi]
    exact outside hi List.mem_cons_self

theorem WaitingHigh.relocated (sums : lib.StoresSum) (silent : lib.NeverComplains) {inputSection : Asection}
    {data : DataPtr} (symbol : Asymbol) {hi : MipsHi16} (waiting : WaitingHigh inputSection data hi)
    (s : RelocState) :
    let r := bfdMipsElfGenericReloc lib order hi.rel symbol hi.data hi.inputSection false s
    r.status = .ok ∧ HighsMoved order symbol [hi] (s.mem data) (r.state.mem data) := by
  have step := mips16_reloc_immediate order sums silent hi.rel symbol hi.data hi.inputSection s
    waiting.inside waiting.addend (Or.inl waiting.howto)
  rcases step with ⟨ok, _, field, elsewhere⟩
  rw [waiting.howto, waiting.data_eq] at field
  refine ⟨ok, ⟨?_, ?_⟩⟩
  · intro single isHi
    rw [List.mem_singleton.mp isHi]
    rw [waiting.data_eq]
    exact field
  · intro i outside
    have apart := outside hi List.mem_cons_self
    rw [← waiting.data_eq]
    exact elsewhere i apart

theorem drain_waiting (sums : lib.StoresSum) (silent : lib.NeverComplains) {inputSection : Asection}
    {data : DataPtr} (symbol : Asymbol) (pending : List MipsHi16)
    (waiting : ∀ hi ∈ pending, WaitingHigh inputSection data hi)
    (apart : pending.Pairwise fun a b => a.rel.Apart b.rel) (s : RelocState) :
    (drainHi16List lib order symbol data false pending s).1 = .ok ∧
      HighsMoved order symbol pending (s.mem data)
        ((drainHi16List lib order symbol data false pending s).2.mem data) := by
  induction pending generalizing s with
  | nil => exact ⟨rfl, fun _ member => absurd member List.not_mem_nil, fun _ _ => rfl⟩
  | cons hi next ih =>
      have own := waiting hi List.mem_cons_self
      have plain : hi.withHi16Howto = hi := by
        rw [MipsHi16.withHi16Howto, own.howto]
        rfl
      have step := own.relocated order sums silent symbol s
      rw [drainHi16List, plain]
      generalize bfdMipsElfGenericReloc lib order hi.rel symbol hi.data hi.inputSection false s = r at step
      rcases step with ⟨ok, first⟩
      have rest := ih (fun later member => waiting later (List.mem_cons_of_mem _ member))
        (List.pairwise_cons.mp apart).2
        { r.state with history := r.state.history ++ [PendingQueue.Event.drained hi (symbol, data)] }
      simp only [ok, ne_eq, not_true_eq_false, if_false, reduceCtorEq]
      exact ⟨rest.1, first.cons rest.2 (List.pairwise_cons.mp apart).1⟩

namespace Mips16Site

variable (site : Mips16Site)

def link (lib : BfdLib) (order : Endian) (symbol : Asymbol) (data : DataPtr) (s : RelocState) : SpecialResult :=
  let queued := site.highs.foldl
    (fun s hi => (bfdMipsElfHi16Reloc hi data site.inputSection false s).state) s
  bfdMipsElfLo16Reloc lib order site.low symbol data site.inputSection false queued

def lowPart (order : Endian) (d : Store) : BitVec 16 :=
  immediate order .rMips16Lo16 d site.low.address.toNat

/-- The address that a high part makes with the low part, which the instruction sign-extends. -/
def loaded (order : Endian) (hi : Arelent) (d : Store) : Int :=
  (highPart order hi d).toNat * 2 ^ 16 + (site.lowPart order d).toInt

theorem queue_highs (data : DataPtr) (highs : List Arelent)
    (inside : ∀ hi ∈ highs, ¬ hi.address > site.inputSection.limit) (s : RelocState) :
    let queued := highs.foldl (fun s hi => (bfdMipsElfHi16Reloc hi data site.inputSection false s).state) s
    queued.mem = s.mem ∧ queued.mipsHi16List =
      (highs.map fun hi => (⟨data, site.inputSection, hi⟩ : MipsHi16)).reverse ++ s.mipsHi16List := by
  induction highs generalizing s with
  | nil => exact ⟨rfl, rfl⟩
  | cons hi highs ih =>
      have rest := ih (fun later member => inside later (List.mem_cons_of_mem _ member))
        (bfdMipsElfHi16Reloc hi data site.inputSection false s).state
      have own := inside hi List.mem_cons_self
      simp only [List.foldl_cons, List.map_cons, List.reverse_cons, List.append_assoc]
      rw [rest.1, rest.2]
      simp only [bfdMipsElfHi16Reloc, if_neg own]
      exact ⟨trivial, rfl⟩

def look (order : Endian) (d : Store) : Store :=
  bfdMipsElfRelocShuffle order .rMips16Lo16 false
    (bfdMipsElfRelocUnshuffle order .rMips16Lo16 false d site.low.address.toNat) site.low.address.toNat

theorem look_low (d : Store) : site.lowPart order (site.look order d) = site.lowPart order d := by
  rw [lowPart, immediate, look, instruction_word_shuffle]
  rfl

theorem look_apart (d : Store) (i : Nat)
    (outside : i < site.low.address.toNat ∨ site.low.address.toNat + 4 ≤ i) : site.look order d i = d i := by
  rw [look, shuffle_outside _ _ _ _ _ _ outside, unshuffle_outside _ _ _ _ _ _ outside]

theorem low_type : site.low.howto.type = .rMips16Lo16 := by
  rw [site.lowHowto]
  rfl

def queue (data : DataPtr) : List MipsHi16 :=
  (site.highs.map fun hi => (⟨data, site.inputSection, hi⟩ : MipsHi16)).reverse

theorem mem_queue {data : DataPtr} {hi : MipsHi16} :
    hi ∈ site.queue data ↔ ∃ rel ∈ site.highs, hi = ⟨data, site.inputSection, rel⟩ := by
  rw [queue, List.mem_reverse, List.mem_map]
  exact ⟨fun ⟨rel, isHigh, same⟩ => ⟨rel, isHigh, same.symm⟩, fun ⟨rel, isHigh, same⟩ => ⟨rel, isHigh, same.symm⟩⟩

theorem queue_waiting (data : DataPtr) : ∀ hi ∈ site.queue data, WaitingHigh site.inputSection data hi := by
  intro hi member
  rcases site.mem_queue.mp member with ⟨rel, isHigh, rfl⟩
  exact ⟨site.highHowto rel isHigh, site.inside rel (List.mem_append_left _ isHigh),
    site.addend rel (List.mem_append_left _ isHigh), rfl, rfl⟩

theorem queue_apart (data : DataPtr) : (site.queue data).Pairwise fun a b => a.rel.Apart b.rel := by
  rw [queue, List.pairwise_reverse, List.pairwise_map]
  exact (List.pairwise_append.mp site.apart).1.imp fun apart => apart.symm

theorem low_apart {hi : Arelent} (member : hi ∈ site.highs) :
    hi.address.toNat + 4 ≤ site.low.address.toNat ∨ site.low.address.toNat + 4 ≤ hi.address.toNat := by
  have apart := (List.pairwise_append.mp site.apart).2.2 hi member site.low (by simp)
  unfold Arelent.Apart at apart
  omega

theorem link_drains (lib : BfdLib) (symbol : Asymbol) (data : DataPtr) (s : RelocState) (empty : s.mipsHi16List = []) :
    ∃ q : RelocState, q.mem = s.mem ∧
      let drained := drainHi16List lib order symbol data false (site.queue data)
        (q.setData data (site.look order (s.mem data)))
      drained.1 = .ok → site.link lib order symbol data s =
        bfdMipsElfGenericReloc lib order site.low symbol data site.inputSection false drained.2 := by
  have queued := site.queue_highs data site.highs
    (fun hi member => site.inside hi (List.mem_append_left _ member)) s
  have lowInside := site.inside site.low (by simp)
  rw [empty, List.append_nil] at queued
  simp only [link, bfdMipsElfLo16Reloc, if_neg lowInside]
  generalize site.highs.foldl
    (fun s hi => (bfdMipsElfHi16Reloc hi data site.inputSection false s).state) s = q at queued
  rcases queued with ⟨sameMem, list⟩
  refine ⟨q, sameMem, ?_⟩
  rw [site.low_type, sameMem, RelocState.setData_list, list, ← queue, ← look]
  intro ok
  rw [if_neg (not_not.mpr ok)]

theorem link_parts (sums : lib.StoresSum) (silent : lib.NeverComplains) (symbol : Asymbol) (data : DataPtr)
    (s : RelocState) (empty : s.mipsHi16List = []) :
    let r := site.link lib order symbol data s
    r.status = .ok ∧
      (∀ hi ∈ site.highs, highPart order hi (r.state.mem data) =
        highPart order hi (s.mem data) + (symbol.address >>> 16).setWidth 16) ∧
      site.lowPart order (r.state.mem data) = site.lowPart order (s.mem data) + symbol.address.setWidth 16 := by
  have lowInside := site.inside site.low (by simp)
  have lowAddend := site.addend site.low (by simp)
  rcases site.link_drains order lib symbol data s empty with ⟨q, _, result⟩
  have drained := drain_waiting order sums silent symbol (site.queue data) (site.queue_waiting data)
    (site.queue_apart data) (q.setData data (site.look order (s.mem data)))
  rw [RelocState.setData_mem] at drained
  rcases drained with ⟨ok, moved⟩
  rw [result ok]
  set t := (drainHi16List lib order symbol data false (site.queue data)
    (q.setData data (site.look order (s.mem data)))).2
  have last := mips16_reloc_immediate order sums silent site.low symbol data site.inputSection t
    lowInside lowAddend (Or.inr site.lowHowto)
  rcases last with ⟨lastOk, _, field, elsewhere⟩
  refine ⟨lastOk, ?_, ?_⟩
  · intro hi member
    have own := moved.moved _ (site.mem_queue.mpr ⟨hi, member, rfl⟩)
    have disjoint := site.low_apart member
    have same : ∀ i, hi.address.toNat ≤ i → i < hi.address.toNat + 4 →
        site.look order (s.mem data) i = s.mem data i :=
      fun i above below => site.look_apart order _ i (by omega)
    rw [highPart, highPart, immediate_congr order .rMips16Hi16 fun i above below => elsewhere i (by omega), own,
      immediate_congr order .rMips16Hi16 same]
  · rw [site.low_type] at field
    have kept : site.lowPart order (t.mem data) = site.lowPart order (site.look order (s.mem data)) := by
      rw [lowPart, lowPart]
      apply immediate_congr order .rMips16Lo16
      intro i above below
      apply moved.elsewhere i
      intro hi member
      rcases site.mem_queue.mp member with ⟨rel, isHigh, rfl⟩
      have disjoint := site.low_apart isHigh
      change i < rel.address.toNat ∨ rel.address.toNat + 4 ≤ i
      omega
    calc
      _ = site.lowPart order (t.mem data) + symbol.address.setWidth 16 := by
        rw [lowPart, field, site.lowHowto]
        change _ + (symbol.address >>> 0).setWidth 16 = _
        rw [BitVec.ushiftRight_zero, lowPart]
      _ = site.lowPart order (s.mem data) + symbol.address.setWidth 16 := by rw [kept, look_low]

theorem loaded_moved_iff (symbol : Asymbol) (hi : Arelent) (d d' : Store)
    (high : highPart order hi d' = highPart order hi d + (symbol.address >>> 16).setWidth 16)
    (low : site.lowPart order d' = site.lowPart order d + symbol.address.setWidth 16) :
    site.loaded order hi d' ≡ symbol.address.toNat + site.loaded order hi d [ZMOD 2 ^ 32] ↔
      symbol.address.toNat % 2 ^ 16 + (site.lowPart order d).toInt < 2 ^ 15 := by
  have parts := SplitSum.add_signed_parts_iff (2 ^ 15) (2 ^ 16) (by decide)
    (highPart order hi d).toNat (site.lowPart order d).toInt symbol.address.toNat
    (by have := (site.lowPart order d).le_toInt; omega) (by have := (site.lowPart order d).toInt_lt; omega)
  have lowMoved : (site.lowPart order d').toInt =
      ((site.lowPart order d).toInt + symbol.address.toNat).bmod (2 ^ 16) := by
    rw [low, BitVec.toInt_add, BitVec.toInt_setWidth, Int.add_bmod_bmod]
  have highMoved : ((highPart order hi d').toNat : Int) * 2 ^ 16 ≡
      ((highPart order hi d).toNat + symbol.address.toNat / 2 ^ 16) * 2 ^ 16 [ZMOD 2 ^ 32] := by
    rw [high, BitVec.toNat_add, BitVec.toNat_setWidth, BitVec.toNat_ushiftRight,
      Nat.shiftRight_eq_div_pow, Nat.add_mod_mod]
    push_cast
    exact (Int.mod_modEq _ (2 ^ 16)).mul_right'
  rw [loaded, loaded, lowMoved]
  constructor
  · intro same
    exact parts.mp ((highMoved.add_right _).symm.trans same)
  · intro fits
    exact (highMoved.add_right _).trans (parts.mpr fits)

end Mips16Site

/-- Every high part makes the address with the low part exactly when the low half of the symbol and
the signed low addend do not carry. -/
theorem mips16_high_parts_iff {lib : BfdLib} {order : Endian} (sums : lib.StoresSum)
    (silent : lib.NeverComplains) (site : Mips16Site) (some : site.highs ≠ []) (symbol : Asymbol)
    (data : DataPtr) (s : RelocState) (empty : s.mipsHi16List = []) :
    (∀ hi ∈ site.highs, site.loaded order hi ((site.link lib order symbol data s).state.mem data) ≡
        symbol.address.toNat + site.loaded order hi (s.mem data) [ZMOD 2 ^ 32]) ↔
      symbol.address.toNat % 2 ^ 16 + (site.lowPart order (s.mem data)).toInt < 2 ^ 15 := by
  have parts := site.link_parts order sums silent symbol data s empty
  rcases parts with ⟨_, highs, low⟩
  constructor
  · intro law
    rcases List.exists_mem_of_ne_nil _ some with ⟨hi, member⟩
    exact (site.loaded_moved_iff order symbol hi _ _ (highs hi member) low).mp (law hi member)
  · intro fits hi member
    exact (site.loaded_moved_iff order symbol hi _ _ (highs hi member) low).mpr fits

def sampleHighs : Mips16Site where
  inputSection := sectionAt 0x1000 12
  highs := [relocAt .rMips16Hi16 0 (symbolAt 0 0), relocAt .rMips16Hi16 4 (symbolAt 0 0)]
  low := relocAt .rMips16Lo16 8 (symbolAt 0 0)
  highHowto := by
    intro hi member
    simp only [List.mem_cons, List.not_mem_nil, or_false] at member
    rcases member with rfl | rfl <;> rfl
  lowHowto := rfl
  inside := by decide
  addend := by decide
  apart := by
    simp only [List.cons_append, List.nil_append, List.pairwise_cons]
    simp [Arelent.Apart, relocAt]

theorem mips16_high_parts_low_half :
    let hi := relocAt .rMips16Hi16 4 (symbolAt 0 0)
    sampleHighs.loaded .big hi
        ((sampleHighs.link referenceLib .big (symbolAt 0x400000 0x1234) 0 (startState fun _ => 0)).state.mem 0) ≡
      (symbolAt 0x400000 0x1234).address.toNat + sampleHighs.loaded .big hi (fun _ => 0) [ZMOD 2 ^ 32] :=
  (mips16_high_parts_iff reference_stores_sum reference_never_complains sampleHighs (by decide)
    (symbolAt 0x400000 0x1234) 0 (startState fun _ => 0) rfl).mpr (by decide) _ (by simp [sampleHighs])

theorem mips16_high_parts_carry_lost :
    ¬ ∀ hi ∈ sampleHighs.highs,
      sampleHighs.loaded .big hi
          ((sampleHighs.link referenceLib .big (symbolAt 0x400000 0x9234) 0 (startState fun _ => 0)).state.mem 0) ≡
        (symbolAt 0x400000 0x9234).address.toNat + sampleHighs.loaded .big hi (fun _ => 0) [ZMOD 2 ^ 32] := by
  intro law
  have first := law (relocAt .rMips16Hi16 0 (symbolAt 0 0)) (by simp [sampleHighs])
  revert first
  decide

end Openisa.Bfd
