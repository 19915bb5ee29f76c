import Openisa.Dynamic.PltSlots

/-! The lazy-binding stubs: how much room they get, and which stub is whose. -/

namespace Openisa.Stubs

open Openisa.Bfd
open Openisa.Elf
open Openisa.Dynamic
open Openisa.Library

variable {η : Type}

/-- The symbols, the count of their stubs and the section `.MIPS.stubs`. -/
structure LazyState (η : Type) where
  symbol : η → MipsSymbol η
  lazyStubCount : Nat
  functionStubSize : Nat
  sstubs : Nat

def functionStubNormalSize : Nat := 16
def functionStubBigSize : Nat := 20

/-- An entry is added behind the stubs. Their size depends on a worst-case estimate of the dynamic symbols. -/
def mipsElfEstimateStubSize (dynsymcount : Nat) (st : LazyState η) : LazyState η :=
  if st.lazyStubCount = 0 then st else
  let size := if 0x10000 < dynsymcount then functionStubBigSize else functionStubNormalSize
  { st with
    lazyStubCount := st.lazyStubCount + 1
    functionStubSize := size
    sstubs := (st.lazyStubCount + 1) * size }

section Allocate

variable [DecidableEq η]

def mipsElfForbidLazyStubs (st : LazyState η) (h : η) : LazyState η :=
  if (st.symbol h).needsLazyStub then
    { st with
      symbol := Function.update st.symbol h { st.symbol h with needsLazyStub := false }
      lazyStubCount := st.lazyStubCount - 1 }
  else st

def assignStub (sec : Option ElfSection) (offset : Nat) (s : MipsSymbol η) : MipsSymbol η :=
  { s with
    entry := { s.entry with sec := sec, value := BitVec.ofNat 64 offset }
    pltOffset := some offset }

def mipsElfAllocateLazyStub (sec : Option ElfSection) (st : LazyState η) (h : η) : LazyState η :=
  if (st.symbol h).needsLazyStub then
    { st with
      symbol := Function.update st.symbol h (assignStub sec st.sstubs (st.symbol h))
      sstubs := st.sstubs + st.functionStubSize }
  else st

def mipsElfLayOutLazyStubs (sec : Option ElfSection) (order : List η) (st : LazyState η) : LazyState η :=
  if st.lazyStubCount = 0 then st else
  let allocated := order.foldl (mipsElfAllocateLazyStub sec) { st with sstubs := 0 }
  { allocated with sstubs := allocated.sstubs + allocated.functionStubSize }

/-- The stubs as `_bfd_mips_elf_size_dynamic_sections` gives them out: the secondary GOTs are made in between. -/
def sizeLazyStubs (sec : Option ElfSection) (dynsymcount : Nat) (forbidden order : List η) (st : LazyState η) :
    LazyState η :=
  mipsElfLayOutLazyStubs sec order (forbidden.foldl mipsElfForbidLazyStubs (mipsElfEstimateStubSize dynsymcount st))

end Allocate

structure LazyCounted (st : LazyState η) (marked : List η) (count : Nat) : Prop where
  distinct : marked.Nodup
  lazy : ∀ h, (st.symbol h).needsLazyStub = true ↔ h ∈ marked
  count : st.lazyStubCount = marked.length + count

structure Forbidden (st st' : LazyState η) : Prop where
  symbol : ∀ h, st'.symbol h = { st.symbol h with needsLazyStub := (st'.symbol h).needsLazyStub }
  size : st'.functionStubSize = st.functionStubSize

theorem Forbidden.trans {a b c : LazyState η} (first : Forbidden a b) (second : Forbidden b c) : Forbidden a c where
  symbol h := by
    rw [second.symbol h, first.symbol h]
  size := second.size.trans first.size

section Forbid

variable [DecidableEq η] {st : LazyState η} {marked : List η} {count : Nat}

theorem forbid_counted (counted : LazyCounted st marked count) (h : η) :
    LazyCounted (mipsElfForbidLazyStubs st h) (marked.erase h) count := by
  unfold mipsElfForbidLazyStubs
  split
  · next needs =>
    have member := (counted.lazy h).mp needs
    have positive := List.length_pos_of_mem member
    refine ⟨counted.distinct.erase h, fun g => ?_, ?_⟩
    · rw [counted.distinct.mem_erase_iff]
      by_cases own : g = h
      · subst own
        simp
      · dsimp only
        rw [Function.update_of_ne own, counted.lazy g]
        exact ⟨fun old => ⟨own, old⟩, fun kept => kept.2⟩
    · dsimp only
      rw [counted.count, List.length_erase_of_mem member]
      omega
  · next idle =>
    have absent : h ∉ marked := fun member => idle ((counted.lazy h).mpr member)
    rw [List.erase_of_not_mem absent]
    exact counted

theorem forbid_symbol (st : LazyState η) (h : η) : Forbidden st (mipsElfForbidLazyStubs st h) := by
  unfold mipsElfForbidLazyStubs
  split
  · refine ⟨fun g => ?_, rfl⟩
    by_cases own : g = h
    · subst own
      simp
    · simp [Function.update_of_ne own]
  · exact ⟨fun _ => rfl, rfl⟩

theorem forbid_run (counted : LazyCounted st marked count) (forbidden : List η) :
    (∃ kept ⊆ marked, LazyCounted (forbidden.foldl mipsElfForbidLazyStubs st) kept count) ∧
      Forbidden st (forbidden.foldl mipsElfForbidLazyStubs st) := by
  have run := Run.of_foldl mipsElfForbidLazyStubs forbidden st
  have kept : ∀ h ∈ forbidden, ∀ s t, t = mipsElfForbidLazyStubs s h →
      (∃ kept ⊆ marked, LazyCounted s kept count) ∧ Forbidden st s →
        (∃ kept ⊆ marked, LazyCounted t kept count) ∧ Forbidden st t := by
    rintro h - s t rfl ⟨⟨kept, fewer, counted⟩, same⟩
    exact ⟨⟨kept.erase h, fun g member => fewer (List.mem_of_mem_erase member), forbid_counted counted h⟩,
      same.trans (forbid_symbol s h)⟩
  exact run.invariant kept ⟨⟨marked, List.Subset.refl marked, counted⟩, ⟨fun _ => rfl, rfl⟩⟩

end Forbid

/-- While stubs are given out: those numbered so far have the stubs in that order. -/
structure Allocated (sec : Option ElfSection) (start st : LazyState η) (number : η → Option Nat) (owners : List η) :
    Prop where
  numbered : Numbered number owners
  symbol : ∀ h, st.symbol h =
    match number h with
    | none => start.symbol h
    | some k => assignStub sec (start.functionStubSize * k) (start.symbol h)
  sstubs : st.sstubs = start.functionStubSize * owners.length
  count : st.lazyStubCount = start.lazyStubCount
  size : st.functionStubSize = start.functionStubSize

section Allocated

variable [DecidableEq η] {sec : Option ElfSection} {start st : LazyState η} {number : η → Option Nat} {owners : List η}

theorem allocate_one (allocated : Allocated sec start st number owners) {h : η} (new : number h = none)
    (needs : (start.symbol h).needsLazyStub = true) :
    Allocated sec start (mipsElfAllocateLazyStub sec st h) (Function.update number h (some owners.length))
      (owners ++ [h]) := by
  have own : st.symbol h = start.symbol h := by
    have symbol := allocated.symbol h
    rwa [new] at symbol
  unfold mipsElfAllocateLazyStub
  rw [if_pos (own ▸ needs)]
  refine ⟨allocated.numbered.append new, fun g => ?_, ?_, allocated.count, allocated.size⟩
  · by_cases same : g = h
    · subst same
      simp [own, allocated.sstubs]
    · simpa [same] using allocated.symbol g
  · dsimp only
    rw [allocated.sstubs, allocated.size, List.length_append, List.length_singleton, Nat.mul_add, Nat.mul_one]

theorem allocate_run (allocated : Allocated sec start st number owners) (order : List η) (once : order.Nodup)
    (new : ∀ h ∈ order, number h = none) :
    ∃ number, Allocated sec start (order.foldl (mipsElfAllocateLazyStub sec) st) number
      (owners ++ order.filter fun h => (start.symbol h).needsLazyStub) := by
  induction order generalizing st number owners with
  | nil => exact ⟨number, by simpa using allocated⟩
  | cons h order ih =>
    obtain ⟨absent, rest⟩ := List.nodup_cons.mp once
    have unnumbered := new h List.mem_cons_self
    rw [List.foldl_cons]
    by_cases needs : (start.symbol h).needsLazyStub = true
    · have others : ∀ g ∈ order, Function.update number h (some owners.length) g = none := by
        intro g member
        have other : g ≠ h := fun same => absent (same ▸ member)
        rw [Function.update_of_ne other]
        exact new g (List.mem_cons_of_mem h member)
      obtain ⟨number', allocated'⟩ := ih (allocate_one allocated unnumbered needs) rest others
      exact ⟨number', by simpa [needs] using allocated'⟩
    · have own : st.symbol h = start.symbol h := by
        have symbol := allocated.symbol h
        rwa [unnumbered] at symbol
      have idle : mipsElfAllocateLazyStub sec st h = st := by
        rw [mipsElfAllocateLazyStub, own, if_neg needs]
      obtain ⟨number', allocated'⟩ := ih allocated rest fun g member => new g (List.mem_cons_of_mem h member)
      rw [idle]
      exact ⟨number', by simpa [needs] using allocated'⟩

end Allocated

/-- The stubs of the symbols lie one behind the other, and one more at their end is nobody's. -/
structure LazyLaid (dynsymcount : Nat) (before after : LazyState η) (number : η → Option Nat) (owners : List η) :
    Prop where
  numbered : Numbered number owners
  owner : ∀ h, h ∈ owners ↔ (after.symbol h).needsLazyStub = true
  needed : ∀ h ∈ owners, (before.symbol h).needsLazyStub = true
  noFnStub : ∀ h, (after.symbol h).noFnStub = (before.symbol h).noFnStub
  offset : ∀ h, (after.symbol h).pltOffset =
    match number h with
    | none => (before.symbol h).pltOffset
    | some k => some (after.functionStubSize * k)
  assertion : after.sstubs = after.lazyStubCount * after.functionStubSize
  count : after.lazyStubCount = if before.lazyStubCount = 0 then 0 else owners.length + 1
  size : owners ≠ [] →
    after.functionStubSize = if 0x10000 < dynsymcount then functionStubBigSize else functionStubNormalSize

section Size

variable [DecidableEq η] {st : LazyState η} {marked : List η}

omit [DecidableEq η] in
theorem estimate_counted (counted : LazyCounted st marked 0) (some : st.lazyStubCount ≠ 0) (dynsymcount : Nat) :
    LazyCounted (mipsElfEstimateStubSize dynsymcount st) marked 1 ∧
      (mipsElfEstimateStubSize dynsymcount st).symbol = st.symbol ∧
      (mipsElfEstimateStubSize dynsymcount st).functionStubSize =
        if 0x10000 < dynsymcount then functionStubBigSize else functionStubNormalSize := by
  unfold mipsElfEstimateStubSize
  rw [if_neg some]
  exact ⟨⟨counted.distinct, counted.lazy, by rw [← Nat.add_zero marked.length, ← counted.count]⟩, rfl, rfl⟩

theorem size_none (counted : LazyCounted st marked 0) (none : st.lazyStubCount = 0) (sec : Option ElfSection)
    (dynsymcount : Nat) (forbidden order : List η) : sizeLazyStubs sec dynsymcount forbidden order st = st := by
  have empty : marked = [] := List.length_eq_zero_iff.mp (by have := counted.count; omega)
  have unneeded : ∀ h, (st.symbol h).needsLazyStub = false := by
    intro h
    have lazy := counted.lazy h
    simpa [empty] using lazy
  have idle : forbidden.foldl mipsElfForbidLazyStubs st = st := by
    induction forbidden with
    | nil => rfl
    | cons h forbidden ih =>
      have skip : mipsElfForbidLazyStubs st h = st := by
        rw [mipsElfForbidLazyStubs, if_neg (by simp [unneeded h])]
      rw [List.foldl_cons, skip]
      exact ih
  rw [sizeLazyStubs, mipsElfEstimateStubSize, if_pos none, idle, mipsElfLayOutLazyStubs, if_pos none]

/-- Whatever symbols the secondary GOTs take stubs from, and in whatever order the symbols are traversed: each of the
others gets a stub of its own, and the section has the size that the count asks for. -/
theorem LazyCounted.laid (counted : LazyCounted st marked 0) (fresh : st.sstubs = 0) (sec : Option ElfSection)
    (dynsymcount : Nat) (forbidden order : List η) (once : order.Nodup) (all : ∀ h ∈ marked, h ∈ order) :
    ∃ number owners, LazyLaid dynsymcount st (sizeLazyStubs sec dynsymcount forbidden order st) number owners := by
  by_cases none : st.lazyStubCount = 0
  · rw [size_none counted none]
    have empty : marked = [] := List.length_eq_zero_iff.mp (by have := counted.count; omega)
    refine ⟨fun _ => .none, [], ⟨.nil fun _ => rfl, fun h => ?_, fun _ absent => absurd absent List.not_mem_nil,
      fun _ => rfl, fun _ => rfl, by rw [fresh, none, Nat.zero_mul], by rw [none, if_pos rfl],
      fun absent => absurd rfl absent⟩⟩
    rw [counted.lazy h, empty]
  · obtain ⟨estimated, symbols, size⟩ := estimate_counted counted none dynsymcount
    obtain ⟨⟨kept, fewer, left⟩, same⟩ := forbid_run estimated forbidden
    unfold sizeLazyStubs
    generalize forbidden.foldl mipsElfForbidLazyStubs (mipsElfEstimateStubSize dynsymcount st) = f at left same
    have some : f.lazyStubCount ≠ 0 := by
      rw [left.count]
      omega
    have start : Allocated sec { f with sstubs := 0 } { f with sstubs := 0 } (fun _ => .none) [] :=
      ⟨.nil fun _ => rfl, fun _ => rfl, rfl, rfl, rfl⟩
    obtain ⟨number, allocated⟩ := allocate_run start order once fun _ _ => rfl
    rw [List.nil_append] at allocated
    rw [mipsElfLayOutLazyStubs, if_neg some]
    generalize order.foldl (mipsElfAllocateLazyStub sec) { f with sstubs := 0 } = a at allocated
    have before : ∀ h, f.symbol h = { st.symbol h with needsLazyStub := (f.symbol h).needsLazyStub } := fun h => by
      rw [← symbols]
      exact same.symbol h
    have visited : ∀ h, h ∈ order.filter (fun h => (f.symbol h).needsLazyStub) ↔ h ∈ kept := by
      intro h
      rw [List.mem_filter, left.lazy h]
      exact ⟨fun both => both.2, fun member => ⟨all h (fewer member), member⟩⟩
    have length : (order.filter fun h => (f.symbol h).needsLazyStub).length = kept.length :=
      ((List.perm_ext_iff_of_nodup (once.filter _) left.distinct).mpr visited).length_eq
    have after : ∀ h, (a.symbol h).needsLazyStub = (f.symbol h).needsLazyStub ∧
        (a.symbol h).noFnStub = (st.symbol h).noFnStub ∧
        (a.symbol h).pltOffset = match number h with
          | .none => (st.symbol h).pltOffset
          | .some k => .some (f.functionStubSize * k) := by
      intro h
      rw [allocated.symbol h]
      cases number h with
      | none =>
        dsimp only
        rw [before h]
        exact ⟨rfl, rfl, rfl⟩
      | some k =>
        refine ⟨rfl, ?_, rfl⟩
        dsimp only [assignStub]
        rw [before h]
    refine ⟨number, _, ⟨allocated.numbered, fun h => ?_, fun h member => ?_, fun h => (after h).2.1, fun h => ?_, ?_, ?_,
      fun _ => ?_⟩⟩
    · rw [visited h, ← left.lazy h]
      exact (after h).1 ▸ Iff.rfl
    · exact (counted.lazy h).mpr (fewer ((visited h).mp member))
    · dsimp only
      rw [(after h).2.2, allocated.size]
    · dsimp only
      rw [allocated.sstubs, allocated.size, allocated.count, length]
      dsimp only
      rw [left.count, Nat.add_mul, Nat.one_mul, Nat.mul_comm]
    · rw [if_neg none, length]
      exact allocated.count.trans left.count
    · rw [← size, ← same.size]
      exact allocated.size

end Size

end Openisa.Stubs
