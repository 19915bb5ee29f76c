import Openisa.Header.Flags
import Openisa.Stubs.HiLoCode
import Openisa.Stubs.LazyLayout

/-! The code of the PLT entries and of the lazy-binding stubs of a 32-bit file, as the symbols are finished. -/

namespace Openisa.Stubs

open Openisa.Bfd
open Openisa.Elf
open Openisa.Dynamic
open Openisa.Header
open Openisa.Library
open Openisa.Library.ByteStore

def loadInterlocksP (flags : Flagword) : Bool :=
  flags &&& efMipsArch ≠ eMipsArch1 || flags &&& efMipsMach = eMipsMach3900

/-- The output file: the addresses of the sections and the size of a lazy-binding stub. -/
structure DynFile where
  order : Endian
  flags : Flagword
  n32 : Bool
  splt : BfdVma
  sgotplt : BfdVma
  sstubs : BfdVma
  functionStubSize : Nat

/-- The address of the word of `.got.plt` for an entry, behind the two reserved ones. -/
def DynFile.slotAddress (file : DynFile) (pltIndex : Nat) : BfdVma :=
  file.sgotplt + BitVec.ofNat 64 ((2 + pltIndex) * 4)

/-- A relocation of type `R_MIPS_JUMP_SLOT`. -/
structure JumpSlot where
  offset : BfdVma
  dynindx : Nat
  deriving DecidableEq, Repr

/-- What finishing a symbol sets of its entry in `.dynsym`. -/
structure DynSym where
  undef : Bool
  stoPlt : Bool
  value : BfdVma
  deriving DecidableEq, Repr

structure DynContents (η : Type) where
  splt : Store
  sgotplt : Store
  srelplt : Nat → Option JumpSlot
  sstubs : Store
  sym : η → DynSym

inductive FinishError where
  | indexTooLarge (dynindx : Nat)
  deriving DecidableEq, Repr

def mipsO32ExecPlt0Entry : List BfdVma :=
  [0x3c1c0000, 0x8f990000, 0x279c0000, 0x031cc023, 0x03e07821, 0x0018c082, 0x0320f809, 0x2718fffe]

def mipsN32ExecPlt0Entry : List BfdVma :=
  [0x3c0e0000, 0x8dd90000, 0x25ce0000, 0x030ec023, 0x03e07821, 0x0018c082, 0x0320f809, 0x2718fffe]

section Words

/-- The words of the header, which loads the first word of `.got.plt`. -/
def plt0Words (n32 : Bool) (gotplt : BfdVma) : List BfdVma :=
  List.zipWith (· ||| ·) (if n32 then mipsN32ExecPlt0Entry else mipsO32ExecPlt0Entry)
    [highOperand gotplt, lowOperand gotplt, lowOperand gotplt, 0, 0, 0, 0, 0]

/-- The words of an entry, which loads its own word of `.got.plt`. The jump comes last without load interlocks. -/
def pltEntryWords (interlocks : Bool) (gotAddress : BfdVma) : List BfdVma :=
  let upper := 0x3c0f0000 ||| highOperand gotAddress
  let loads := 0x01f90000 ||| lowOperand gotAddress ||| 0x8c000000
  let lower := 0x25f80000 ||| lowOperand gotAddress
  if interlocks then [upper, loads, 0x03200008, lower] else [upper, loads, lower, 0x03200008]

def stubWords (big : Bool) (dynindx : Nat) : List BfdVma :=
  let index : BfdVma := BitVec.ofNat 64 dynindx
  if big then
    [0x8f998010, 0x03e07821, 0x3c180000 + ((index >>> 16) &&& 0x7fff), 0x0320f809, 0x37180000 + (index &&& 0xffff)]
  else
    [0x8f998010, 0x03e07821, 0x0320f809,
      if dynindx < 0x8000 then 0x24180000 + index else 0x34180000 + (index &&& 0xffff)]

end Words

variable {η : Type}

/-- A PLT entry, its word of `.got.plt`, which leads to the header at first, and its relocation. -/
def finishPltEntry [DecidableEq η] (file : DynFile) (link : DynLink) (h : η) (s : MipsSymbol η) (dynindx offset : Nat)
    (c : DynContents η) : DynContents η :=
  let pltIndex := (offset - link.pltHeaderSize) / link.pltEntrySize
  let gotAddress := file.slotAddress pltIndex
  let sym := c.sym h
  { c with
    sgotplt := bfdPut32 file.order file.splt c.sgotplt ((2 + pltIndex) * 4)
    splt := putWords (bfdPut32 file.order) (pltEntryWords (loadInterlocksP file.flags) gotAddress) c.splt offset
    srelplt := Function.update c.srelplt pltIndex (some ⟨gotAddress, dynindx⟩)
    sym := Function.update c.sym h
      (if s.pointerEqualityNeeded then { sym with undef := true, stoPlt := true }
      else { sym with undef := true, value := 0 }) }

def finishLazyStub [DecidableEq η] (file : DynFile) (h : η) (dynindx offset : Nat) (c : DynContents η) : DynContents η :=
  { c with
    sstubs := putWords (bfdPut32 file.order) (stubWords (file.functionStubSize = functionStubBigSize) dynindx)
      c.sstubs offset
    sym := Function.update c.sym h { c.sym h with undef := true, value := file.sstubs + BitVec.ofNat 64 offset } }

/-- `_bfd_mips_elf_finish_dynamic_symbol`, as far as PLT entries and stubs go. Indices from 2 ^ 31 on would be
negative in a stub. -/
def finishDynamicSymbol [DecidableEq η] (file : DynFile) (link : DynLink) (symbol : η → MipsSymbol η) (dynindx : η → Nat)
    (c : DynContents η) (h : η) : Except FinishError (DynContents η) :=
  let s := symbol h
  match s.pltOffset with
  | none => .ok c
  | some offset =>
      if s.noFnStub then .ok (finishPltEntry file link h s (dynindx h) offset c)
      else if 2 ^ 31 ≤ dynindx h then .error (.indexTooLarge (dynindx h))
      else .ok (finishLazyStub file h (dynindx h) offset c)

def mipsFinishExecPlt (file : DynFile) (c : DynContents η) : DynContents η :=
  { c with splt := putWords (bfdPut32 file.order) (plt0Words file.n32 file.sgotplt) c.splt 0 }

/-- All dynamic symbols are finished, and then the PLT where there is one. -/
def finishDynamic [DecidableEq η] (file : DynFile) (link : DynLink) (plt : PltSections) (symbol : η → MipsSymbol η)
    (dynindx : η → Nat) (order : List η) (c : DynContents η) : Except FinishError (DynContents η) :=
  (order.foldlM (finishDynamicSymbol file link symbol dynindx) c).map fun finished =>
    if 0 < plt.splt then mipsFinishExecPlt file finished else finished

/-- The PLT entries and the stubs of the symbols, each numbered on its own. -/
structure DynPlaced (symbol : η → MipsSymbol η) (size : Nat) (pltNumber stubNumber : η → Option Nat)
    (pltOwners stubOwners : List η) : Prop where
  pltNumbered : Numbered pltNumber pltOwners
  stubNumbered : Numbered stubNumber stubOwners
  plt : ∀ h, (symbol h).noFnStub = true → (symbol h).pltOffset = (pltNumber h).map fun n => 32 + 16 * n
  stub : ∀ h, (symbol h).noFnStub = false → (symbol h).pltOffset = (stubNumber h).map fun k => size * k

theorem DynPlaced.plt_owners {symbol : η → MipsSymbol η} {size : Nat} {pltNumber stubNumber : η → Option Nat}
    {pltOwners stubOwners : List η} (placed : DynPlaced symbol size pltNumber stubNumber pltOwners stubOwners) {h : η}
    {n : Nat} (number : pltNumber h = some n) : pltOwners ≠ [] :=
  List.ne_nil_of_length_pos (Nat.zero_lt_of_lt (placed.pltNumbered.lt number))

theorem placed_of_sized [DecidableEq η] {adjusted : AdjustState η} {before after : LazyState η}
    {pltNumber stubNumber : η → Option Nat} {pltOwners marked stubOwners : List η} {dynsymcount : Nat}
    {link : DynLink} (slots : PltSlots link adjusted pltNumber pltOwners marked)
    (laid : LazyLaid dynsymcount before after stubNumber stubOwners) (start : before.symbol = adjusted.table.symbol) :
    DynPlaced after.symbol after.functionStubSize pltNumber stubNumber pltOwners stubOwners where
  pltNumbered := slots.numbered
  stubNumbered := laid.numbered
  plt h plain := by
    rw [laid.noFnStub, start] at plain
    have unmarked : stubNumber h = none := by
      by_contra given
      have owner : h ∈ stubOwners := laid.numbered.mem_iff.mpr (Option.isSome_iff_ne_none.mpr given)
      have needed := laid.needed h owner
      rw [start] at needed
      rw [slots.callsOnly h ((slots.lazy h).mp needed)] at plain
      cases plain
    rw [laid.offset, unmarked, start]
    exact slots.offset h
  stub h plain := by
    rw [laid.noFnStub, start] at plain
    have unassigned : pltNumber h = none := by
      by_contra given
      have owner : h ∈ pltOwners := slots.numbered.mem_iff.mpr (Option.isSome_iff_ne_none.mpr given)
      rw [slots.addressed h owner] at plain
      cases plain
    rw [laid.offset, start, slots.offset h, unassigned]
    cases stubNumber h <;> rfl

structure EntryCoded (file : DynFile) (n dynindx : Nat) (c : DynContents η) : Prop where
  words : WordsAt file.order c.splt (32 + 16 * n) (pltEntryWords (loadInterlocksP file.flags) (file.slotAddress n))
  slot : (bfdGet32 file.order c.sgotplt ((2 + n) * 4)).setWidth 32 = file.splt.setWidth 32
  reloc : c.srelplt n = some ⟨file.slotAddress n, dynindx⟩

def StubCoded (file : DynFile) (k dynindx : Nat) (c : DynContents η) : Prop :=
  WordsAt file.order c.sstubs (file.functionStubSize * k)
    (stubWords (file.functionStubSize = functionStubBigSize) dynindx)

/-- The entry in `.dynsym` of a finished symbol: undefined, with the address of its stub, or with none or a marked one
for a PLT entry. -/
structure SymFinished (file : DynFile) (s : MipsSymbol η) (stub : Option Nat) (sym : DynSym) : Prop where
  undef : sym.undef = true
  value : s.noFnStub = false → ∀ k, stub = some k → sym.value = file.sstubs + BitVec.ofNat 64 (file.functionStubSize * k)
  unequal : s.noFnStub = true → s.pointerEqualityNeeded = false → sym.value = 0
  equal : s.noFnStub = true → s.pointerEqualityNeeded = true → sym.stoPlt = true

section Finish

variable {file : DynFile}

theorem pltEntryWords_length (interlocks : Bool) (gotAddress : BfdVma) :
    (pltEntryWords interlocks gotAddress).length = 4 := by
  cases interlocks <;> rfl

theorem stubWords_length (size dynindx : Nat) (room : 16 ≤ size) :
    4 * (stubWords (size = functionStubBigSize) dynindx).length ≤ size := by
  by_cases big : size = functionStubBigSize
  · rw [decide_eq_true big, big]
    exact le_refl 20
  · rw [decide_eq_false big]
    exact room

variable [DecidableEq η] {link : DynLink} {c : DynContents η} {h : η} {s : MipsSymbol η} {n m k dynindx : Nat}

theorem finishPltEntry_coded (sizes : link.pltHeaderSize = 32 ∧ link.pltEntrySize = 16) (c : DynContents η) (h : η)
    (s : MipsSymbol η) (n dynindx : Nat) :
    EntryCoded file n dynindx (finishPltEntry file link h s dynindx (32 + 16 * n) c) := by
  have index : (32 + 16 * n - link.pltHeaderSize) / link.pltEntrySize = n := by
    rw [sizes.1, sizes.2]
    omega
  simp only [finishPltEntry, index]
  constructor
  · exact putWords_at file.order _ c.splt (32 + 16 * n)
  · exact bfdPut32_get file.order file.splt c.sgotplt ((2 + n) * 4)
  · exact Function.update_self n _ c.srelplt

theorem finishPltEntry_other (sizes : link.pltHeaderSize = 32 ∧ link.pltEntrySize = 16) (h : η) (s : MipsSymbol η)
    (dynindx' : Nat) (other : m ≠ n) (coded : EntryCoded file n dynindx c) :
    EntryCoded file n dynindx (finishPltEntry file link h s dynindx' (32 + 16 * m) c) := by
  have index : (32 + 16 * m - link.pltHeaderSize) / link.pltEntrySize = m := by
    rw [sizes.1, sizes.2]
    omega
  have length := pltEntryWords_length (loadInterlocksP file.flags)
  unfold finishPltEntry
  rw [index]
  refine ⟨coded.words.congr fun k low high => ?_, ?_, ?_⟩
  · rw [length] at high
    exact putWords_outside (bfdPut32_outside file.order) _ _ (by rw [length]; omega)
  · rw [← coded.slot, bfdGet32_congr file.order fun k low high => bfdPut32_outside file.order _ _ _ k (by omega)]
  · rw [← coded.reloc]
    exact Function.update_of_ne (Ne.symm other) _ _

theorem finishLazyStub_coded (file : DynFile) (c : DynContents η) (h : η) (k dynindx : Nat) :
    StubCoded file k dynindx (finishLazyStub file h dynindx (file.functionStubSize * k) c) :=
  putWords_at _ _ _ _

theorem finishLazyStub_other (room : 16 ≤ file.functionStubSize) (h : η) (dynindx' : Nat) (other : m ≠ k)
    (coded : StubCoded file k dynindx c) :
    StubCoded file k dynindx (finishLazyStub file h dynindx' (file.functionStubSize * m) c) := by
  have own := stubWords_length file.functionStubSize dynindx room
  have others := stubWords_length file.functionStubSize dynindx' room
  refine coded.congr fun i low high => putWords_outside (bfdPut32_outside file.order) _ _ ?_
  rcases Nat.lt_or_gt_of_ne other with before | behind
  · right
    have next : file.functionStubSize * (m + 1) ≤ file.functionStubSize * k := Nat.mul_le_mul_left _ before
    rw [Nat.mul_add, Nat.mul_one] at next
    omega
  · left
    have next : file.functionStubSize * (k + 1) ≤ file.functionStubSize * m := Nat.mul_le_mul_left _ behind
    rw [Nat.mul_add, Nat.mul_one] at next
    omega

structure FinishedSymbol (file : DynFile) (s : MipsSymbol η) (pltNumber stubNumber : Option Nat) (dynindx : Nat) (h : η)
    (c : DynContents η) : Prop where
  entry : s.noFnStub = true → ∀ n, pltNumber = some n → EntryCoded file n dynindx c
  stub : s.noFnStub = false → ∀ k, stubNumber = some k → StubCoded file k dynindx c ∧ dynindx < 2 ^ 31
  sym : s.pltOffset.isSome = true → SymFinished file s stubNumber (c.sym h)

variable {symbol : η → MipsSymbol η} {pltNumber stubNumber : η → Option Nat} {pltOwners stubOwners : List η}
  {index : η → Nat} {d : DynContents η} {g : η}

theorem finishDynamicSymbol_cases (placed : DynPlaced symbol file.functionStubSize pltNumber stubNumber pltOwners stubOwners)
    (ran : finishDynamicSymbol file link symbol index c g = .ok d) :
    ((symbol g).pltOffset = none ∧ d = c) ∨
      (∃ m, (symbol g).noFnStub = true ∧ pltNumber g = some m ∧
        d = finishPltEntry file link g (symbol g) (index g) (32 + 16 * m) c) ∨
      (∃ m, (symbol g).noFnStub = false ∧ stubNumber g = some m ∧ index g < 2 ^ 31 ∧
        d = finishLazyStub file g (index g) (file.functionStubSize * m) c) := by
  unfold finishDynamicSymbol at ran
  dsimp only at ran
  split at ran
  · next none =>
    cases ran
    exact .inl ⟨none, rfl⟩
  · next offset given =>
    split at ran
    · next addressed =>
      cases ran
      rw [placed.plt g addressed] at given
      obtain ⟨m, number, rfl⟩ := Option.map_eq_some_iff.mp given
      exact .inr (.inl ⟨m, addressed, number, rfl⟩)
    · next called =>
      have lazy : (symbol g).noFnStub = false := by simpa using called
      split at ran
      · cases ran
      · next small =>
        cases ran
        rw [placed.stub g lazy] at given
        obtain ⟨m, number, rfl⟩ := Option.map_eq_some_iff.mp given
        exact .inr (.inr ⟨m, lazy, number, by omega, rfl⟩)

theorem finish_brings (sizes : pltOwners ≠ [] → link.pltHeaderSize = 32 ∧ link.pltEntrySize = 16)
    (placed : DynPlaced symbol file.functionStubSize pltNumber stubNumber pltOwners stubOwners)
    (ran : finishDynamicSymbol file link symbol index c g = .ok d) :
    FinishedSymbol file (symbol g) (pltNumber g) (stubNumber g) (index g) g d := by
  rcases finishDynamicSymbol_cases placed ran with ⟨none, rfl⟩ | ⟨m, plain, number, rfl⟩ | ⟨m, plain, number, small, rfl⟩
  · refine ⟨fun plain n number => ?_, fun plain k number => ?_, fun given => by simp [none] at given⟩
    · rw [placed.plt g plain, number] at none
      cases none
    · rw [placed.stub g plain, number] at none
      cases none
  · refine ⟨fun _ n given => ?_, fun called => by simp [plain] at called, fun _ => ?_⟩
    · rw [number] at given
      cases given
      exact finishPltEntry_coded (sizes (placed.plt_owners number)) c g (symbol g) m (index g)
    · simp only [finishPltEntry, Function.update_self]
      refine ⟨?_, fun called => by simp [plain] at called, fun _ unequal => by simp [unequal],
        fun _ equal => by simp [equal]⟩
      split <;> rfl
  · refine ⟨fun addressed => by simp [plain] at addressed, fun _ k given => ?_, fun _ => ?_⟩
    · rw [number] at given
      cases given
      exact ⟨finishLazyStub_coded file c g m (index g), small⟩
    · simp only [finishLazyStub, Function.update_self]
      refine ⟨rfl, fun _ k given => ?_, fun addressed => by simp [plain] at addressed,
        fun addressed => by simp [plain] at addressed⟩
      rw [number] at given
      cases given
      rfl

theorem finish_keeps (sizes : pltOwners ≠ [] → link.pltHeaderSize = 32 ∧ link.pltEntrySize = 16)
    (placed : DynPlaced symbol file.functionStubSize pltNumber stubNumber pltOwners stubOwners)
    (room : stubOwners ≠ [] → 16 ≤ file.functionStubSize)
    (ran : finishDynamicSymbol file link symbol index c g = .ok d) (other : g ≠ h)
    (finished : FinishedSymbol file (symbol h) (pltNumber h) (stubNumber h) (index h) h c) :
    FinishedSymbol file (symbol h) (pltNumber h) (stubNumber h) (index h) h d := by
  rcases finishDynamicSymbol_cases placed ran with ⟨_, rfl⟩ | ⟨m, _, number, rfl⟩ | ⟨m, _, number, _, rfl⟩
  · exact finished
  · refine ⟨fun plain n given => ?_, fun plain k given => finished.stub plain k given, fun given => ?_⟩
    · have apart : m ≠ n := fun same => other (placed.pltNumbered.injective number (same ▸ given))
      exact finishPltEntry_other (sizes (placed.plt_owners number)) g (symbol g) (index g) apart (finished.entry plain n given)
    · simp only [finishPltEntry, Function.update_of_ne (Ne.symm other)]
      exact finished.sym given
  · refine ⟨fun plain n given => ?_, fun plain k given => ?_, fun given => ?_⟩
    · obtain ⟨words, slot, reloc⟩ := finished.entry plain n given
      exact ⟨words, slot, reloc⟩
    · have apart : m ≠ k := fun same => other (placed.stubNumbered.injective number (same ▸ given))
      have some : stubOwners ≠ [] := List.ne_nil_of_length_pos (Nat.zero_lt_of_lt (placed.stubNumbered.lt given))
      exact ⟨finishLazyStub_other (room some) g (index g) apart (finished.stub plain k given).1,
        (finished.stub plain k given).2⟩
    · simp only [finishLazyStub, Function.update_of_ne (Ne.symm other)]
      exact finished.sym given

theorem finish_beyond {start : DynContents η}
    (placed : DynPlaced symbol file.functionStubSize pltNumber stubNumber pltOwners stubOwners)
    (ran : finishDynamicSymbol file link symbol index c g = .ok d)
    (before : ∀ k, 32 + 16 * pltOwners.length ≤ k → c.splt k = start.splt k) :
    ∀ k, 32 + 16 * pltOwners.length ≤ k → d.splt k = start.splt k := by
  intro k high
  rw [← before k high]
  rcases finishDynamicSymbol_cases placed ran with ⟨_, rfl⟩ | ⟨m, _, number, rfl⟩ | ⟨m, _, _, _, rfl⟩
  · rfl
  · have below := placed.pltNumbered.lt number
    exact putWords_outside (bfdPut32_outside file.order) _ _ (.inr (by rw [pltEntryWords_length]; omega))
  · rfl

theorem plt0Words_length (n32 : Bool) (gotplt : BfdVma) : (plt0Words n32 gotplt).length = 8 := by
  cases n32 <;> rfl

omit [DecidableEq η] in
theorem mipsFinishExecPlt_keeps {number stub : Option Nat} (finished : FinishedSymbol file s number stub dynindx h c) :
    FinishedSymbol file s number stub dynindx h (mipsFinishExecPlt file c) where
  entry plain n given := by
    obtain ⟨words, slot, reloc⟩ := finished.entry plain n given
    refine ⟨words.congr fun k low _ => ?_, slot, reloc⟩
    exact putWords_outside (bfdPut32_outside file.order) _ _ (.inr (by rw [plt0Words_length]; omega))
  stub := finished.stub
  sym := finished.sym

/-- In whatever order the symbols are finished, each has its entry or its stub filled in at the end, and the PLT
has its header. -/
theorem finishDynamic_coded (sizes : pltOwners ≠ [] → link.pltHeaderSize = 32 ∧ link.pltEntrySize = 16)
    (placed : DynPlaced symbol file.functionStubSize pltNumber stubNumber pltOwners stubOwners)
    (room : stubOwners ≠ [] → 16 ≤ file.functionStubSize) {plt : PltSections} {order : List η}
    (ran : finishDynamic file link plt symbol index order c = .ok d) :
    (0 < plt.splt → WordsAt file.order d.splt 0 (plt0Words file.n32 file.sgotplt)) ∧
      (∀ h ∈ order, FinishedSymbol file (symbol h) (pltNumber h) (stubNumber h) (index h) h d) ∧
      ∀ k, 32 + 16 * pltOwners.length ≤ k → d.splt k = c.splt k := by
  obtain ⟨e, folded, rfl⟩ : ∃ e, order.foldlM (finishDynamicSymbol file link symbol index) c = .ok e ∧
      (if 0 < plt.splt then mipsFinishExecPlt file e else e) = d := by
    unfold finishDynamic at ran
    cases folded : order.foldlM (finishDynamicSymbol file link symbol index) c with
    | error e =>
      rw [folded] at ran
      cases ran
    | ok e =>
      rw [folded] at ran
      exact ⟨e, rfl, Except.ok.inj ran⟩
  have run := Run.of_foldlM folded
  have brings : ∀ g ∈ order, ∀ s t, finishDynamicSymbol file link symbol index s g = .ok t → True →
      FinishedSymbol file (symbol g) (pltNumber g) (stubNumber g) (index g) g t :=
    fun g _ s t taken _ => finish_brings sizes placed taken
  have stays : ∀ g ∈ order, ∀ h s t, finishDynamicSymbol file link symbol index s g = .ok t → True →
      FinishedSymbol file (symbol h) (pltNumber h) (stubNumber h) (index h) h s →
        FinishedSymbol file (symbol h) (pltNumber h) (stubNumber h) (index h) h t := by
    intro g _ h s t taken _ before
    by_cases same : g = h
    · exact same ▸ finish_brings sizes placed taken
    · exact finish_keeps sizes placed room taken same before
  have all := run.each (fun _ _ _ _ _ _ => trivial) brings stays trivial
  have beyond := run.invariant (fun g _ s t taken before => finish_beyond placed taken before) fun _ _ => rfl
  refine ⟨fun used => ?_, fun h member => ?_, fun k high => ?_⟩
  · rw [if_pos used]
    exact putWords_at _ _ _ _
  · split
    · exact mipsFinishExecPlt_keeps (all h member)
    · exact all h member
  · rw [← beyond k high]
    split
    · exact putWords_outside (bfdPut32_outside file.order) _ _ (.inr (by rw [plt0Words_length]; omega))
    · rfl

end Finish

end Openisa.Stubs
