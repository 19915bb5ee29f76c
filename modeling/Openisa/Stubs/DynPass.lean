import Openisa.Stubs.PltCode

/-! A link from its first relocation to the contents of the PLT and of the stubs. -/

namespace Openisa.Stubs

open Openisa.Bfd
open Openisa.Elf
open Openisa.Dynamic
open Openisa.Header
open Openisa.Library
open Openisa.Library.ByteStore

variable {η : Type}

def LazyState.start (adjusted : AdjustState η) : LazyState η := ⟨adjusted.table.symbol, adjusted.lazyStubCount, 0, 0⟩

theorem lazy_counted {link : DynLink} {st : AdjustState η} {number : η → Option Nat} {owners marked : List η}
    (slots : PltSlots link st number owners marked) : LazyCounted (.start st) marked 0 :=
  ⟨slots.distinct, slots.lazy, by rw [Nat.add_zero]; exact slots.count⟩

/-- Whatever is loaded and adjusted, and whatever symbols the secondary GOTs take stubs from: the stubs left have
places of their own one behind the other, and the section is as large as their count and one more ask for. -/
theorem linked_lazy_stubs [DecidableEq η] {link : DynLink} {generic : Generic η} (created : link.PltCreated)
    (keeps : generic.KeepsStubs) {id : η → Nat} {name : η → String} {loads : List (LoadStep η)} {loaded : LoadState η}
    (loading : loadAll link generic.copyFlags (LoadState.start id name) loads = .ok loaded) {st st' : AdjustState η}
    (same : st.table = loaded.table) (fresh : st.Fresh) {adjusts : List (AdjustStep η)}
    (run : Run (AdjustsTo link generic) adjusts st st') (stubSection : Option ElfSection) (dynsymcount : Nat)
    (forbidden traversal : List η) (once : traversal.Nodup) (all : ∀ h, h ∈ traversal) :
    ∃ number owners, LazyLaid dynsymcount (.start st')
      (sizeLazyStubs stubSection dynsymcount forbidden traversal (.start st')) number owners := by
  obtain ⟨_, _, marked, slots⟩ := (fresh.slots created loading same).run created keeps run
  exact (lazy_counted slots).laid rfl stubSection dynsymcount forbidden traversal once fun h _ => all h

/-- The section with the PLT. Without load interlocks the jump of the last entry has a nop behind it. -/
def sizePlt (file : DynFile) (plt : PltSections) : Nat :=
  if !loadInterlocksP file.flags && 0 < plt.splt then plt.splt + 4 else plt.splt

def DynContents.empty (sym : η → DynSym) : DynContents η := ⟨fun _ => 0, fun _ => 0, fun _ => none, fun _ => 0, sym⟩

/-- The passes of a link one after another: the files are loaded, the symbols adjusted, the stubs sized and the symbols
finished. The indices in `.dynsym` are smaller than the estimate for the stubs. -/
structure DynPass (η : Type) [DecidableEq η] (link : DynLink) (generic : Generic η) where
  created : link.PltCreated
  keeps : generic.KeepsStubs
  id : η → Nat
  name : η → String
  loads : List (LoadStep η)
  loaded : LoadState η
  loads_ok : loadAll link generic.copyFlags (LoadState.start id name) loads = .ok loaded
  start : AdjustState η
  start_table : start.table = loaded.table
  fresh : start.Fresh
  adjusts : List (AdjustStep η)
  adjusted : AdjustState η
  adjusts_ok : Run (AdjustsTo link generic) adjusts start adjusted
  stubSection : Option ElfSection
  dynsymcount : Nat
  forbidden : List η
  traversal : List η
  once : traversal.Nodup
  all : ∀ h, h ∈ traversal
  sized : LazyState η
  sized_ok : sized = sizeLazyStubs stubSection dynsymcount forbidden traversal (.start adjusted)
  file : DynFile
  stub_size : file.functionStubSize = sized.functionStubSize
  dynindx : η → Nat
  dynindx_lt : ∀ h, dynindx h < dynsymcount
  order : List η
  order_all : ∀ h, (sized.symbol h).pltOffset.isSome = true → h ∈ order
  sym : η → DynSym
  finished : DynContents η
  finish_ok : finishDynamic file link adjusted.plt sized.symbol dynindx order (.empty sym) = .ok finished

namespace DynPass

variable [DecidableEq η] {link : DynLink} {generic : Generic η}

/-- What the passes establish for one another. -/
structure Known (p : DynPass η link generic) (pltNumber stubNumber : η → Option Nat) (pltOwners stubOwners : List η) :
    Prop where
  placed : DynPlaced p.sized.symbol p.file.functionStubSize pltNumber stubNumber pltOwners stubOwners
  sections : p.adjusted.plt.Holds pltOwners.length
  addressed : ∀ h ∈ pltOwners, (p.sized.symbol h).noFnStub = true
  called : ∀ h ∈ stubOwners, (p.sized.symbol h).noFnStub = false
  stubSize : stubOwners ≠ [] →
    p.file.functionStubSize = if 0x10000 < p.dynsymcount then functionStubBigSize else functionStubNormalSize
  stubRoom : stubOwners ≠ [] → p.sized.sstubs = (stubOwners.length + 1) * p.file.functionStubSize
  header : 0 < p.adjusted.plt.splt → WordsAt p.file.order p.finished.splt 0 (plt0Words p.file.n32 p.file.sgotplt)
  symbols : ∀ h, (p.sized.symbol h).pltOffset.isSome = true →
    FinishedSymbol p.file (p.sized.symbol h) (pltNumber h) (stubNumber h) (p.dynindx h) h p.finished
  beyond : ∀ k, 32 + 16 * pltOwners.length ≤ k → p.finished.splt k = 0

theorem known (p : DynPass η link generic) :
    ∃ pltNumber stubNumber pltOwners stubOwners, p.Known pltNumber stubNumber pltOwners stubOwners := by
  obtain ⟨pltNumber, pltOwners, marked, slots⟩ :=
    (p.fresh.slots p.created p.loads_ok p.start_table).run p.created p.keeps p.adjusts_ok
  have counted := lazy_counted slots
  obtain ⟨stubNumber, stubOwners, laid⟩ := counted.laid rfl p.stubSection p.dynsymcount p.forbidden p.traversal p.once
    fun h _ => p.all h
  rw [← p.sized_ok] at laid
  have placed := placed_of_sized slots laid rfl
  rw [← p.stub_size] at placed
  have size := laid.size
  rw [← p.stub_size] at size
  have room : stubOwners ≠ [] → 16 ≤ p.file.functionStubSize := by
    intro some
    rw [size some]
    split <;> decide
  have sizes : pltOwners ≠ [] → link.pltHeaderSize = 32 ∧ link.pltEntrySize = 16 := by
    intro some
    have program := p.created.program (slots.used some)
    exact ⟨p.created.header program, p.created.entry program⟩
  obtain ⟨header, symbols, beyond⟩ := finishDynamic_coded sizes placed room p.finish_ok
  refine ⟨pltNumber, stubNumber, pltOwners, stubOwners, placed, slots.sections, fun h member => ?_, fun h member => ?_,
    size, fun some => ?_, header, fun h given => symbols h (p.order_all h given), beyond⟩
  · rw [laid.noFnStub]
    exact slots.addressed h member
  · rw [laid.noFnStub]
    exact slots.callsOnly h ((slots.lazy h).mp (laid.needed h member))
  · have counts : (LazyState.start p.adjusted).lazyStubCount ≠ 0 := by
      obtain ⟨h, member⟩ := List.exists_mem_of_ne_nil stubOwners some
      have positive := List.length_pos_of_mem ((slots.lazy h).mp (laid.needed h member))
      rw [counted.count]
      omega
    rw [laid.assertion, laid.count, if_neg counts, p.stub_size]

end DynPass

def calledFile : DynFile :=
  { order := .big, flags := eMipsArch2, n32 := false, splt := 0x400800, sgotplt := 0x410800, sstubs := 0x400900
    functionStubSize := 0 }

def calledSized : LazyState Unit := sizeLazyStubs none 4 [] [()] (.start calledAdjusted)

def calledSym : Unit → DynSym := fun _ => ⟨true, false, 0x400820⟩

def calledFinished : DynContents Unit :=
  mipsFinishExecPlt calledFile (finishPltEntry calledFile programLink () (calledSized.symbol ()) 1 32 (.empty calledSym))

theorem only_symbol (h : Unit) : h ∈ [()] := List.mem_singleton.mpr rfl

def calledPass : DynPass Unit programLink plainGeneric where
  created := programLink_created
  keeps := plainGeneric_keeps
  id _ := 0
  name _ := "f"
  loads := [.resolve () externalFunction, .check (functionReloc .rMips26 0)]
  loaded := calledLoaded
  loads_ok := called_loaded
  start := calledStart
  start_table := rfl
  fresh := ⟨⟨rfl, rfl, rfl⟩, fun _ => rfl, fun _ => rfl, rfl⟩
  adjusts := [.adjust ()]
  adjusted := calledAdjusted
  adjusts_ok := called_run
  stubSection := none
  dynsymcount := 4
  forbidden := []
  traversal := [()]
  once := List.nodup_singleton ()
  all := only_symbol
  sized := calledSized
  sized_ok := rfl
  file := calledFile
  stub_size := rfl
  dynindx _ := 1
  dynindx_lt _ := by decide
  order := [()]
  order_all h _ := only_symbol h
  sym := calledSym
  finished := calledFinished
  finish_ok := rfl

def lazyFunction : MipsSymbol Unit :=
  { externalFunction with
    entry := { externalFunction.entry with needFnStub := true }
    needsPlt := true }

def lazyLoaded : LoadState Unit := ⟨⟨.own, fun _ => lazyFunction⟩, .empty, false, false⟩

def lazyStart : AdjustState Unit := ⟨lazyLoaded.table, .empty, ⟨0, 0, 0, 0, 0⟩, 0⟩

def lazyAdjusted : AdjustState Unit :=
  { lazyStart with
    table := lazyStart.table.modify () fun s => { s with needsLazyStub := true }
    lazyStubCount := 1 }

theorem lazy_loaded : loadAll programLink plainGeneric.copyFlags (LoadState.start (fun _ => 0) fun _ => "f")
    [.resolve () externalFunction, .check (functionReloc .rMipsCall16 0)] = .ok lazyLoaded := rfl

theorem lazy_run : Run (AdjustsTo programLink plainGeneric) [.adjust ()] lazyStart lazyAdjusted :=
  .cons ⟨rfl, rfl, rfl⟩ (.nil _)

theorem linked_lazy_stubs_called : ∃ number owners, LazyLaid 0x20000 (.start lazyAdjusted)
    (sizeLazyStubs none 0x20000 [] [()] (.start lazyAdjusted)) number owners :=
  linked_lazy_stubs programLink_created plainGeneric_keeps lazy_loaded rfl
    ⟨⟨rfl, rfl, rfl⟩, fun _ => rfl, fun _ => rfl, rfl⟩ lazy_run none 0x20000 [] [()] (List.nodup_singleton ())
    only_symbol

def lazySized : LazyState Unit := sizeLazyStubs none 0x20000 [] [()] (.start lazyAdjusted)

def lazyFile : DynFile := { calledFile with functionStubSize := 20 }

def lazyFinished : DynContents Unit := finishLazyStub lazyFile () 0x12345 0 (.empty calledSym)

def lazyPass : DynPass Unit programLink plainGeneric where
  created := programLink_created
  keeps := plainGeneric_keeps
  id _ := 0
  name _ := "f"
  loads := [.resolve () externalFunction, .check (functionReloc .rMipsCall16 0)]
  loaded := lazyLoaded
  loads_ok := lazy_loaded
  start := lazyStart
  start_table := rfl
  fresh := ⟨⟨rfl, rfl, rfl⟩, fun _ => rfl, fun _ => rfl, rfl⟩
  adjusts := [.adjust ()]
  adjusted := lazyAdjusted
  adjusts_ok := lazy_run
  stubSection := none
  dynsymcount := 0x20000
  forbidden := []
  traversal := [()]
  once := List.nodup_singleton ()
  all := only_symbol
  sized := lazySized
  sized_ok := rfl
  file := lazyFile
  stub_size := rfl
  dynindx _ := 0x12345
  dynindx_lt _ := by decide
  order := [()]
  order_all h _ := only_symbol h
  sym := calledSym
  finished := lazyFinished
  finish_ok := rfl

end Openisa.Stubs
