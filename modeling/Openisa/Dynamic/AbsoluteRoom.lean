import Openisa.Dynamic.CreateRelocation
import Openisa.Dynamic.SectionRoom
import Openisa.Elf.Reference

/-! Whether the dynamic relocations of a symbol fit into the room that was reserved for them. -/

namespace Openisa.Dynamic

open Openisa.Bfd
open Openisa.Elf
open Openisa.Got
open Openisa.Library

variable {η σ : Type} [DecidableEq η]

structure LinkRun (η : Type) [DecidableEq η] (link : DynLink) (generic : Generic η) where
  id : η → Nat
  name : η → String
  loads : List (LoadStep η)
  loaded : LoadState η
  loads_ok : loadAll link generic.copyFlags (LoadState.start id name) loads = .ok loaded
  plt : PltSections
  adjusts : List (AdjustStep η)
  adjusted : AdjustState η
  adjusts_ok : adjustAll link generic ⟨loaded.table, loaded.relDyn, plt, 0⟩ adjusts = .ok adjusted
  walk : Traversal η

namespace LinkRun

variable {link : DynLink} {generic : Generic η} (run : LinkRun η link generic)

def adjusting : AdjustState η := ⟨run.loaded.table, run.loaded.relDyn, run.plt, 0⟩

def sizing : SizeState η := ⟨run.adjusted.table, run.adjusted.relDyn, run.loaded.textrel⟩

def sized : SizeState η := allocateAll link run.sizing run.walk.order

def hasPlt (h : η) : Bool := getsPltP link generic h run.adjusting run.adjusts

def reserved (who : RoomFor η) : Nat := run.sized.relDyn.reserved who

def room : Nat := run.sized.relDyn.room

/-- The section `.rel.dyn` after the calls. -/
def filled (ops : GotOps σ) (env : DynEnv) (lib : ElfLib) (got : σ) (calls : List (CalcCall η)) : RelDynOut η :=
  (calculateAll ops env lib link run.sized.table
    (got, ⟨run.sized.relDyn.size, run.sized.relDyn.relocCount, [], false⟩) calls).2

def created (ops : GotOps σ) (env : DynEnv) (lib : ElfLib) (got : σ) (calls : List (CalcCall η)) (who : RoomFor η) :
    Nat :=
  ((run.filled ops env lib got calls).records.map DynReloc.owner).count who

def dynamicCalls (env : DynEnv) (lib : ElfLib) (calls : List (CalcCall η)) (who : RoomFor η) : Nat :=
  calls.countP fun c =>
    becomesDynamicP env lib link run.sized.table c && c.reloc.owner run.sized.table.links = who

/-- The calls that test the room, and may find that their field is gone. -/
def askedCalls (lib : ElfLib) (calls : List (CalcCall η)) (who : RoomFor η) : Nat :=
  calls.countP fun c => asksDynamicP lib link run.sized.table c && c.reloc.owner run.sized.table.links = who

def absoluteRelocs (h : η) : Nat := absoluteLoad run.sized.table.links (checkedRelocs run.loads) h

/-- The 32-bit arithmetic of the reservation has lost relocations that become dynamic. -/
def wrapped (env : DynEnv) (lib : ElfLib) (calls : List (CalcCall η)) (h : η) : Prop :=
  2 ^ 29 ≤ run.absoluteRelocs h ∧ run.absoluteRelocs h % 2 ^ 29 < run.dynamicCalls env lib calls (.global h)

/-- A shared library copies the relocation: it is an absolute one of an allocated section, against a symbol that is not
undefined, weak and hidden, and its field is there. -/
def copiedP (env : DynEnv) (lib : ElfLib) (c : CalcCall η) : Bool :=
  allocAbsoluteP c.reloc && c.reloc.symndx ≠ 0 &&
    !((relHash (c.reloc.rela run.sized.table)).any fun h => h.type == .undefweak && !h.defaultVisibility) &&
    foundP lib link run.sized.table c && putOutP env lib link run.sized.table c

/-- What the relocations and the symbols have to be like. A field that is gone needs room only because the room is
tested first, and then any room will do. -/
structure WordsFit (env : DynEnv) (lib : ElfLib) (calls : List (CalcCall η)) : Prop where
  plt : link.shared = true → ∀ c ∈ calls, ∀ h, c.reloc.owner run.sized.table.links = .global h →
    run.hasPlt h = true → run.copiedP env lib c = false
  many : ∀ h, ¬run.wrapped env lib calls h
  gone : ∀ before c after, calls = before ++ c :: after → asksDynamicP lib link run.sized.table c = true →
    putOutP env lib link run.sized.table c = false → ∀ h, c.reloc.owner run.sized.table.links = .global h →
      run.hasPlt h = true ∨ 2 ^ 29 ≤ run.absoluteRelocs h →
        before.countP (becomesDynamicP env lib link run.sized.table) < run.room

end LinkRun

section Calls

variable {link : DynLink} {env : DynEnv} {lib : ElfLib} {table : SymbolTable η} {ops : GotOps σ}

omit [DecidableEq η] in
theorem calculate_all_cons (c : CalcCall η) (rest : List (CalcCall η)) (s : σ × RelDynOut η) :
    calculateAll ops env lib link table s (c :: rest) =
      calculateAll ops env lib link table (calculateCall ops env lib link table c s) rest := rfl

theorem calculate_all_owners (notVxworks : link.isVxworks = false) (calls : List (CalcCall η))
    (s : σ × RelDynOut η) (who : RoomFor η) :
    ((calculateAll ops env lib link table s calls).2.records.map DynReloc.owner).count who =
      (s.2.records.map DynReloc.owner).count who +
        calls.countP fun c => becomesDynamicP env lib link table c && c.reloc.owner table.links = who := by
  induction calls generalizing s with
  | nil => simp [calculateAll]
  | cons c rest ih =>
    rw [calculate_all_cons, ih, (calculate_puts notVxworks c s).owners, List.count_append, List.countP_cons,
      Nat.add_assoc]
    congr 1
    rw [Nat.add_comm]
    congr 1
    by_cases becomes : becomesDynamicP env lib link table c = true
    · simp [becomes, List.count_singleton]
    · simp [becomes]

omit [DecidableEq η] in
theorem calculate_all_overrun (notVxworks : link.isVxworks = false) (calls : List (CalcCall η))
    (s : σ × RelDynOut η) :
    (calculateAll ops env lib link table s calls).2.overrun = false ↔ s.2.overrun = false ∧
      ∀ before c after, calls = before ++ c :: after → asksDynamicP lib link table c = true →
        (s.2.relocCount + before.countP (becomesDynamicP env lib link table)) * relSize link < s.2.size := by
  induction calls generalizing s with
  | nil => simp [calculateAll]
  | cons c rest ih =>
    have puts : PutOut link (asksDynamicP lib link table c) (becomesDynamicP env lib link table c)
        (c.reloc.owner table.links) s.2 (calculateCall ops env lib link table c s).2 := calculate_puts notVxworks c s
    rw [calculate_all_cons, ih, puts.overrun, puts.count, puts.size, Bool.or_eq_false_iff, and_assoc]
    refine and_congr_right fun _ => ⟨?_, ?_⟩
    · rintro ⟨first, later⟩ before d after split asks
      cases before with
      | nil =>
        cases split
        simpa [asks] using first
      | cons b before =>
        cases split
        have room := later before d after rfl asks
        rw [List.countP_cons]
        by_cases becomes : becomesDynamicP env lib link table c = true
        · simpa [becomes, Nat.add_assoc, Nat.add_comm 1] using room
        · simpa [becomes] using room
    · intro all
      constructor
      · cases asks : asksDynamicP lib link table c with
        | false => rfl
        | true => simpa using all [] c rest rfl asks
      · intro before d after split asks
        have room := all (c :: before) d after (by rw [split]; rfl) asks
        rw [List.countP_cons] at room
        by_cases becomes : becomesDynamicP env lib link table c = true
        · simpa [becomes, Nat.add_assoc, Nat.add_comm 1] using room
        · simpa [becomes] using room

omit [DecidableEq η] in
theorem becomes_asks {c : CalcCall η} (becomes : becomesDynamicP env lib link table c = true) :
    asksDynamicP lib link table c = true := (Bool.and_eq_true _ _ ▸ becomes : _ ∧ _).1

omit [DecidableEq η] in
theorem asks_dynamic_word {c : CalcCall η} (asks : asksDynamicP lib link table c = true) :
    allocAbsoluteP c.reloc = true ∧
      dynamicWordP (link.forInput c.reloc.input.abfd) c.reloc.input.sec (c.reloc.rela table) = true := by
  unfold asksDynamicP at asks
  have word := (Bool.and_eq_true _ _ ▸ (Bool.and_eq_true _ _ ▸ asks : _ ∧ _).1 : _ ∧ _)
  refine ⟨?_, word.2⟩
  have alloc : c.reloc.input.sec.alloc = true := by
    have := word.2
    unfold dynamicWordP at this
    simp_all
  simpa [allocAbsoluteP, alloc] using word.1

omit [DecidableEq η] in
theorem local_asks {c : CalcCall η} {input symndx : Nat} (asks : asksDynamicP lib link table c = true)
    (owned : c.reloc.owner table.links = .local input symndx) :
    link.shared = true ∧ localAbsoluteP input symndx c.reloc = true := by
  obtain ⟨alloc, word⟩ := asks_dynamic_word asks
  unfold LinkReloc.owner at owned
  cases symbol : c.reloc.sym with
  | global h => simp [symbol] at owned
  | «local» sym sec stub callStub =>
    rw [symbol] at owned
    cases owned
    refine ⟨?_, by simp [localAbsoluteP, alloc, LinkReloc.hash?, symbol, RelocSym.hash?]⟩
    have noHash : relHash (c.reloc.rela table) = none := by simp [relHash, LinkReloc.rela, symbol]
    unfold dynamicWordP at word
    rw [noHash] at word
    simp_all [DynLink.forInput]

/-- A relocation against a symbol that asks for a dynamic one is one of those counted for it, and the symbol is one
whose relocations are copied. -/
theorem global_asks {c : CalcCall η} {h : η} (asks : asksDynamicP lib link table c = true)
    (owned : c.reloc.owner table.links = .global h) :
    table.links.under LinkReloc.hash? allocAbsoluteP h c.reloc = true ∧
      (link.shared = true ∨ (table.symbol h).entry.hasStaticRelocs = false ∧
        (table.symbol h).entry.defRegular = false) ∧
      ((table.symbol h).entry.type == .undefweak && !(table.symbol h).entry.defaultVisibility) = false := by
  obtain ⟨alloc, word⟩ := asks_dynamic_word asks
  unfold LinkReloc.owner at owned
  cases symbol : c.reloc.sym with
  | «local» sym sec stub callStub => simp [symbol] at owned
  | global g =>
    rw [symbol] at owned
    cases owned
    refine ⟨by simp [Forwarding.under, alloc, LinkReloc.hash?, symbol, RelocSym.hash?], ?_⟩
    have hash : relHash (c.reloc.rela table) = some (table.symbol (table.links.root g)).entry := by
      simp [relHash, LinkReloc.rela, symbol]
    unfold dynamicWordP at word
    rw [hash] at word
    simp only [DynLink.forInput, Option.any_some, Bool.and_eq_true, Bool.or_eq_true, Bool.not_eq_true'] at word
    refine ⟨?_, word.1.2⟩
    rcases word.1.1.1 with shared | dynamic
    · exact .inl shared
    · exact .inr ⟨dynamic.2.2, dynamic.2.1.2⟩

end Calls

section Fits

variable {link : DynLink} {generic : Generic η} (run : LinkRun η link generic)
variable {env : DynEnv} {lib : ElfLib} {calls : List (CalcCall η)} {ops : GotOps σ} {got : σ}

theorem created_dynamic_calls (notVxworks : link.isVxworks = false) (who : RoomFor η) :
    run.created ops env lib got calls who = run.dynamicCalls env lib calls who := by
  unfold LinkRun.created LinkRun.filled LinkRun.dynamicCalls
  rw [calculate_all_owners notVxworks]
  simp

theorem dynamic_le_asked (calls : List (CalcCall η)) (who : RoomFor η) :
    run.dynamicCalls env lib calls who ≤ run.askedCalls lib calls who := by
  apply List.countP_mono_left
  intro c _ both
  obtain ⟨becomes, owned⟩ := (Bool.and_eq_true _ _ ▸ both : _ ∧ _)
  exact Bool.and_eq_true _ _ ▸ ⟨becomes_asks becomes, owned⟩

theorem run_sized (notVxworks : link.isVxworks = false) : run.sized.relDyn.Sized link :=
  sized_passes notVxworks run.loads_ok run.adjusts_ok _ run.walk.order

theorem overrun_iff (notVxworks : link.isVxworks = false) :
    (run.filled ops env lib got calls).overrun = false ↔ ∀ before c after, calls = before ++ c :: after →
      asksDynamicP lib link run.sized.table c = true →
        before.countP (becomesDynamicP env lib link run.sized.table) < run.room := by
  have entry : relSize link = 8 := by simp [relSize, notVxworks]
  have size := (run_sized run notVxworks).size
  unfold LinkRun.filled LinkRun.room
  rw [calculate_all_overrun notVxworks]
  dsimp only
  rw [size, entry]
  refine ⟨fun all before c after split asks => ?_, fun all => ⟨rfl, fun before c after split asks => ?_⟩⟩
  · have room := all.2 before c after split asks
    omega
  · have room := all before c after split asks
    omega

theorem counted_loaded : Counted link (checkedRelocs run.loads) run.loaded := by
  simpa using counted_run generic.copyFlags run.loads (counted_start link run.id run.name) run.loads_ok

theorem adjusted_loaded (notVxworks : link.isVxworks = false) :
    Adjusted link run.hasPlt run.adjusting run.adjusted :=
  adjusted_run notVxworks generic run.adjusts run.adjusts_ok

theorem same_sized : SameSymbols run.adjusted.table run.sized.table :=
  allocate_all_symbols link run.walk.order run.sizing

theorem sized_links (notVxworks : link.isVxworks = false) : run.sized.table.links = run.loaded.table.links :=
  (same_sized run).links.trans (adjusted_loaded run notVxworks).links

theorem local_calls_fit (notVxworks : link.isVxworks = false)
    (seen : (calls.map CalcCall.reloc).Subperm (checkedRelocs run.loads)) (input symndx : Nat) :
    run.askedCalls lib calls (.local input symndx) ≤ run.reserved (.local input symndx) := by
  have room : run.reserved (.local input symndx) =
      if link.shared then (checkedRelocs run.loads).countP (localAbsoluteP input symndx) else 0 := by
    unfold LinkRun.reserved LinkRun.sized
    rw [allocate_all_others notVxworks _ _ (by simp)]
    unfold LinkRun.sizing
    dsimp only
    rw [(adjusted_loaded run notVxworks).reserved _ (by simp)]
    exact (counted_loaded run).locals input symndx
  rw [room]
  by_cases shared : link.shared = true
  · rw [if_pos shared]
    calc run.askedCalls lib calls (.local input symndx)
        ≤ calls.countP (localAbsoluteP input symndx ∘ CalcCall.reloc) := by
          apply List.countP_mono_left
          intro c _ both
          obtain ⟨asks, owned⟩ := (Bool.and_eq_true _ _ ▸ both : _ ∧ _)
          exact (local_asks asks (of_decide_eq_true owned)).2
      _ = (calls.map CalcCall.reloc).countP (localAbsoluteP input symndx) := (List.countP_map ..).symm
      _ ≤ (checkedRelocs run.loads).countP (localAbsoluteP input symndx) := seen.countP_le _
  · have none : run.askedCalls lib calls (.local input symndx) = 0 := by
      unfold LinkRun.askedCalls
      rw [List.countP_eq_zero]
      intro c _ both
      obtain ⟨asks, owned⟩ := (Bool.and_eq_true _ _ ▸ both : _ ∧ _)
      exact shared (local_asks asks (of_decide_eq_true owned)).1
    rw [none]
    exact Nat.zero_le _

theorem global_calls_counted (seen : (calls.map CalcCall.reloc).Subperm (checkedRelocs run.loads)) (h : η) :
    run.askedCalls lib calls (.global h) ≤ run.absoluteRelocs h := by
  calc run.askedCalls lib calls (.global h)
      ≤ calls.countP (run.sized.table.links.under LinkReloc.hash? allocAbsoluteP h ∘ CalcCall.reloc) := by
        apply List.countP_mono_left
        intro c _ both
        obtain ⟨asks, owned⟩ := (Bool.and_eq_true _ _ ▸ both : _ ∧ _)
        exact (global_asks asks (of_decide_eq_true owned)).1
    _ = (calls.map CalcCall.reloc).countP (run.sized.table.links.under LinkReloc.hash? allocAbsoluteP h) :=
        (List.countP_map ..).symm
    _ ≤ run.absoluteRelocs h := seen.countP_le _

theorem asked_call_of_pos {h : η} (some : 0 < run.askedCalls lib calls (.global h)) :
    run.sized.table.links.root h = h ∧
      (link.shared = true ∨ (run.sized.table.symbol h).entry.hasStaticRelocs = false ∧
        (run.sized.table.symbol h).entry.defRegular = false) ∧
      ((run.sized.table.symbol h).entry.type == .undefweak &&
        !(run.sized.table.symbol h).entry.defaultVisibility) = false := by
  unfold LinkRun.askedCalls at some
  obtain ⟨c, _, both⟩ := List.countP_pos_iff.mp some
  obtain ⟨asks, owned⟩ := (Bool.and_eq_true _ _ ▸ both : _ ∧ _)
  have found := global_asks asks (of_decide_eq_true owned)
  refine ⟨?_, found.2⟩
  unfold LinkReloc.owner at owned
  cases symbol : c.reloc.sym with
  | «local» sym sec stub callStub => simp [symbol] at owned
  | global g =>
    have same : run.sized.table.links.root g = h := by simpa [symbol] using owned
    rw [← same, run.sized.table.links.root_root]

theorem no_other_calls {who : RoomFor η} (notLocal : ∀ input symndx, who ≠ .local input symndx)
    (notGlobal : ∀ h, who ≠ .global h) : run.askedCalls lib calls who = 0 := by
  unfold LinkRun.askedCalls
  rw [List.countP_eq_zero]
  intro c _ both
  have owned := of_decide_eq_true (Bool.and_eq_true _ _ ▸ both : _ ∧ _).2
  unfold LinkReloc.owner at owned
  cases symbol : c.reloc.sym with
  | «local» sym sec stub callStub =>
    rw [symbol] at owned
    exact notLocal _ _ owned.symm
  | global h =>
    rw [symbol] at owned
    exact notGlobal _ owned.symm

theorem global_reserved (notVxworks : link.isVxworks = false) (h : η) :
    run.reserved (.global h) = symbolRoom link run.sized.table h := by
  unfold LinkRun.reserved LinkRun.sized
  rw [allocate_all_reserved notVxworks _ run.walk.nodup, if_pos (run.walk.complete h),
    symbol_room_congr (allocate_all_symbols link run.walk.order _)]
  unfold LinkRun.sizing
  dsimp only
  rw [(adjusted_loaded run notVxworks).reserved _ (by simp)]
  have before : run.adjusting.relDyn.reserved (.global h) = 0 := (counted_loaded run).globals h
  rw [before, Nat.zero_add]

theorem reserved_of_plt (notVxworks : link.isVxworks = false) {h : η} (plt : run.hasPlt h = true) :
    run.reserved (.global h) = 0 := by
  rw [global_reserved run notVxworks]
  unfold symbolRoom
  rw [(same_sized run).counter h, ((adjusted_loaded run notVxworks).dropped h plt).1]
  simp

/-- A symbol without a PLT entry is given the room for all that was counted, up to the width of the arithmetic. -/
theorem reserved_of_dynamic (notVxworks : link.isVxworks = false) (final : link.relocatable = false) {h : η}
    (plt : run.hasPlt h = false) (some : 0 < run.askedCalls lib calls (.global h)) :
    run.reserved (.global h) = run.absoluteRelocs h % 2 ^ 29 := by
  obtain ⟨rooted, kind, visible⟩ := asked_call_of_pos run some
  obtain ⟨only, entry⟩ := (same_sized run).entry h
  have adjusts := adjusted_loaded run notVxworks
  have static : (run.sized.table.symbol h).entry.hasStaticRelocs =
      (run.adjusted.table.symbol h).entry.hasStaticRelocs := by rw [entry]
  have known : link.shared = true ∨ (run.adjusted.table.symbol h).entry.hasStaticRelocs = false := by
    rw [static] at kind
    exact kind.imp_right And.left
  have early : link.shared = true ∨ (run.loaded.table.symbol h).entry.hasStaticRelocs = false := by
    refine known.imp_right fun unmarked => ?_
    by_contra marked
    have set : (run.loaded.table.symbol h).entry.hasStaticRelocs = true := by simpa using marked
    have := adjusts.static h set
    simp [unmarked] at this
  have loadedRoot : run.loaded.table.links.root h = h := by
    rw [← sized_links run notVxworks]
    exact rooted
  have counter : (run.sized.table.symbol h).possiblyDynamicRelocs = BitVec.ofNat 32 (run.absoluteRelocs h) := by
    rw [(same_sized run).counter h]
    rcases adjusts.kept h plt with same | ⟨_, program, marked⟩
    · rw [same]
      unfold LinkRun.absoluteRelocs
      rw [sized_links run notVxworks]
      exact (counted_loaded run).counter h loadedRoot early
    · rcases known with shared | unmarked
      · simp [program] at shared
      · simp [marked] at unmarked
  have low : (run.sized.table.symbol h).possiblyDynamicRelocs.toNat % 2 ^ 29 = run.absoluteRelocs h % 2 ^ 29 := by
    rw [counter, BitVec.toNat_ofNat]
    exact Nat.mod_mod_of_dvd _ (by decide)
  have copies : copiesRelocsP link (run.sized.table.symbol h) = true ∨
      (run.sized.table.symbol h).possiblyDynamicRelocs = 0 := by
    by_cases zero : (run.sized.table.symbol h).possiblyDynamicRelocs = 0
    · exact .inr zero
    · left
      unfold copiesRelocsP
      rcases kind with shared | ⟨_, external⟩
      · simpa [final, visible, shared] using zero
      · simpa [final, visible, external] using zero
  rw [global_reserved run notVxworks, ← low]
  unfold symbolRoom
  rcases copies with copies | zero
  · rw [if_pos ⟨rooted, copies⟩]
  · rw [zero]
    simp

theorem plt_shared (notVxworks : link.isVxworks = false) {h : η} (plt : run.hasPlt h = true)
    (some : 0 < run.askedCalls lib calls (.global h)) : link.shared = true := by
  rcases (asked_call_of_pos run some).2.1 with shared | ⟨unmarked, _⟩
  · exact shared
  · obtain ⟨only, entry⟩ := (same_sized run).entry h
    rw [entry] at unmarked
    rw [((adjusted_loaded run notVxworks).dropped h plt).2] at unmarked
    cases unmarked

theorem becomes_copied (shared : link.shared = true) (c : CalcCall η) :
    becomesDynamicP env lib link run.sized.table c = run.copiedP env lib c := by
  unfold becomesDynamicP asksDynamicP dynamicWordP LinkRun.copiedP allocAbsoluteP
  have symndx : (c.reloc.rela run.sized.table).symndx = c.reloc.symndx := rfl
  simp only [DynLink.forInput, shared, Bool.true_or, Bool.true_and, symndx]
  ac_rfl

/-- Where no symbol exceeds its room, one more relocation of a symbol that has room left finds the section not full. -/
theorem room_left (before after : List (CalcCall η)) (c : CalcCall η)
    (fits : ∀ who, run.dynamicCalls env lib (before ++ c :: after) who ≤ run.reserved who)
    (own : run.dynamicCalls env lib before (c.reloc.owner run.sized.table.links) + 1 ≤
      run.reserved (c.reloc.owner run.sized.table.links)) :
    before.countP (becomesDynamicP env lib link run.sized.table) < run.room := by
  let owners := (before.filter (becomesDynamicP env lib link run.sized.table)).map fun c =>
    c.reloc.owner run.sized.table.links
  have count : ∀ who, owners.count who = run.dynamicCalls env lib before who := by
    intro who
    unfold LinkRun.dynamicCalls
    rw [List.count, List.countP_map, List.countP_filter]
    congr 1
    funext c
    simp [Bool.and_comm, beq_eq_decide]
  have each : ∀ who, (c.reloc.owner run.sized.table.links :: owners).count who ≤ run.reserved who := by
    intro who
    rw [List.count_cons, count]
    by_cases same : c.reloc.owner run.sized.table.links = who
    · subst same
      simpa using own
    · rw [if_neg (by simpa using same), Nat.add_zero]
      refine le_trans ?_ (fits who)
      unfold LinkRun.dynamicCalls
      rw [List.countP_append]
      exact Nat.le_add_right _ _
  have all := run.sized.relDyn.length_le_asked _ each
  rw [List.length_cons, List.length_map, ← List.countP_eq_length_filter] at all
  exact all

theorem words_of_fits (notVxworks : link.isVxworks = false) (final : link.relocatable = false)
    (fits : ∀ who, run.dynamicCalls env lib calls who ≤ run.reserved who)
    (room : ∀ before c after, calls = before ++ c :: after → asksDynamicP lib link run.sized.table c = true →
      before.countP (becomesDynamicP env lib link run.sized.table) < run.room) : run.WordsFit env lib calls where
  plt shared c member h owned plt := by
    have none := fits (.global h)
    rw [reserved_of_plt run notVxworks plt, Nat.le_zero] at none
    rw [← becomes_copied run shared]
    by_contra becomes
    exact List.countP_eq_zero.mp none c member (by simpa [owned] using becomes)
  many h := by
    rintro ⟨_, lost⟩
    have enough := fits (.global h)
    have asked : run.dynamicCalls env lib calls (.global h) ≤ run.askedCalls lib calls (.global h) :=
      dynamic_le_asked run calls (.global h)
    have some : 0 < run.askedCalls lib calls (.global h) := by omega
    cases plt : run.hasPlt h with
    | true =>
      rw [reserved_of_plt run notVxworks plt] at enough
      omega
    | false =>
      rw [reserved_of_dynamic run notVxworks final plt some] at enough
      omega
  gone before c after split asks _ _ _ _ := room before c after split asks

section Words

variable (words : run.WordsFit env lib calls)
include words

theorem plt_calls_none (notVxworks : link.isVxworks = false) {h : η} (plt : run.hasPlt h = true) :
    run.dynamicCalls env lib calls (.global h) = 0 := by
  have asked : run.dynamicCalls env lib calls (.global h) ≤ run.askedCalls lib calls (.global h) :=
    dynamic_le_asked run calls (.global h)
  by_contra dynamic
  have some : 0 < run.askedCalls lib calls (.global h) := by omega
  have shared := plt_shared run notVxworks plt some
  apply dynamic
  apply List.countP_eq_zero.mpr
  intro c member both
  obtain ⟨becomes, owned⟩ := (Bool.and_eq_true _ _ ▸ both : _ ∧ _)
  rw [becomes_copied run shared, words.plt shared c member h (of_decide_eq_true owned) plt] at becomes
  cases becomes

theorem dynamic_calls_fit (notVxworks : link.isVxworks = false) (final : link.relocatable = false)
    (seen : (calls.map CalcCall.reloc).Subperm (checkedRelocs run.loads)) (who : RoomFor η) :
    run.dynamicCalls env lib calls who ≤ run.reserved who := by
  have asked : run.dynamicCalls env lib calls who ≤ run.askedCalls lib calls who := dynamic_le_asked run calls who
  cases who with
  | «local» input symndx => exact le_trans asked (local_calls_fit run notVxworks seen input symndx)
  | gott h => exact le_trans asked ((no_other_calls run (by simp) (by simp)).le.trans (Nat.zero_le _))
  | copy h => exact le_trans asked ((no_other_calls run (by simp) (by simp)).le.trans (Nat.zero_le _))
  | global h =>
    cases plt : run.hasPlt h with
    | true =>
      rw [plt_calls_none run words notVxworks plt]
      exact Nat.zero_le _
    | false =>
      by_cases none : run.dynamicCalls env lib calls (.global h) = 0
      · rw [none]
        exact Nat.zero_le _
      · have some : 0 < run.askedCalls lib calls (.global h) := by omega
        rw [reserved_of_dynamic run notVxworks final plt some]
        by_cases many : 2 ^ 29 ≤ run.absoluteRelocs h
        · exact Nat.le_of_not_lt fun lost => words.many h ⟨many, lost⟩
        · rw [Nat.mod_eq_of_lt (Nat.lt_of_not_le many)]
          exact le_trans asked (global_calls_counted run seen h)

end Words

section Split

variable {before after : List (CalcCall η)} {c : CalcCall η} (split : calls = before ++ c :: after)
  (asks : asksDynamicP lib link run.sized.table c = true)
include split asks

/-- The call that asks is one more, where there is room for all that ask. -/
theorem asking_fits {who : RoomFor η} (enough : run.askedCalls lib calls who ≤ run.reserved who)
    (owned : c.reloc.owner run.sized.table.links = who) :
    run.dynamicCalls env lib before who + 1 ≤ run.reserved who := by
  refine le_trans ?_ enough
  have asked : run.dynamicCalls env lib before who ≤ run.askedCalls lib before who := dynamic_le_asked run before who
  unfold LinkRun.askedCalls at asked ⊢
  rw [split, List.countP_append, List.countP_cons, if_pos (by simp [asks, owned])]
  omega

theorem putting_fits (fits : ∀ who, run.dynamicCalls env lib calls who ≤ run.reserved who)
    (putOut : putOutP env lib link run.sized.table c = true) :
    run.dynamicCalls env lib before (c.reloc.owner run.sized.table.links) + 1 ≤
      run.reserved (c.reloc.owner run.sized.table.links) := by
  have all := fits (c.reloc.owner run.sized.table.links)
  unfold LinkRun.dynamicCalls at all ⊢
  rw [split, List.countP_append, List.countP_cons, if_pos (by simp [becomesDynamicP, asks, putOut])] at all
  omega

/-- A call that asks finds room: its own, or what a field that is gone finds left. -/
theorem asking_finds_room (notVxworks : link.isVxworks = false) (final : link.relocatable = false)
    (seen : (calls.map CalcCall.reloc).Subperm (checkedRelocs run.loads)) (words : run.WordsFit env lib calls) :
    before.countP (becomesDynamicP env lib link run.sized.table) < run.room := by
  have fits := dynamic_calls_fit run words notVxworks final seen
  have left : run.dynamicCalls env lib before (c.reloc.owner run.sized.table.links) + 1 ≤
      run.reserved (c.reloc.owner run.sized.table.links) →
        before.countP (becomesDynamicP env lib link run.sized.table) < run.room := by
    intro own
    rw [split] at fits
    exact room_left run before after c fits own
  cases owned : c.reloc.owner run.sized.table.links with
  | «local» input symndx =>
    rw [owned] at left
    exact left (asking_fits run split asks (local_calls_fit run notVxworks seen input symndx) owned)
  | gott h => exact absurd owned (by unfold LinkReloc.owner; cases c.reloc.sym <;> simp)
  | copy h => exact absurd owned (by unfold LinkReloc.owner; cases c.reloc.sym <;> simp)
  | global h =>
    cases putOut : putOutP env lib link run.sized.table c with
    | true => exact left (putting_fits run split asks fits putOut)
    | false =>
      by_cases risky : run.hasPlt h = true ∨ 2 ^ 29 ≤ run.absoluteRelocs h
      · exact words.gone before c after split asks putOut h owned risky
      · rw [not_or, Bool.not_eq_true, Nat.not_le] at risky
        rw [owned] at left
        apply left
        apply asking_fits run split asks _ owned
        have some : 0 < run.askedCalls lib calls (.global h) := by
          unfold LinkRun.askedCalls
          rw [split]
          exact List.countP_pos_iff.mpr ⟨c, by simp, by simp [asks, owned]⟩
        rw [reserved_of_dynamic run notVxworks final risky.1 some, Nat.mod_eq_of_lt risky.2]
        exact global_calls_counted run seen h

end Split

end Fits

def sharedLink : DynLink :=
  { staticLink .big false with
    shared := true
    dynamicSectionsCreated := true
    symbolic := false
    nocopyreloc := false
    usePltsAndCopyRelocs := true
    pltHeaderSize := 0
    pltEntrySize := 0
    gotHeaderSize := 8 }

def dataSection : InputSection :=
  ⟨⟨0, false, true, 0, 0⟩, keptSection 0x10000 0, false, false, by decide⟩

def externalFunction : MipsSymbol Unit :=
  let new : MipsSymbol Unit := .new 0 "f"
  { new with
    entry := { new.entry with type := .defined, sec := some (keptSection 0 0), defDynamic := true }
    typeFunc := true }

def functionReloc (type : MipsReloc) (offset : BfdVma) : LinkReloc Unit :=
  ⟨dataSection, offset, type, 1, .global (), 0⟩

def branchAndWord : List (LoadStep Unit) :=
  [.resolve () externalFunction, .check (functionReloc .rMipsPc16 0), .check (functionReloc .rMips32 4)]

def plainGeneric : Generic Unit := ⟨Prod.mk, fun s => s⟩

def branchAndWordLoaded : LoadState Unit where
  table := ⟨.own, fun _ => { externalFunction with
    entry := { externalFunction.entry with hasStaticRelocs := true, needFnStub := true }
    pointerEqualityNeeded := false
    possiblyDynamicRelocs := 1
    noFnStub := true }⟩
  relDyn := .empty
  textrel := false
  staticTls := false

def branchAndWordAdjusted : AdjustState Unit where
  table := ⟨.own, fun _ => { branchAndWordLoaded.table.symbol () with
    pltOffset := some 0
    possiblyDynamicRelocs := 0 }⟩
  relDyn := .empty
  plt := ⟨0, 12, 8, 0, 0⟩
  lazyStubCount := 0

def branchAndWordRun : LinkRun Unit sharedLink plainGeneric where
  id _ := 0
  name _ := "f"
  loads := branchAndWord
  loaded := branchAndWordLoaded
  loads_ok := rfl
  plt := ⟨0, 0, 0, 0, 0⟩
  adjusts := [.adjust ()]
  adjusted := branchAndWordAdjusted
  adjusts_ok := rfl
  walk := ⟨[()], by decide, by decide⟩

def plainEnv : DynEnv where
  sectionOffset _ offset := offset
  isAbs _ := false
  hasOwner _ := true
  outputDynindx _ := 1
  textDynindx := 1
  dynindx _ := 1

def wordCall : CalcCall Unit := 
  ⟨functionReloc .rMips32 4, 0, mipsElf32RtypeToHowto .rMips32, false, []⟩

def wordLink : DynLink := { sharedLink with usePltsAndCopyRelocs := false }

def wordLoaded : LoadState Unit where
  table := ⟨.own, fun _ => { externalFunction with
    entry := { externalFunction.entry with needFnStub := true }
    possiblyDynamicRelocs := 1
    noFnStub := true }⟩
  relDyn := .empty
  textrel := false
  staticTls := false

def wordRun : LinkRun Unit wordLink plainGeneric where
  id _ := 0
  name _ := "f"
  loads := [.resolve () externalFunction, .check (functionReloc .rMips32 4)]
  loaded := wordLoaded
  loads_ok := rfl
  plt := ⟨0, 0, 0, 0, 0⟩
  adjusts := [.adjust ()]
  adjusted := ⟨wordLoaded.table, .empty, ⟨0, 0, 0, 0, 0⟩, 0⟩
  adjusts_ok := rfl
  walk := ⟨[()], by decide, by decide⟩

theorem wordRun_fits : wordRun.WordsFit plainEnv referenceElfLib [wordCall] where
  plt _ c _ h _ plt := by cases plt
  many _ wrapped := absurd wrapped.1 (show ¬2 ^ 29 ≤ wordRun.absoluteRelocs () by decide)
  gone before c after split _ putOut := by
    have own : c = wordCall := by
      have member : c ∈ [wordCall] := split ▸ List.mem_append_right _ List.mem_cons_self
      exact List.mem_singleton.mp member
    subst own
    cases putOut

end Openisa.Dynamic
