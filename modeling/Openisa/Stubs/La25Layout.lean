import Openisa.Library.JoinRun
import Openisa.Stubs.La25Stubs

/-! Every stub has bytes of its own, and every symbol that needs a stub has one for its place. -/

namespace Openisa.Stubs

open Openisa.Bfd
open Openisa.Elf
open Openisa.Library

variable {η : Type}

/-- Two stubs of one section do not meet. -/
def La25Stub.Apart (a b : La25Stub η) : Prop := a.place = b.place → a.offset + 16 ≤ b.offset

/-- A stub at the end of a section that ends where its target begins. -/
structure StubState.Before (st : StubState η) (stub : La25Stub η) (sec : IntroSection) : Prop where
  ends : stub.offset + 8 = sec.size
  before : sec.before = (st.symbol stub.h).la25Target.1
  alignment : sec.alignmentPower = sec.before.alignmentPower
  whole : 2 ^ sec.alignmentPower ∣ sec.size
  start : (st.symbol stub.h).la25Target.2 = 0

structure StubState.Fits (st : StubState η) (stub : La25Stub η) : Prop where
  trampoline : stub.place = .trampoline → ∃ size, st.strampoline = some size ∧ stub.offset + 16 ≤ size ∧ 16 ∣ stub.offset
  «intro» : ∀ i, stub.place = .intro i → ∃ sec, st.intros[i]? = some sec ∧ st.Before stub sec

/-- The invariant of the traversal. -/
structure StubState.Laid (st : StubState η) : Prop where
  apart : st.stubs.Pairwise La25Stub.Apart
  whole : ∀ size, st.strampoline = some size → 16 ∣ size
  fits : ∀ stub ∈ st.stubs, st.Fits stub
  pointed : ∀ h stub, st.la25Stub h = some stub → stub ∈ st.stubs ∧ (st.symbol h).samePlace (st.symbol stub.h) = true

def freshStubs (symbol : η → FunctionSymbol) : StubState η := ⟨symbol, fun _ => none, [], none, [], [], [], []⟩

theorem freshStubs_laid (symbol : η → FunctionSymbol) : (freshStubs symbol).Laid :=
  ⟨List.Pairwise.nil, fun _ none => (nomatch none), fun _ none => (absurd none List.not_mem_nil),
    fun _ _ none => nomatch none⟩

structure SameTargets (st st' : StubState η) : Prop where
  place : ∀ h, (st'.symbol h).sec = (st.symbol h).sec ∧ (st'.symbol h).value = (st.symbol h).value
  target : ∀ h, (st'.symbol h).la25Target = (st.symbol h).la25Target

theorem SameTargets.refl (st : StubState η) : SameTargets st st := ⟨fun _ => ⟨rfl, rfl⟩, fun _ => rfl⟩

theorem SameTargets.trans {a b c : StubState η} (first : SameTargets a b) (second : SameTargets b c) : SameTargets a c :=
  ⟨fun h => ⟨(second.place h).1.trans (first.place h).1, (second.place h).2.trans (first.place h).2⟩,
    fun h => (second.target h).trans (first.target h)⟩

theorem SameTargets.samePlace {st st' : StubState η} (same : SameTargets st st') (g h : η) :
    (st'.symbol g).samePlace (st'.symbol h) = (st.symbol g).samePlace (st.symbol h) := by
  rw [FunctionSymbol.samePlace, FunctionSymbol.samePlace, (same.place g).1, (same.place g).2, (same.place h).1,
    (same.place h).2]

theorem StubState.Before.of_same {st st' : StubState η} {stub : La25Stub η} {sec : IntroSection}
    (before : st.Before stub sec) (same : SameTargets st st') : st'.Before stub sec :=
  ⟨before.ends, by rw [same.target]; exact before.before, before.alignment, before.whole,
    by rw [same.target]; exact before.start⟩

theorem StubState.Laid.of_same {st st' : StubState η} (laid : st.Laid) (same : SameTargets st st')
    (stubs : st'.stubs = st.stubs) (pointers : st'.la25Stub = st.la25Stub) (strampoline : st'.strampoline = st.strampoline)
    (intros : st'.intros = st.intros) : st'.Laid where
  apart := stubs ▸ laid.apart
  whole := strampoline ▸ laid.whole
  fits := by
    intro stub member
    rw [stubs] at member
    obtain ⟨jumps, falls⟩ := laid.fits stub member
    refine ⟨fun place => strampoline ▸ jumps place, fun i place => ?_⟩
    obtain ⟨sec, present, before⟩ := falls i place
    exact ⟨sec, intros ▸ present, before.of_same same⟩
  pointed := by
    intro h stub points
    rw [pointers] at points
    rw [same.samePlace, stubs]
    exact laid.pointed h stub points

/-- What a step of the traversal leaves alone: all but the table of stubs and the marks of symbols. -/
structure Unstubbed (st st' : StubState η) : Prop where
  same : SameTargets st st'
  stubs : st'.stubs = st.stubs
  pointers : st'.la25Stub = st.la25Stub
  strampoline : st'.strampoline = st.strampoline
  intros : st'.intros = st.intros

theorem Unstubbed.laid {st st' : StubState η} (un : Unstubbed st st') (laid : st.Laid) : st'.Laid :=
  laid.of_same un.same un.stubs un.pointers un.strampoline un.intros

theorem Unstubbed.trans {a b c : StubState η} (first : Unstubbed a b) (second : Unstubbed b c) : Unstubbed a c :=
  ⟨first.same.trans second.same, second.stubs.trans first.stubs, second.pointers.trans first.pointers,
    second.strampoline.trans first.strampoline, second.intros.trans first.intros⟩

theorem exclude_unstubbed (st : StubState η) (sec : Option FunctionSection) (unneeded : Bool) :
    Unstubbed st (st.exclude sec unneeded) := by
  unfold StubState.exclude
  split
  · exact ⟨⟨fun _ => ⟨rfl, rfl⟩, fun _ => rfl⟩, rfl, rfl, rfl, rfl⟩
  · exact ⟨SameTargets.refl st, rfl, rfl, rfl, rfl⟩

variable [DecidableEq η]

theorem modify_same (st : StubState η) (h : η) (f : FunctionSymbol → FunctionSymbol)
    (place : ∀ s, (f s).sec = s.sec ∧ (f s).value = s.value) (target : ∀ s, (f s).la25Target = s.la25Target) :
    SameTargets st (st.modify h f) := by
  constructor <;> intro g <;> by_cases here : g = h
  · subst here
    simp [StubState.modify, place]
  · simp [StubState.modify, here]
  · subst here
    simp [StubState.modify, target]
  · simp [StubState.modify, here]

theorem modify_unstubbed (st : StubState η) (h : η) (f : FunctionSymbol → FunctionSymbol)
    (place : ∀ s, (f s).sec = s.sec ∧ (f s).value = s.value) (target : ∀ s, (f s).la25Target = s.la25Target) :
    Unstubbed st (st.modify h f) :=
  ⟨modify_same st h f place target, rfl, rfl, rfl, rfl⟩

theorem exportStub_unstubbed (h : η) (st : StubState η) : Unstubbed st (exportStub h st) := by
  have needed := modify_unstubbed st h (fun s => { s with needFnStub := true }) (fun _ => ⟨rfl, rfl⟩) (fun _ => rfl)
  unfold exportStub
  dsimp only
  split
  · exact ⟨⟨needed.same.place, needed.same.target⟩, rfl, rfl, rfl, rfl⟩
  · exact ⟨SameTargets.refl st, rfl, rfl, rfl, rfl⟩

theorem mipsElfCheckMips16Stubs_unstubbed (h : η) (st : StubState η) : Unstubbed st (mipsElfCheckMips16Stubs h st) :=
  (((exportStub_unstubbed h st).trans (exclude_unstubbed _ _ _)).trans (exclude_unstubbed _ _ _)).trans
    (exclude_unstubbed _ _ _)

section Add

variable {st : StubState η} {h : η}

theorem samePlace_self (s : FunctionSymbol) : s.samePlace s = true := by
  simp [FunctionSymbol.samePlace]

theorem place_laid (laid : st.Laid) (new : La25Stub η) (own : new.h = h) (st' : StubState η)
    (same : SameTargets st st') (stubs : st'.stubs = st.stubs ++ [new])
    (pointers : st'.la25Stub = Function.update st.la25Stub h (some new))
    (behind : ∀ stub ∈ st.stubs, stub.Apart new) (whole : ∀ size, st'.strampoline = some size → 16 ∣ size)
    (fits : ∀ stub ∈ st.stubs, st'.Fits stub) (newFits : st'.Fits new) :
    st'.Laid where
  apart := by
    rw [stubs, List.pairwise_append]
    exact ⟨laid.apart, List.pairwise_singleton _ _, fun a member b last => by
      rw [List.mem_singleton.mp last]; exact behind a member⟩
  whole := whole
  fits := by
    intro stub member
    rw [stubs, List.mem_append, List.mem_singleton] at member
    rcases member with old | rfl
    · exact fits stub old
    · exact newFits
  pointed := by
    intro g stub points
    rw [pointers] at points
    rw [stubs, same.samePlace]
    by_cases here : g = h
    · subst here
      rw [Function.update_self] at points
      cases points
      exact ⟨by simp, own ▸ samePlace_self _⟩
    · rw [Function.update_of_ne here] at points
      obtain ⟨member, shared⟩ := laid.pointed g stub points
      exact ⟨List.mem_append_left _ member, shared⟩

theorem mipsElfAddLa25Trampoline_laid (laid : st.Laid) : (mipsElfAddLa25Trampoline h st).Laid := by
  have whole : 16 ∣ st.strampoline.getD 0 := by
    cases present : st.strampoline with
    | none => exact dvd_zero 16
    | some size => exact laid.whole size present
  refine place_laid laid ⟨.trampoline, st.strampoline.getD 0, h⟩ rfl _ ⟨fun _ => ⟨rfl, rfl⟩, fun _ => rfl⟩ rfl rfl
    ?_ ?_ ?_ ?_
  · intro stub member shared
    obtain ⟨size, present, room, _⟩ := (laid.fits stub member).trampoline shared
    rw [present]
    exact room
  · intro size grown
    have sum : st.strampoline.getD 0 + 16 = size := Option.some.inj grown
    exact sum ▸ Dvd.dvd.add whole (dvd_refl 16)
  · intro stub member
    obtain ⟨jumps, falls⟩ := laid.fits stub member
    refine ⟨fun place => ?_, fun i place => ?_⟩
    · obtain ⟨size, present, room, words⟩ := jumps place
      refine ⟨size + 16, ?_, by omega, words⟩
      rw [mipsElfAddLa25Trampoline, present]
      rfl
    · obtain ⟨sec, present, before⟩ := falls i place
      exact ⟨sec, present, ⟨before.ends, before.before, before.alignment, before.whole, before.start⟩⟩
  · exact ⟨fun _ => ⟨_, rfl, le_refl _, whole⟩, fun _ none => nomatch none⟩

theorem mipsElfAddLa25Intro_laid (laid : st.Laid) (near : (st.symbol h).useTrampolineP = false) :
    (mipsElfAddLa25Intro h st).Laid := by
  obtain ⟨start, power⟩ : (st.symbol h).la25Target.2 = 0 ∧ (st.symbol h).la25Target.1.alignmentPower ≤ 4 := by
    simpa [FunctionSymbol.useTrampolineP] using near
  refine place_laid laid ⟨.intro st.intros.length, _, h⟩ rfl _ ⟨fun _ => ⟨rfl, rfl⟩, fun _ => rfl⟩ rfl rfl
    ?_ laid.whole ?_ ?_
  · intro stub member shared
    obtain ⟨sec, present, _⟩ := (laid.fits stub member).intro _ shared
    rw [List.getElem?_eq_none (le_refl _)] at present
    cases present
  · intro stub member
    obtain ⟨jumps, falls⟩ := laid.fits stub member
    refine ⟨jumps, fun i place => ?_⟩
    obtain ⟨sec, present, before⟩ := falls i place
    exact ⟨sec, List.getElem?_append_left (List.getElem?_eq_some_iff.mp present).1 ▸ present,
      ⟨before.ends, before.before, before.alignment, before.whole, before.start⟩⟩
  · refine ⟨fun none => (nomatch none), fun i place => ?_⟩
    cases place
    refine ⟨_, List.getElem?_concat_length, ⟨rfl, rfl, rfl, ?_, start⟩⟩
    dsimp only
    split
    · next wide =>
      have four : (st.symbol h).la25Target.1.alignmentPower = 4 := by omega
      rw [four]
      decide
    · next narrow => exact pow_dvd_pow 2 (show _ ≤ 3 by omega)

theorem mipsElfAddLa25Stub_laid (laid : st.Laid) : (mipsElfAddLa25Stub h st).Laid := by
  unfold mipsElfAddLa25Stub
  split
  · next stub found =>
    refine ⟨laid.apart, laid.whole, fun other member => ?_, fun g other points => ?_⟩
    · obtain ⟨jumps, falls⟩ := laid.fits other member
      refine ⟨jumps, fun i place => ?_⟩
      obtain ⟨sec, present, before⟩ := falls i place
      exact ⟨sec, present, ⟨before.ends, before.before, before.alignment, before.whole, before.start⟩⟩
    · by_cases here : g = h
      · subst here
        simp only [Function.update_self, Option.some.injEq] at points
        have shared := List.find?_some found
        exact points ▸ ⟨List.mem_of_find?_eq_some found, shared⟩
      · simp only [Function.update_of_ne here] at points
        exact laid.pointed g other points
  · split
    · exact mipsElfAddLa25Trampoline_laid laid
    · next near => exact mipsElfAddLa25Intro_laid laid (by simpa using near)

theorem mipsElfAddLa25Stub_spec (h : η) (st : StubState η) :
    (mipsElfAddLa25Stub h st).symbol = st.symbol ∧ ((mipsElfAddLa25Stub h st).la25Stub h).isSome = true ∧
      ∀ g, g ≠ h → (mipsElfAddLa25Stub h st).la25Stub g = st.la25Stub g := by
  unfold mipsElfAddLa25Stub
  split
  · exact ⟨rfl, by simp, fun g other => by simp [other]⟩
  · unfold mipsElfAddLa25Trampoline mipsElfAddLa25Intro StubState.place
    split
    · exact ⟨rfl, by simp, fun g other => by simp [other]⟩
    · exact ⟨rfl, by simp, fun g other => by simp [other]⟩

end Add

/-- The function might need $25 on entry and is called by code that does not set it. -/
def FunctionSymbol.NeedsStub (s : FunctionSymbol) : Prop :=
  s.localPicFunctionP = true ∧ s.sec.collected = false ∧ s.hasNonpicBranches = true

theorem exportStub_other {g h : η} (other : g ≠ h) (st : StubState η) : (exportStub h st).symbol g = st.symbol g := by
  unfold exportStub
  dsimp only
  split
  · simp [StubState.modify, other]
  · rfl

theorem mipsElfCheckMips16Stubs_other {g h : η} (other : g ≠ h) (st : StubState η) :
    (mipsElfCheckMips16Stubs h st).symbol g = st.symbol g := by
  have kept : ∀ (e : StubState η) sec unneeded, (e.exclude sec unneeded).symbol = e.symbol := by
    intro e sec unneeded
    unfold StubState.exclude
    split <;> rfl
  unfold mipsElfCheckMips16Stubs
  dsimp only
  rw [kept, kept, kept, exportStub_other other]

section CheckSymbol

variable (outputPic : Bool) (h : η) (st : StubState η)

theorem mipsElfCheckSymbol_cases :
    (mipsElfCheckSymbol false outputPic h st = mipsElfCheckMips16Stubs h st ∧
        ¬((mipsElfCheckMips16Stubs h st).symbol h).NeedsStub) ∨
      mipsElfCheckSymbol false outputPic h st = mipsElfAddLa25Stub h (mipsElfCheckMips16Stubs h st) := by
  unfold mipsElfCheckSymbol
  simp only [Bool.false_eq_true, if_false]
  split
  · split
    · next collected => exact Or.inl ⟨rfl, fun needs => by simp [needs.2.1] at collected⟩
    · split
      · exact Or.inr rfl
      · next idle => exact Or.inl ⟨rfl, fun needs => idle needs.2.2⟩
  · next plain => exact Or.inl ⟨rfl, fun needs => plain needs.1⟩

theorem mipsElfCheckSymbol_laid (laid : st.Laid) : (mipsElfCheckSymbol false outputPic h st).Laid := by
  have checked := (mipsElfCheckMips16Stubs_unstubbed h st).laid laid
  rcases mipsElfCheckSymbol_cases outputPic h st with ⟨same, _⟩ | added
  · rw [same]
    exact checked
  · rw [added]
    exact mipsElfAddLa25Stub_laid checked

theorem mipsElfCheckSymbol_same : SameTargets st (mipsElfCheckSymbol false outputPic h st) := by
  have checked := (mipsElfCheckMips16Stubs_unstubbed h st).same
  rcases mipsElfCheckSymbol_cases outputPic h st with ⟨same, _⟩ | added
  · rw [same]
    exact checked
  · rw [added]
    obtain ⟨symbols, _⟩ := mipsElfAddLa25Stub_spec h (mipsElfCheckMips16Stubs h st)
    exact checked.trans ⟨fun g => by rw [symbols]; exact ⟨rfl, rfl⟩, fun g => by rw [symbols]⟩

/-- The symbol has a stub if it needs one. -/
def StubState.Served (st : StubState η) (h : η) : Prop := (st.symbol h).NeedsStub → (st.la25Stub h).isSome = true

theorem mipsElfCheckSymbol_serves : (mipsElfCheckSymbol false outputPic h st).Served h := by
  intro needs
  rcases mipsElfCheckSymbol_cases outputPic h st with ⟨same, idle⟩ | added
  · rw [same] at needs
    exact absurd needs idle
  · rw [added]
    exact (mipsElfAddLa25Stub_spec h _).2.1

theorem mipsElfCheckSymbol_keeps {g : η} (served : st.Served g) : (mipsElfCheckSymbol false outputPic h st).Served g := by
  by_cases here : g = h
  · exact here ▸ mipsElfCheckSymbol_serves outputPic h st
  · have symbol := mipsElfCheckMips16Stubs_other here st
    have pointers := (mipsElfCheckMips16Stubs_unstubbed h st).pointers
    intro needs
    rcases mipsElfCheckSymbol_cases outputPic h st with ⟨same, _⟩ | added
    · rw [same, symbol] at needs
      rw [same, pointers]
      exact served needs
    · obtain ⟨symbols, _, others⟩ := mipsElfAddLa25Stub_spec h (mipsElfCheckMips16Stubs h st)
      rw [added, symbols, symbol] at needs
      rw [added, others g here, pointers]
      exact served needs

end CheckSymbol

theorem checked_laid_served (outputPic : Bool) (order : List η) (st : StubState η) (laid : st.Laid) :
    (mipsElfCheckSymbols false outputPic order st).Laid ∧ SameTargets st (mipsElfCheckSymbols false outputPic order st) ∧
      ∀ h ∈ order, (mipsElfCheckSymbols false outputPic order st).Served h := by
  have run := Run.of_foldl (fun st h => mipsElfCheckSymbol false outputPic h st) order st
  have kept : ∀ h ∈ order, ∀ s t, t = mipsElfCheckSymbol false outputPic h s → s.Laid ∧ SameTargets st s →
      t.Laid ∧ SameTargets st t := by
    rintro h _ s t rfl ⟨laid, same⟩
    exact ⟨mipsElfCheckSymbol_laid outputPic h s laid, same.trans (mipsElfCheckSymbol_same outputPic h s)⟩
  have start := And.intro laid (SameTargets.refl st)
  obtain ⟨outLaid, same⟩ := run.invariant kept start
  exact ⟨outLaid, same, run.each kept (fun h _ s t taken _ => taken ▸ mipsElfCheckSymbol_serves outputPic h s)
    (fun h _ g s t taken _ before => taken ▸ mipsElfCheckSymbol_keeps outputPic h s before) start⟩

/-- After the traversal, in any order, every symbol that needs a stub has one for its place, no two stubs
share a byte, and a stub before its function ends where the function begins. -/
theorem la25_stubs_laid_out (outputPic : Bool) (order : List η) (st : StubState η) (laid : st.Laid) :
    (mipsElfCheckSymbols false outputPic order st).Laid ∧
      SameTargets st (mipsElfCheckSymbols false outputPic order st) ∧
      ∀ h ∈ order, ((mipsElfCheckSymbols false outputPic order st).symbol h).NeedsStub →
        ∃ stub ∈ (mipsElfCheckSymbols false outputPic order st).stubs,
          (mipsElfCheckSymbols false outputPic order st).la25Stub h = some stub ∧
            ((mipsElfCheckSymbols false outputPic order st).symbol h).samePlace
              ((mipsElfCheckSymbols false outputPic order st).symbol stub.h) = true := by
  obtain ⟨outLaid, same, served⟩ := checked_laid_served outputPic order st laid
  refine ⟨outLaid, same, fun h member needs => ?_⟩
  obtain ⟨stub, points⟩ := Option.isSome_iff_exists.mp (served h member needs)
  obtain ⟨present, shared⟩ := outLaid.pointed h stub points
  exact ⟨stub, present, points, shared⟩

/-- Two functions of one section of position-independent code, both called from elsewhere. -/
def picFunctions : Bool → FunctionSymbol := fun second =>
  { name := if second then "second" else "first", type := .defined, defRegular := true, dynamic := false
    sec := ⟨1, 4, false, false, true, 0x400110, 0⟩, value := if second then 64 else 0, isa := .standard
    mipsPic := false, fnStub := none, needFnStub := false, callStub := none, callFpStub := none
    hasNonpicBranches := true }

theorem la25_stubs_laid_out_functions :
    (mipsElfCheckSymbols false false [false, true] (freshStubs picFunctions)).Laid :=
  (la25_stubs_laid_out false [false, true] (freshStubs picFunctions) (freshStubs_laid picFunctions)).1

end Openisa.Stubs
