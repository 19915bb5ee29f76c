import Openisa.Dynamic.AllocateDynrelocs
import Openisa.Library.JoinRun

/-! The section `.rel.dyn` is as large as all the room that was asked for. -/

namespace Openisa.Dynamic

open Openisa.Library

variable {η : Type}

/-- The relocations that there is room for, without the null element. -/
def RelDyn.room (s : RelDyn η) : Nat := (s.asked.map Prod.snd).sum

/-- The size counts the room and the null element, which only an empty section lacks. -/
structure RelDyn.Sized (link : DynLink) (s : RelDyn η) : Prop where
  size : s.size = relSize link * (s.relocCount + s.room)
  null : s.relocCount = 0 → s.size = 0

def RelDyn.Grows (link : DynLink) (s s' : RelDyn η) : Prop :=
  s' = s ∨ ∃ who n, s' = s.mipsElfAllocateDynamicRelocations link who n

theorem rel_bytes_eq {link : DynLink} (notVxworks : link.isVxworks = false) (n : BitVec 32) :
    relBytes link n = relSize link * (relBytes link n / relSize link) := by
  have entry : relSize link = 8 := by simp [relSize, notVxworks]
  have eight : (BitVec.ofNat 32 8).toNat = 8 := by decide
  rw [relBytes, entry, BitVec.toNat_mul, eight]
  omega

theorem RelDyn.Sized.allocate {link : DynLink} (notVxworks : link.isVxworks = false) {s : RelDyn η}
    (sized : s.Sized link) (who : RoomFor η) (n : BitVec 32) :
    (s.mipsElfAllocateDynamicRelocations link who n).Sized link := by
  have entry : relSize link = 8 := by simp [relSize, notVxworks]
  have bytes := rel_bytes_eq notVxworks n
  have more : (s.mipsElfAllocateDynamicRelocations link who n).room = s.room + relBytes link n / relSize link := by
    simp [room, asked_allocate]
  have size := sized.size
  have null := sized.null
  refine ⟨?_, ?_⟩
  · rw [more]
    unfold mipsElfAllocateDynamicRelocations
    rw [notVxworks]
    by_cases empty : s.size = 0
    · simp only [empty, Bool.not_false, decide_true, Bool.and_self, if_true]
      rw [empty, entry] at size
      rw [entry] at bytes ⊢
      omega
    · simp only [empty, decide_false, Bool.and_false, Bool.false_eq_true, if_false]
      rw [entry] at bytes size ⊢
      omega
  · unfold mipsElfAllocateDynamicRelocations
    by_cases empty : s.size = 0
    · simp [empty, notVxworks]
    · simp only [empty, decide_false, Bool.and_false, Bool.false_eq_true, if_false]
      exact fun none => absurd (null none) empty

theorem RelDyn.Sized.grows {link : DynLink} (notVxworks : link.isVxworks = false) {s s' : RelDyn η}
    (sized : s.Sized link) (grows : s.Grows link s') : s'.Sized link := by
  rcases grows with rfl | ⟨who, n, rfl⟩
  · exact sized
  · exact sized.allocate notVxworks who n

variable [DecidableEq η] {link : DynLink} {generic : Generic η}

theorem load_grows {st st' : LoadState η} {copy : CopyFlags η} {step : LoadStep η}
    (ran : loadStep link copy st step = .ok st') : st.relDyn.Grows link st'.relDyn := by
  cases step with
  | check r =>
    unfold loadStep checkReloc at ran
    dsimp only at ran
    split at ran
    · cases ran
    split at ran
    · cases ran
    split at ran
    · cases ran
    cases ran
    split
    · unfold checkLocal
      split
      · exact .inr ⟨_, _, rfl⟩
      · exact .inl rfl
    · unfold checkGlobal
      dsimp only
      split
      · exact .inr ⟨_, _, rfl⟩
      · exact .inl rfl
  | indirect ind dir =>
    cases ran
    exact .inl rfl
  | resolve h s =>
    cases ran
    exact .inl rfl

theorem adjust_grows {st st' : AdjustState η} {step : AdjustStep η} (ran : adjustStep link generic st step = .ok st') :
    st.relDyn.Grows link st'.relDyn := by
  cases step with
  | adjust h =>
    unfold adjustStep adjustDynamicSymbol at ran
    dsimp only at ran
    repeat' split at ran
    all_goals cases ran
    all_goals first
      | exact .inl rfl
      | exact .inr ⟨_, _, rfl⟩
  | «alias» dir ind =>
    cases ran
    exact .inl rfl
  | resolve h s =>
    cases ran
    exact .inl rfl

theorem allocate_grows (h : η) (st : SizeState η) : st.relDyn.Grows link (allocateDynrelocs link h st).relDyn := by
  unfold allocateDynrelocs
  dsimp only
  split
  · exact .inl rfl
  split
  · exact .inl rfl
  split
  · exact .inl rfl
  exact .inr ⟨_, _, rfl⟩

theorem sized_passes (notVxworks : link.isVxworks = false) {id : η → Nat} {name : η → String}
    {loads : List (LoadStep η)} {loaded : LoadState η}
    (loads_ok : loadAll link generic.copyFlags (LoadState.start id name) loads = .ok loaded) {plt : PltSections}
    {adjusts : List (AdjustStep η)} {adjusted : AdjustState η}
    (adjusts_ok : adjustAll link generic ⟨loaded.table, loaded.relDyn, plt, 0⟩ adjusts = .ok adjusted)
    (textrel : Bool) (order : List η) :
    (allocateAll link ⟨adjusted.table, adjusted.relDyn, textrel⟩ order).relDyn.Sized link := by
  have start : (LoadState.start id name).relDyn.Sized link := ⟨rfl, fun _ => rfl⟩
  have loading : ∀ step ∈ loads, ∀ s t : LoadState η, loadStep link generic.copyFlags s step = .ok t →
      s.relDyn.Sized link → t.relDyn.Sized link :=
    fun _ _ _ _ taken before => before.grows notVxworks (load_grows taken)
  have adjusting : ∀ step ∈ adjusts, ∀ s t : AdjustState η, adjustStep link generic s step = .ok t →
      s.relDyn.Sized link → t.relDyn.Sized link :=
    fun _ _ _ _ taken before => before.grows notVxworks (adjust_grows taken)
  have afterLoad : loaded.relDyn.Sized link := (Run.of_foldlM loads_ok).invariant loading start
  have afterAdjust : adjusted.relDyn.Sized link := (Run.of_foldlM adjusts_ok).invariant adjusting afterLoad
  have walked : ∀ (order : List η) (st : SizeState η), st.relDyn.Sized link →
      (allocateAll link st order).relDyn.Sized link := by
    intro order
    induction order with
    | nil => exact fun st before => before
    | cons h rest ih => exact fun st before => ih _ (before.grows notVxworks (allocate_grows h st))
  exact walked order _ afterAdjust

end Openisa.Dynamic
