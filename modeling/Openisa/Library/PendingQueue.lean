import Mathlib.Data.List.Count

/-! Lists of pending items that are filled one item at a time and emptied all at once, by a key that
may or may not be the one an item waits for. -/

namespace Openisa.Library.PendingQueue

variable {α κ : Type}

inductive Action (α κ : Type) where
  | push (x : α)
  | drain (key : κ)
  | skip

inductive Event (α κ : Type) where
  | pushed (x : α)
  | drained (x : α) (key : κ)

structure Queue (α κ : Type) where
  pending : List α
  history : List (Event α κ)

def after (pending : List α) : Action α κ → List α
  | .push x => x :: pending
  | .drain _ => []
  | .skip => pending

def emitted (pending : List α) : Action α κ → List (Event α κ)
  | .push x => [.pushed x]
  | .drain key => pending.map fun x => .drained x key
  | .skip => []

def Queue.step (q : Queue α κ) (a : Action α κ) : Queue α κ :=
  ⟨after q.pending a, q.history ++ emitted q.pending a⟩

def Queue.run (q : Queue α κ) (actions : List (Action α κ)) : Queue α κ :=
  actions.foldl Queue.step q

def events (pending : List α) : List (Action α κ) → List (Event α κ)
  | [] => []
  | a :: rest => emitted pending a ++ events (after pending a) rest

def Clean (own : α → κ) (es : List (Event α κ)) : Prop :=
  ∀ x key, Event.drained x key ∈ es → key = own x

def nextDrain : List (Action α κ) → Option κ
  | [] => none
  | .drain key :: _ => some key
  | .push _ :: rest => nextDrain rest
  | .skip :: rest => nextDrain rest

/-- Every item that is pushed is next drained by the key it waits for. -/
def Paired (own : α → κ) : List (Action α κ) → Prop
  | [] => True
  | .push x :: rest => nextDrain rest = some (own x) ∧ Paired own rest
  | .drain _ :: rest => Paired own rest
  | .skip :: rest => Paired own rest

theorem run_history (q : Queue α κ) (actions : List (Action α κ)) :
    (q.run actions).history = q.history ++ events q.pending actions := by
  induction actions generalizing q with
  | nil => exact (List.append_nil _).symm
  | cons a rest ih =>
      rw [Queue.run, List.foldl_cons, ← Queue.run, ih, events, ← List.append_assoc]
      rfl

theorem run_cons (q : Queue α κ) (a : Action α κ) (rest : List (Action α κ)) :
    q.run (a :: rest) = (q.step a).run rest := rfl

theorem clean_append (own : α → κ) (es fs : List (Event α κ)) :
    Clean own (es ++ fs) ↔ Clean own es ∧ Clean own fs := by
  constructor
  · intro clean
    exact ⟨fun x key member => clean x key (List.mem_append_left _ member),
      fun x key member => clean x key (List.mem_append_right _ member)⟩
  · rintro ⟨first, second⟩ x key member
    rcases List.mem_append.mp member with member | member
    · exact first x key member
    · exact second x key member

theorem clean_drained (own : α → κ) (pending : List α) (key : κ) :
    Clean own (pending.map fun x => Event.drained x key) ↔ ∀ x ∈ pending, key = own x := by
  constructor
  · intro clean x member
    exact clean x key (List.mem_map.mpr ⟨x, member, rfl⟩)
  · intro keys x key' member
    obtain ⟨y, present, same⟩ := List.mem_map.mp member
    cases same
    exact keys x present

/-- A run leaves nothing pending, and drains everything by its own key, exactly when the next drain is
the right one for the items that are pending now and for every item the run pushes. -/
theorem run_clean_iff (own : α → κ) (q : Queue α κ) (actions : List (Action α κ)) :
    (q.run actions).pending = [] ∧ Clean own (events q.pending actions) ↔
      (∀ x ∈ q.pending, nextDrain actions = some (own x)) ∧ Paired own actions := by
  induction actions generalizing q with
  | nil =>
      simp only [Queue.run, List.foldl_nil, events, nextDrain, Paired, and_true]
      constructor
      · rintro ⟨empty, -⟩ x member
        rw [empty] at member
        cases member
      · intro none
        refine ⟨List.eq_nil_iff_forall_not_mem.mpr fun x member => ?_, nofun⟩
        cases none x member
  | cons a rest ih =>
      rw [run_cons, events, clean_append]
      have later := ih (q.step a)
      cases a with
      | push x =>
          have quiet : Clean own (emitted q.pending (.push x)) := by
            intro y key member
            cases List.mem_singleton.mp member
          simp only [quiet, true_and, nextDrain, Paired]
          refine later.trans ?_
          simp only [Queue.step, after, List.mem_cons, forall_eq_or_imp]
          exact ⟨fun ⟨⟨next, all⟩, paired⟩ => ⟨all, next, paired⟩,
            fun ⟨all, next, paired⟩ => ⟨⟨next, all⟩, paired⟩⟩
      | drain key =>
          simp only [emitted, clean_drained, nextDrain, Option.some.injEq, Paired]
          have empty : (q.step (.drain key)).pending = [] := rfl
          rw [empty] at later
          simp only [List.not_mem_nil, false_implies, implies_true, true_and] at later
          rw [← later]
          exact ⟨fun ⟨done, keys, clean⟩ => ⟨keys, done, clean⟩, fun ⟨keys, done, clean⟩ => ⟨done, keys, clean⟩⟩
      | skip =>
          have quiet : Clean own (emitted q.pending (.skip : Action α κ)) := nofun
          simp only [quiet, true_and, nextDrain, Paired]
          exact later

variable [DecidableEq α]

def Event.pushes (x : α) : Event α κ → Bool
  | .pushed y => y = x
  | .drained _ _ => false

def Event.drains (x : α) : Event α κ → Bool
  | .pushed _ => false
  | .drained y _ => y = x

theorem drains_map (x : α) (pending : List α) (key : κ) :
    (pending.map fun y => Event.drained y key).countP (Event.drains x) = pending.count x := by
  rw [List.countP_map, List.count]
  exact List.countP_congr fun y _ => by simp [Event.drains]

theorem pushes_map (x : α) (pending : List α) (key : κ) :
    (pending.map fun y => Event.drained y key).countP (Event.pushes x) = 0 := by
  rw [List.countP_map]
  exact List.countP_eq_zero.mpr fun y _ => Bool.false_ne_true

theorem run_balance (q : Queue α κ) (actions : List (Action α κ)) (x : α) :
    q.pending.count x + (events q.pending actions).countP (Event.pushes x) =
      (events q.pending actions).countP (Event.drains x) + (q.run actions).pending.count x := by
  induction actions generalizing q with
  | nil => simp [events, Queue.run]
  | cons a rest ih =>
      have later := ih (q.step a)
      rw [run_cons, events, List.countP_append, List.countP_append]
      cases a with
      | push y =>
          simp only [Queue.step, after, List.count_cons, emitted, List.countP_singleton, Event.pushes,
            Event.drains, decide_eq_true_eq, beq_iff_eq, Bool.false_eq_true, if_false] at later ⊢
          omega
      | drain key =>
          simp only [Queue.step, after, List.count_nil, emitted, drains_map, pushes_map] at later ⊢
          omega
      | skip =>
          simp only [Queue.step, after, emitted, List.countP_nil] at later ⊢
          omega

end Openisa.Library.PendingQueue
