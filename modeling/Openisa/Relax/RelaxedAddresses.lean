import Openisa.Relax.KeptTargets

/-! The high parts that relaxation deletes, and the addresses of the section before and after. -/

namespace Openisa.Relax

open Openisa.Bfd
open Openisa.Library
open Openisa.Library.ByteStore

variable {nl ng : Nat}

/-- The `j`-th relocation is a low part of the high part at `i`: no other high part against the symbol
comes between them. -/
def FedBy (relocs : List (Rela nl ng)) (i : Nat) (sym : Fin nl ⊕ Fin ng) (j : Nat) : Prop :=
  i < j ∧ (∃ rel, relocs[j]? = some rel ∧ rel.isA .rMicromipsLo16 sym = true) ∧
    ∀ k, i < k → k < j → ∀ rel, relocs[k]? = some rel → rel.isA .rMicromipsHi16 sym = false

variable (inp : Input nl ng) (part : MipsReloc → BfdVma → BfdVma) (s : CodeSection nl ng) (i : Nat)

/-- What is asked of the turn for the `i`-th relocation. -/
structure TurnPreserves : Prop where
  exactlyOne : ∀ rel, s.relocs[i]? = some rel → rel.type = .rMicromipsHi16 →
    (turn inp s i).deletion.isSome = true → ∃! j, FedBy s.relocs i rel.sym j
  inList : ∀ k ∈ (turn inp s i).read, k < s.relocs.length
  keeps : ∀ del ∈ (turn inp s i).deletion, del.Keeps inp part s

/-- The previous relocation is no high part against the symbol, and the next is a low part. -/
def NextPairs (sym : Fin nl ⊕ Fin ng) : Prop :=
  (0 < i → (relocAt inp s (i - 1)).isA .rMicromipsHi16 sym = false) ∧ i + 1 < s.relocs.length ∧
    (relocAt inp s (i + 1)).isA .rMicromipsLo16 sym = true

/-- What has to hold of the section if `r` is the relaxation that its tests choose for the `i`-th relocation: the bytes
that go lie in the section, and the losses of every relocation that is clear of them balance. -/
structure Relaxation.Condition (c : Candidate nl ng) (r : Rewritten nl ng) : Prop where
  single : c.isHigh = true → ∀ j, i + 2 ≤ j → ¬ FedBy s.relocs i c.rel.sym j
  room : (c.delAddr r).toNat + r.delcnt ≤ s.size.toNat
  partners : ∀ (k : Nat) (new : Rela nl ng), r.relocs[k]? = some new → Clear s (c.delAddr r) r.delcnt new →
    ∀ p ∈ partner r.relocs k, Clear s (c.delAddr r) r.delcnt p
  balanced : ∀ (k : Nat) (new : Rela nl ng), r.relocs[k]? = some new → Clear s (c.delAddr r) r.delcnt new →
    Balanced inp part s (c.delAddr r) r.delcnt (lost inp part s r k) k new.sym

structure TurnCondition : Prop where
  notLast : ∀ c, candidate inp s i = some c → c.isHigh = true → NextPairs inp s i c.rel.sym →
    i + 2 < s.relocs.length
  relaxes : ∀ c r, candidate inp s i = some c → relaxation inp s i c = some r →
    Relaxation.Condition inp part s i c r

section Neighbours

variable {inp s i} {sym : Fin nl ⊕ Fin ng}

theorem neighbours_inside (inside : i < s.relocs.length) :
    ∀ k ∈ (if i > 0 then [i - 1] else []) ++ (if i + 1 ≥ s.relocs.length then [] else [i + 1]),
      k < s.relocs.length := by
  intro k listed
  rcases List.mem_append.mp listed with before | behind
  · split at before
    · rw [List.mem_singleton] at before
      omega
    · cases before
  · split at behind
    · cases behind
    · rw [List.mem_singleton] at behind
      omega

theorem look_around_eq : lookAround inp s i sym =
    if (decide (i > 0) && (relocAt inp s (i - 1)).isA .rMicromipsHi16 sym) = true then
      ⟨false, if i > 0 then [i - 1] else []⟩
    else if (decide (i + 1 ≥ s.relocs.length) || !(relocAt inp s (i + 1)).isA .rMicromipsLo16 sym) = true then
      ⟨false, (if i > 0 then [i - 1] else []) ++ (if i + 1 ≥ s.relocs.length then [] else [i + 1])⟩
    else
      ⟨!(decide (i + 2 ≥ s.relocs.length) && (relocAt inp s (i + 2)).isA .rMicromipsLo16 sym),
        (if i > 0 then [i - 1] else []) ++ (if i + 1 ≥ s.relocs.length then [] else [i + 1]) ++
          if i + 2 ≥ s.relocs.length then [i + 2] else []⟩ := by
  have last : ∀ (test : Bool) (read : List Nat),
      (if test = true then (⟨false, read⟩ : LookAround) else ⟨true, read⟩) = ⟨!test, read⟩ := by
    intro test read
    cases test <;> rfl
  simp only [lookAround, last]

theorem next_pairs_iff : NextPairs inp s i sym ↔
    ¬ (decide (i > 0) && (relocAt inp s (i - 1)).isA .rMicromipsHi16 sym) = true ∧
      ¬ (decide (i + 1 ≥ s.relocs.length) || !(relocAt inp s (i + 1)).isA .rMicromipsLo16 sym) = true := by
  rw [NextPairs]
  simp

theorem look_around_pass (pass : (lookAround inp s i sym).pass = true) : NextPairs inp s i sym := by
  rw [look_around_eq] at pass
  split at pass
  · cases pass
  · split at pass
    · cases pass
    · exact next_pairs_iff.mpr ⟨‹_›, ‹_›⟩

theorem look_around_read (inside : i < s.relocs.length) :
    (∀ k ∈ (lookAround inp s i sym).read, k < s.relocs.length) ↔
      (NextPairs inp s i sym → i + 2 < s.relocs.length) := by
  have near := neighbours_inside inside
  rw [look_around_eq, next_pairs_iff]
  split
  · rename_i previous
    refine iff_of_true (fun k listed => near k (List.mem_append_left _ listed)) fun pair => ?_
    exact absurd previous pair.1
  · rename_i previous
    split
    · rename_i next
      exact iff_of_true near fun pair => absurd next pair.2
    · rename_i next
      constructor
      · intro all _
        by_contra last
        have second : i + 2 ≥ s.relocs.length := by omega
        have read := all (i + 2) (List.mem_append_right _ (by rw [if_pos second]; exact List.mem_singleton_self _))
        omega
      · intro more k listed
        have inner := more ⟨previous, next⟩
        rw [if_neg (by omega : ¬ i + 2 ≥ s.relocs.length), List.append_nil] at listed
        exact near k listed

end Neighbours

section Turn

variable {inp s i}

theorem turn_read (inside : i < s.relocs.length) :
    (∀ k ∈ (turn inp s i).read, k < s.relocs.length) ↔
      ∀ c, candidate inp s i = some c → c.isHigh = true → NextPairs inp s i c.rel.sym →
        i + 2 < s.relocs.length := by
  cases found : candidate inp s i with
  | none => simp [turn, found]
  | some c =>
    have read : (turn inp s i).read = if c.isHigh then (lookAround inp s i c.rel.sym).read else [] := by
      rw [turn, found]
    rw [read]
    by_cases high : c.isHigh = true
    · rw [if_pos high, look_around_read inside]
      constructor
      · rintro more c' same _
        cases same
        exact more
      · exact fun more => more c rfl high
    · rw [if_neg high]
      refine iff_of_true (fun k member => by cases member) fun c' same high' => ?_
      cases same
      exact absurd high' high

theorem high_relaxed {c : Candidate nl ng} {r : Rewritten nl ng} (chosen : relaxation inp s i c = some r)
    (type : c.rel.type = .rMicromipsHi16) : c.isHigh = true ∧ NextPairs inp s i c.rel.sym := by
  unfold relaxation at chosen
  by_cases high : c.isHigh = true
  · rw [if_pos high] at chosen
    by_cases pass : (lookAround inp s i c.rel.sym).pass = true
    · exact ⟨high, look_around_pass pass⟩
    · rw [if_neg pass] at chosen
      cases chosen
  · simp [high, type] at chosen

end Turn

theorem next_fed {sym : Fin nl ⊕ Fin ng} (pair : NextPairs inp s i sym) : FedBy s.relocs i sym (i + 1) := by
  obtain ⟨_, inside, low⟩ := pair
  refine ⟨Nat.lt_succ_self i, ⟨_, reloc_at_listed inp s inside, low⟩, fun k above below => ?_⟩
  omega

variable {inp s i}

/-- A deleted high part feeds exactly one low part exactly if it feeds none from the second next relocation on. -/
theorem exactly_one_iff {c : Candidate nl ng} {r : Rewritten nl ng} (chosen : relaxation inp s i c = some r)
    (type : c.rel.type = .rMicromipsHi16) :
    (∃! j, FedBy s.relocs i c.rel.sym j) ↔ ∀ j, i + 2 ≤ j → ¬ FedBy s.relocs i c.rel.sym j := by
  obtain ⟨_, pair⟩ := high_relaxed chosen type
  have next := next_fed inp s i pair
  constructor
  · rintro ⟨only, _, unique⟩ j far fed
    have first := unique (i + 1) next
    have second := unique j fed
    omega
  · intro single
    refine ⟨i + 1, next, fun j fed => ?_⟩
    by_contra other
    have above := fed.1
    exact single j (by omega) fed

theorem keeps_iff {c : Candidate nl ng} {r : Rewritten nl ng} (shape : Deletion.Of ⟨rewritten s r, c.delAddr r, r.delcnt⟩ s) :
    Deletion.Keeps inp part ⟨rewritten s r, c.delAddr r, r.delcnt⟩ s ↔
      (c.delAddr r).toNat + r.delcnt ≤ s.size.toNat ∧
        ∀ (k : Nat) (new : Rela nl ng), r.relocs[k]? = some new → Clear s (c.delAddr r) r.delcnt new →
          (∀ p ∈ partner r.relocs k, Clear s (c.delAddr r) r.delcnt p) ∧
            Balanced inp part s (c.delAddr r) r.delcnt (lost inp part s r k) k new.sym := by
  have before : ∀ {k : Nat} {new : Rela nl ng}, r.relocs[k]? = some new →
      ∃ rel, s.relocs[k]? = some rel ∧ new.sym = rel.sym := by
    intro k new listed'
    have short := (List.getElem?_eq_some_iff.mp listed').1
    have length : r.relocs.length = s.relocs.length := shape.length
    rw [length] at short
    exact ⟨_, List.getElem?_eq_getElem short, (shape.reloc (List.getElem?_eq_getElem short) listed').2⟩
  refine and_congr_right fun room => ⟨fun keeps k new listed' clear => ?_, fun all k rel new listed listed' clear => ?_⟩
  · obtain ⟨rel, listed, sym⟩ := before listed'
    rw [sym]
    exact (kept_iff part shape room listed' clear listed).mp (keeps k rel new listed listed' clear)
  · have sym := (shape.reloc listed listed').2
    exact (kept_iff part shape room listed' clear listed).mpr (sym ▸ all k new listed' clear)

theorem turn_preserves_iff (inside : i < s.relocs.length) :
    TurnPreserves inp part s i ↔ TurnCondition inp part s i := by
  have listed := reloc_at_listed inp s inside
  constructor
  · rintro ⟨exactlyOne, inList, keeps⟩
    refine ⟨(turn_read inside).mp inList, fun c r found chosen => ?_⟩
    have deleted := mem_deletion.mpr ⟨c, r, found, chosen, rfl⟩
    obtain ⟨room, all⟩ := (keeps_iff part (deletion_shape deleted)).mp (keeps _ deleted)
    refine ⟨fun high => ?_, room, fun k new there clear => (all k new there clear).1,
      fun k new there clear => (all k new there clear).2⟩
    have type : c.rel.type = .rMicromipsHi16 := by
      simp only [Candidate.isHigh, Bool.and_eq_true, beq_iff_eq] at high
      exact high.1
    rw [← candidate_rel found] at listed
    exact (exactly_one_iff chosen type).mp (exactlyOne c.rel listed type (Option.isSome_iff_exists.mpr ⟨_, deleted⟩))
  · rintro ⟨notLast, relaxes⟩
    refine ⟨fun rel there type deleted => ?_, (turn_read inside).mpr notLast, fun del deleted => ?_⟩
    · obtain ⟨del, member⟩ := Option.isSome_iff_exists.mp deleted
      obtain ⟨c, r, found, chosen, _⟩ := mem_deletion.mp member
      rw [← candidate_rel found] at listed
      rw [listed] at there
      cases there
      exact (exactly_one_iff chosen type).mpr ((relaxes c r found chosen).single (high_relaxed chosen type).1)
    · have shape := deletion_shape deleted
      obtain ⟨c, r, found, chosen, rfl⟩ := mem_deletion.mp deleted
      have condition := relaxes c r found chosen
      exact (keeps_iff part shape).mpr ⟨condition.room, fun k new there clear =>
        ⟨condition.partners k new there clear, condition.balanced k new there clear⟩⟩

end Openisa.Relax
