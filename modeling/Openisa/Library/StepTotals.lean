import Mathlib.Algebra.BigOperators.Group.List.Basic
import Mathlib.Data.List.Nodup
import Mathlib.Order.Lattice

/-! Tables of totals: each entry holds what the steps up to its key add up to. -/

namespace Openisa.Library.StepTotals

variable {α M : Type*} [LinearOrder α]

section Total

variable [AddCommMonoid M] {steps others : List (α × M)} {x y : α} {m : M}

def total (steps : List (α × M)) (x : α) : M := ((steps.filter fun s => s.1 ≤ x).map Prod.snd).sum

theorem total_nil (x : α) : total ([] : List (α × M)) x = 0 := rfl

theorem total_cons (s : α × M) (steps : List (α × M)) (x : α) :
    total (s :: steps) x = (if s.1 ≤ x then s.2 else 0) + total steps x := by
  unfold total
  by_cases low : s.1 ≤ x
  · rw [List.filter_cons_of_pos (by simpa using low), List.map_cons, List.sum_cons, if_pos low]
  · rw [List.filter_cons_of_neg (by simpa using low), if_neg low, zero_add]

theorem total_append (steps others : List (α × M)) (x : α) :
    total (steps ++ others) x = total steps x + total others x := by
  rw [total, List.filter_append, List.map_append, List.sum_append]
  rfl

theorem total_flatten (parts : List (List (α × M))) (x : α) :
    total parts.flatten x = (parts.map fun steps => total steps x).sum := by
  induction parts with
  | nil => rfl
  | cons steps parts ih => rw [List.flatten_cons, total_append, ih, List.map_cons, List.sum_cons]

theorem total_between (low : x ≤ y) (between : ∀ s ∈ steps, s.1 ≤ y → s.1 ≤ x) : total steps y = total steps x := by
  have same : steps.filter (fun s => s.1 ≤ y) = steps.filter fun s => s.1 ≤ x := by
    refine List.filter_congr fun s member => ?_
    simpa using ⟨between s member, fun below => below.trans low⟩
  rw [total, total, same]

theorem total_before (before : ∀ s ∈ steps, x < s.1) : total steps x = 0 := by
  have empty : steps.filter (fun s => s.1 ≤ x) = [] := List.filter_eq_nil_iff.mpr fun s member => by
    simpa using before s member
  rw [total, empty]
  rfl

structure Tabulates (table steps : List (α × M)) : Prop where
  keys : ∀ x, x ∈ table.map Prod.fst ↔ x ∈ steps.map Prod.fst
  distinct : (table.map Prod.fst).Nodup
  totals : ∀ e ∈ table, e.2 = total steps e.1

theorem tabulates_nil : Tabulates ([] : List (α × M)) [] where
  keys _ := Iff.rfl
  distinct := List.nodup_nil
  totals _ none := absurd none List.not_mem_nil

def raise (x : α) (m : M) (table : List (α × M)) : List (α × M) :=
  table.map fun e => if x ≤ e.1 then (e.1, e.2 + m) else e

variable {table : List (α × M)}

theorem Tabulates.perm {table' : List (α × M)} (tabulates : Tabulates table steps) (same : table'.Perm table) :
    Tabulates table' steps where
  keys x := by rw [(same.map Prod.fst).mem_iff, tabulates.keys x]
  distinct := (same.map Prod.fst).nodup_iff.mpr tabulates.distinct
  totals e member := tabulates.totals e (same.mem_iff.mp member)

theorem raise_keys (x : α) (m : M) (table : List (α × M)) : (raise x m table).map Prod.fst = table.map Prod.fst := by
  rw [raise, List.map_map]
  refine List.map_congr_left fun e _ => ?_
  dsimp only [Function.comp]
  split <;> rfl

theorem Tabulates.raised (tab : Tabulates table steps) (x : α) (m : M) :
    ∀ e ∈ raise x m table, e.2 = total (steps ++ [(x, m)]) e.1 := by
  intro e member
  obtain ⟨before, present, rfl⟩ := List.mem_map.mp member
  have old := tab.totals before present
  rw [total_append, total_cons, total_nil, add_zero]
  by_cases high : x ≤ before.1
  · simp only [if_pos high, old]
  · simp only [if_neg high, old, add_zero]

theorem Tabulates.raise (tab : Tabulates table steps) (present : x ∈ table.map Prod.fst) (m : M) :
    Tabulates (raise x m table) (steps ++ [(x, m)]) where
  keys y := by
    rw [raise_keys, tab.keys y, List.map_append, List.mem_append, List.map_singleton, List.mem_singleton]
    have known := (tab.keys x).mp present
    exact ⟨.inl, fun either => either.elim id fun same => same ▸ known⟩
  distinct := by
    rw [raise_keys]
    exact tab.distinct
  totals := tab.raised x m

def Precedes (table : List (α × M)) (x : α) : Option (α × M) → Prop
  | none => ∀ e ∈ table, ¬e.1 < x
  | some e => e ∈ table ∧ e.1 < x ∧ ∀ e' ∈ table, e'.1 < x → e'.1 ≤ e.1

theorem Tabulates.total_new (tab : Tabulates table steps) (absent : x ∉ table.map Prod.fst) {e : Option (α × M)}
    (precedes : Precedes table x e) : total steps x = e.elim 0 Prod.snd := by
  have entry : ∀ s ∈ steps, ∃ e ∈ table, e.1 = s.1 := by
    intro s member
    have key := (tab.keys s.1).mpr (List.mem_map_of_mem member)
    exact List.mem_map.mp key
  have apart : ∀ s ∈ steps, s.1 ≠ x := by
    intro s member same
    exact absent (same ▸ (tab.keys s.1).mpr (List.mem_map_of_mem member))
  cases e with
  | none =>
    refine total_before fun s member => ?_
    obtain ⟨e, present, key⟩ := entry s member
    exact lt_of_le_of_ne (not_lt.mp (key ▸ precedes e present)) (apart s member).symm
  | some e =>
    obtain ⟨present, below, greatest⟩ := precedes
    rw [Option.elim, tab.totals e present]
    refine total_between below.le fun s member low => ?_
    obtain ⟨e', present', key⟩ := entry s member
    rw [← key]
    exact greatest e' present' (lt_of_le_of_ne (key ▸ low) (key ▸ apart s member))

theorem Tabulates.insert (tab : Tabulates table steps) (absent : x ∉ table.map Prod.fst) {e : Option (α × M)}
    (precedes : Precedes table x e) (m : M) :
    Tabulates (StepTotals.raise x m table ++ [(x, m + e.elim 0 Prod.snd)]) (steps ++ [(x, m)]) where
  keys y := by
    simp only [List.map_append, List.mem_append, List.map_singleton, List.mem_singleton, raise_keys, tab.keys y]
  distinct := by
    rw [List.map_append, raise_keys, List.nodup_append]
    refine ⟨tab.distinct, List.nodup_singleton _, fun y present z new same => ?_⟩
    rw [List.map_singleton, List.mem_singleton] at new
    rw [same, new] at present
    exact absent present
  totals e' member := by
    rcases List.mem_append.mp member with old | new
    · exact tab.raised x m e' old
    · rw [List.mem_singleton.mp new, total_append, total_cons, total_nil, add_zero, if_pos le_rfl,
        tab.total_new absent precedes, add_comm]

theorem precedes_raise {e : Option (α × M)} (precedes : Precedes (StepTotals.raise x m table) x e) : Precedes table x e := by
  have below : ∀ e ∈ table, e.1 < x → e ∈ StepTotals.raise x m table := by
    intro e member low
    exact List.mem_map.mpr ⟨e, member, if_neg (not_le.mpr low)⟩
  cases e with
  | none => exact fun e member low => precedes e (below e member low) low
  | some e =>
    obtain ⟨member, low, greatest⟩ := precedes
    obtain ⟨before, present, raised⟩ := List.mem_map.mp member
    have same : before = e := by
      by_cases high : x ≤ before.1
      · rw [if_pos high] at raised
        rw [← raised] at low
        exact absurd low (not_lt.mpr high)
      · rwa [if_neg high] at raised
    exact ⟨same ▸ present, low, fun e' member' low' => greatest e' (below e' member' low') low'⟩

end Total

section Cumulative

variable [AddCommGroup M]

def stepsOf (last : M) : List (α × M) → List (α × M)
  | [] => []
  | e :: table => (e.1, e.2 - last) :: stepsOf e.2 table

def reached (last : M) : List (α × M) → α → M
  | [], _ => last
  | e :: table, x => if e.1 ≤ x then reached e.2 table x else last

omit [LinearOrder α] in
theorem stepsOf_keys (last : M) (table : List (α × M)) : (stepsOf last table).map Prod.fst = table.map Prod.fst := by
  induction table generalizing last with
  | nil => rfl
  | cons e table ih => rw [stepsOf, List.map_cons, List.map_cons, ih]

theorem total_stepsOf {table : List (α × M)} (sorted : table.Pairwise fun e e' => e.1 ≤ e'.1) (last : M) (x : α) :
    total (stepsOf last table) x = reached last table x - last := by
  induction table generalizing last with
  | nil => rw [stepsOf, total_nil, reached, sub_self]
  | cons e table ih =>
    obtain ⟨first, rest⟩ := List.pairwise_cons.mp sorted
    rw [stepsOf, total_cons, reached]
    by_cases low : e.1 ≤ x
    · simp only [if_pos low, ih rest]
      exact sub_add_sub_cancel' _ _ _
    · have behind : ∀ s ∈ stepsOf e.2 table, x < s.1 := by
        intro s member
        have key : s.1 ∈ table.map Prod.fst := stepsOf_keys e.2 table ▸ List.mem_map_of_mem member
        obtain ⟨e', present, same⟩ := List.mem_map.mp key
        exact (not_le.mp low).trans_le (same ▸ first e' present)
      rw [if_neg low, if_neg low, total_before behind, zero_add, sub_self]

omit [AddCommGroup M] in
theorem reached_cases {table : List (α × M)} (sorted : table.Pairwise fun e e' => e.1 ≤ e'.1) (last : M) (x : α) :
    ((∀ e ∈ table, x < e.1) ∧ reached last table x = last) ∨
      ∃ e ∈ table, e.1 ≤ x ∧ (∀ e' ∈ table, e'.1 ≤ x → e'.1 ≤ e.1) ∧ reached last table x = e.2 := by
  induction table generalizing last with
  | nil => exact .inl ⟨fun _ none => absurd none List.not_mem_nil, rfl⟩
  | cons e table ih =>
    obtain ⟨first, rest⟩ := List.pairwise_cons.mp sorted
    rw [reached]
    by_cases low : e.1 ≤ x
    · rw [if_pos low]
      right
      rcases ih rest e.2 with ⟨behind, here⟩ | ⟨e', present, below, greatest, there⟩
      · refine ⟨e, List.mem_cons_self, low, fun e' member below => ?_, here⟩
        rcases List.mem_cons.mp member with same | later
        · rw [same]
        · exact absurd below (not_le.mpr (behind e' later))
      · refine ⟨e', List.mem_cons_of_mem e present, below, fun e'' member below' => ?_, there⟩
        rcases List.mem_cons.mp member with same | later
        · exact same ▸ first e' present
        · exact greatest e'' later below'
    · rw [if_neg low]
      refine .inl ⟨fun e' member => ?_, rfl⟩
      rcases List.mem_cons.mp member with same | later
      · exact same ▸ not_le.mp low
      · exact (not_le.mp low).trans_le (first e' later)

theorem Tabulates.reached {table steps : List (α × M)} (tab : Tabulates table steps)
    (sorted : table.Pairwise fun e e' => e.1 ≤ e'.1) (x : α) : StepTotals.reached 0 table x = total steps x := by
  have entry : ∀ s ∈ steps, ∃ e ∈ table, e.1 = s.1 := fun s member =>
    List.mem_map.mp ((tab.keys s.1).mpr (List.mem_map_of_mem member))
  rcases reached_cases sorted 0 x with ⟨behind, here⟩ | ⟨e, present, low, greatest, there⟩
  · rw [here]
    refine (total_before fun s member => ?_).symm
    obtain ⟨e, present, key⟩ := entry s member
    exact key ▸ behind e present
  · rw [there, tab.totals e present]
    refine (total_between low fun s member below => ?_).symm
    obtain ⟨e', present', key⟩ := entry s member
    exact key ▸ greatest e' present' (key ▸ below)

omit [AddCommGroup M] in
theorem reached_map {N : Type*} (f : M → N) (last : M) (table : List (α × M)) (x : α) :
    StepTotals.reached (f last) (table.map fun e => (e.1, f e.2)) x = f (StepTotals.reached last table x) := by
  induction table generalizing last with
  | nil => rfl
  | cons e table ih =>
    rw [List.map_cons, StepTotals.reached, StepTotals.reached]
    split
    · exact ih e.2
    · rfl

end Cumulative

end Openisa.Library.StepTotals
