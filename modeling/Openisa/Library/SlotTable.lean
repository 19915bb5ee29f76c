import Mathlib.Algebra.Order.BigOperators.Group.List
import Mathlib.Algebra.Order.Ring.Nat
import Mathlib.Data.List.Nodup
import Mathlib.Data.List.Pairwise
import Mathlib.Data.List.Perm.Subperm
import Mathlib.Tactic.Abel

/-! Tables that hold one record for each slot, where a test of two records says whether they share a
slot; and the orders in which such a table can be walked. -/

namespace Openisa.Library.SlotTable

variable {α : Type*}

structure SlotTest (same : α → α → Bool) : Prop where
  refl : ∀ x, same x x = true
  symm : ∀ {x y}, same x y = true → same y x = true
  trans : ∀ {x y z}, same x y = true → same y z = true → same x z = true

def Distinct (same : α → α → Bool) (table : List α) : Prop :=
  table.Pairwise fun x y => same x y = false

instance (same : α → α → Bool) (table : List α) : Decidable (Distinct same table) :=
  inferInstanceAs (Decidable (table.Pairwise _))

def enter (same : α → α → Bool) (table : List α) (x : α) : List α :=
  if table.any (same x) then table else table ++ [x]

def enterAll (same : α → α → Bool) (table records : List α) : List α :=
  records.foldl (enter same) table

variable {same : α → α → Bool}

theorem SlotTest.apart (slots : SlotTest same) {x y : α} (apart : same x y = false) :
    same y x = false := by
  by_contra shared
  have back := slots.symm (by simpa using shared)
  rw [apart] at back
  cases back

theorem enter_fresh {table : List α} {x : α} (fresh : ∀ y ∈ table, same x y = false) :
    enter same table x = table ++ [x] := by
  have free : table.any (same x) = false := by
    rw [List.any_eq_false]
    intro y member
    simp [fresh y member]
  rw [enter, free]
  rfl

theorem enter_taken {table : List α} {x y : α} (member : y ∈ table) (shared : same x y = true) :
    enter same table x = table := by
  have taken : table.any (same x) = true := List.any_eq_true.mpr ⟨y, member, shared⟩
  rw [enter, taken]
  rfl

theorem enter_cases (same : α → α → Bool) (table : List α) (x : α) :
    (∃ y ∈ table, same x y = true ∧ enter same table x = table) ∨
      ((∀ y ∈ table, same x y = false) ∧ enter same table x = table ++ [x]) := by
  by_cases taken : ∃ y ∈ table, same x y = true
  · rcases taken with ⟨y, member, shared⟩
    exact Or.inl ⟨y, member, shared, enter_taken member shared⟩
  · have fresh : ∀ y ∈ table, same x y = false := by
      intro y member
      by_contra shared
      exact taken ⟨y, member, by simpa using shared⟩
    exact Or.inr ⟨fresh, enter_fresh fresh⟩

theorem subset_enter (same : α → α → Bool) (table : List α) (x : α) : table ⊆ enter same table x := by
  intro y member
  rcases enter_cases same table x with ⟨_, _, _, kept⟩ | ⟨_, added⟩
  · rwa [kept]
  · rw [added]
    exact List.mem_append_left _ member

theorem of_mem_enter {table : List α} {x y : α} (member : y ∈ enter same table x) :
    y ∈ table ∨ y = x := by
  rcases enter_cases same table x with ⟨_, _, _, kept⟩ | ⟨_, added⟩
  · rw [kept] at member
    exact Or.inl member
  · rw [added] at member
    simpa using member

theorem enter_shares (slots : SlotTest same) (table : List α) (x : α) :
    ∃ y ∈ enter same table x, same x y = true := by
  rcases enter_cases same table x with ⟨y, member, shared, kept⟩ | ⟨_, added⟩
  · rw [kept]
    exact ⟨y, member, shared⟩
  · exact ⟨x, by simp [added], slots.refl x⟩

theorem enter_distinct (slots : SlotTest same) {table : List α} (distinct : Distinct same table)
    (x : α) : Distinct same (enter same table x) := by
  rcases enter_cases same table x with ⟨_, _, _, kept⟩ | ⟨fresh, added⟩
  · rwa [kept]
  · rw [added]
    apply List.pairwise_append.mpr
    refine ⟨distinct, List.pairwise_singleton _ _, ?_⟩
    intro y member z single
    rw [List.mem_singleton.mp single]
    exact slots.apart (fresh y member)

theorem enterAll_cons (table : List α) (x : α) (records : List α) :
    enterAll same table (x :: records) = enterAll same (enter same table x) records := rfl

theorem subset_enterAll (table records : List α) : table ⊆ enterAll same table records := by
  induction records generalizing table with
  | nil => exact fun _ member => member
  | cons x records ih =>
      rw [enterAll_cons]
      exact fun y member => ih _ (subset_enter same table x member)

theorem of_mem_enterAll {table records : List α} {y : α} (member : y ∈ enterAll same table records) :
    y ∈ table ∨ y ∈ records := by
  induction records generalizing table with
  | nil => exact Or.inl member
  | cons x records ih =>
      rcases ih (enterAll_cons table x records ▸ member) with earlier | later
      · rcases of_mem_enter earlier with old | rfl
        · exact Or.inl old
        · exact Or.inr List.mem_cons_self
      · exact Or.inr (List.mem_cons_of_mem _ later)

theorem prefix_enter (same : α → α → Bool) (table : List α) (x : α) : table <+: enter same table x := by
  rcases enter_cases same table x with ⟨_, _, _, kept⟩ | ⟨_, added⟩
  · exact ⟨[], by rw [List.append_nil, kept]⟩
  · rw [added]
    exact List.prefix_append table [x]

theorem prefix_enterAll (table records : List α) : table <+: enterAll same table records := by
  induction records generalizing table with
  | nil => exact List.prefix_rfl
  | cons x records ih =>
      rw [enterAll_cons]
      exact (prefix_enter same table x).trans (ih _)

theorem enterAll_append (table first second : List α) :
    enterAll same table (first ++ second) = enterAll same (enterAll same table first) second := by
  rw [enterAll, List.foldl_append]
  rfl

theorem enterAll_shares (slots : SlotTest same) (table : List α) {records : List α} {x : α}
    (member : x ∈ records) : ∃ y ∈ enterAll same table records, same x y = true := by
  induction records generalizing table with
  | nil => cases member
  | cons z records ih =>
      rw [enterAll_cons]
      rcases List.mem_cons.mp member with rfl | later
      · rcases enter_shares slots table x with ⟨y, stored, shared⟩
        exact ⟨y, subset_enterAll _ _ stored, shared⟩
      · exact ih _ later

theorem enterAll_distinct (slots : SlotTest same) {table : List α} (distinct : Distinct same table)
    (records : List α) : Distinct same (enterAll same table records) := by
  induction records generalizing table with
  | nil => exact distinct
  | cons x records ih => exact ih (enter_distinct slots distinct x)

theorem Distinct.shared_eq (slots : SlotTest same) {table : List α} (distinct : Distinct same table)
    {x y : α} (first : x ∈ table) (second : y ∈ table) (shared : same x y = true) : x = y := by
  by_contra different
  have symmetric : Std.Symm fun x y => same x y = false := ⟨fun _ _ => slots.apart⟩
  have apart : same x y = false := List.Pairwise.forall distinct first second different
  rw [apart] at shared
  cases shared

theorem Distinct.nodup (slots : SlotTest same) {table : List α} (distinct : Distinct same table) :
    table.Nodup := by
  apply distinct.imp
  rintro x y apart rfl
  rw [slots.refl x] at apart
  cases apart

def put (same : α → α → Bool) (table : List α) (x : α) : List α :=
  if table.any (same x) then table.map fun y => if same x y then x else y else table ++ [x]

theorem put_fresh {table : List α} {x : α} (fresh : ∀ y ∈ table, same x y = false) :
    put same table x = table ++ [x] := by
  have free : table.any (same x) = false := by
    rw [List.any_eq_false]
    intro y member
    simp [fresh y member]
  rw [put, free]
  rfl

theorem put_taken {table : List α} {x y : α} (member : y ∈ table) (shared : same x y = true) :
    put same table x = table.map fun y => if same x y then x else y := by
  have taken : table.any (same x) = true := List.any_eq_true.mpr ⟨y, member, shared⟩
  rw [put, taken]
  rfl

theorem put_cases (same : α → α → Bool) (table : List α) (x : α) :
    (∃ y ∈ table, same x y = true ∧ put same table x = table.map fun y => if same x y then x else y) ∨
      ((∀ y ∈ table, same x y = false) ∧ put same table x = table ++ [x]) := by
  rcases enter_cases same table x with ⟨y, member, shared, _⟩ | ⟨fresh, _⟩
  · exact Or.inl ⟨y, member, shared, put_taken member shared⟩
  · exact Or.inr ⟨fresh, put_fresh fresh⟩

theorem mem_put {table : List α} {x y : α} :
    y ∈ put same table x ↔ y = x ∨ (y ∈ table ∧ same x y = false) := by
  rcases put_cases same table x with ⟨z, member, shared, replaced⟩ | ⟨fresh, added⟩
  · rw [replaced, List.mem_map]
    constructor
    · rintro ⟨w, isOld, rfl⟩
      by_cases own : same x w = true
      · simp [own]
      · simp [own, isOld]
    · rintro (rfl | ⟨isOld, apart⟩)
      · exact ⟨z, member, by simp [shared]⟩
      · exact ⟨y, isOld, by simp [apart]⟩
  · rw [added, List.mem_append, List.mem_singleton]
    constructor
    · rintro (isOld | rfl)
      · exact Or.inr ⟨isOld, fresh y isOld⟩
      · exact Or.inl rfl
    · rintro (rfl | ⟨isOld, _⟩)
      · exact Or.inr rfl
      · exact Or.inl isOld

theorem put_distinct (slots : SlotTest same) {table : List α} (distinct : Distinct same table) (x : α) :
    Distinct same (put same table x) := by
  rcases put_cases same table x with ⟨z, member, shared, replaced⟩ | ⟨fresh, added⟩
  · rw [replaced, Distinct, List.pairwise_map]
    apply List.Pairwise.imp_of_mem ?_ distinct
    intro y w first second apart
    by_cases own : same x y = true
    · have other : same x w = false := by
        by_contra also
        have back := slots.trans (slots.symm own) (by simpa using also)
        rw [apart] at back
        cases back
      simp [own, other]
    · by_cases other : same x w = true
      · simp [own, other, slots.apart (Bool.eq_false_iff.mpr own)]
      · simp [own, other, apart]
  · rw [added]
    apply List.pairwise_append.mpr
    refine ⟨distinct, List.pairwise_singleton _ _, ?_⟩
    intro y member z single
    rw [List.mem_singleton.mp single]
    exact slots.apart (fresh y member)

def lookup (same : α → α → Bool) (table : List α) (x : α) : Option α := table.find? (same x)

theorem put_apart {table : List α} {x : α} (apart : ∀ y ∈ table, same x y = false) :
    (table.map fun y => if same x y then x else y) = table := by
  calc
    _ = table.map id := List.map_congr_left fun y member => by simp [apart y member]
    _ = table := List.map_id table

theorem lookup_cases (slots : SlotTest same) {table : List α} (distinct : Distinct same table) (x : α) :
    (∃ front y back, table = front ++ y :: back ∧ same x y = true ∧ lookup same table x = some y ∧
        put same table x = front ++ x :: back) ∨
      ((∀ y ∈ table, same x y = false) ∧ lookup same table x = none ∧ put same table x = table ++ [x]) := by
  cases found : lookup same table x with
  | none =>
      have fresh : ∀ y ∈ table, same x y = false := by
        intro y member
        simpa using List.find?_eq_none.mp found y member
      exact Or.inr ⟨fresh, rfl, put_fresh fresh⟩
  | some y =>
      rcases List.find?_eq_some_iff_append.mp found with ⟨shared, front, back, split, before⟩
      refine Or.inl ⟨front, y, back, split, shared, rfl, ?_⟩
      have after : ∀ z ∈ back, same x z = false := by
        intro z member
        by_contra also
        rw [split] at distinct
        have tail := (List.pairwise_append.mp distinct).2.1
        have apart := (List.pairwise_cons.mp tail).1 z member
        have back := slots.trans (slots.symm shared) (by simpa using also)
        rw [apart] at back
        cases back
      rw [put_taken (by rw [split]; simp) shared, split, List.map_append, List.map_cons, if_pos shared]
      rw [put_apart fun z member => by simpa using before z member, put_apart after]

theorem sum_put {M : Type*} [AddCommMonoid M] (slots : SlotTest same) (amount : α → M) {table : List α}
    (distinct : Distinct same table) (x : α) :
    ((put same table x).map amount).sum + ((lookup same table x).map amount).getD 0 =
      (table.map amount).sum + amount x := by
  rcases lookup_cases slots distinct x with ⟨front, y, back, split, _, found, replaced⟩ | ⟨_, none, added⟩
  · rw [replaced, found, split]
    simp only [List.map_append, List.map_cons, List.sum_append, List.sum_cons, Option.map_some, Option.getD_some]
    abel
  · rw [added, none]
    simp

def total (amount : α → Nat) (records : List α) : Nat := (records.map amount).sum

theorem total_append (amount : α → Nat) (first second : List α) :
    total amount (first ++ second) = total amount first + total amount second := by
  simp [total]

theorem total_enter_le (same : α → α → Bool) (amount : α → Nat) (table : List α) (x : α) :
    total amount (enter same table x) ≤ total amount table + amount x := by
  rcases enter_cases same table x with ⟨_, _, _, kept⟩ | ⟨_, added⟩
  · rw [kept]
    exact Nat.le_add_right _ _
  · rw [added, total_append]
    exact le_of_eq (by simp [total])

theorem total_enterAll_le (same : α → α → Bool) (amount : α → Nat) (table records : List α) :
    total amount (enterAll same table records) ≤ total amount table + total amount records := by
  induction records generalizing table with
  | nil => exact Nat.le_add_right _ _
  | cons x records ih =>
      calc
        total amount (enterAll same table (x :: records))
            ≤ total amount (enter same table x) + total amount records := ih _
        _ ≤ total amount table + amount x + total amount records :=
            Nat.add_le_add_right (total_enter_le same amount table x) _
        _ = total amount table + total amount (x :: records) := by
            simp [total, Nat.add_assoc]

theorem total_add (first second : α → Nat) (records : List α) :
    total (fun x => first x + second x) records = total first records + total second records := by
  simp [total, List.sum_map_add]

theorem total_le_of_subset (amount : α → Nat) {part whole : List α} (nodup : part.Nodup)
    (within : part ⊆ whole) : total amount part ≤ total amount whole := by
  rcases nodup.subperm within with ⟨middle, perm, sublist⟩
  calc
    total amount part = total amount middle := ((perm.map amount).sum_eq).symm
    _ ≤ total amount whole := (sublist.map amount).sum_le_sum fun _ _ => Nat.zero_le _

theorem total_le_of_matched (slots : SlotTest same) (amount : α → Nat) {part whole : List α}
    (distinct : Distinct same part)
    (matched : ∀ x ∈ part, ∃ y ∈ whole, same x y = true ∧ amount x ≤ amount y) :
    total amount part ≤ total amount whole := by
  induction part generalizing whole with
  | nil => exact Nat.zero_le _
  | cons x part ih =>
      have apart := List.pairwise_cons.mp distinct
      rcases matched x List.mem_cons_self with ⟨y, member, shared, least⟩
      rcases List.append_of_mem member with ⟨front, back, rfl⟩
      have rest : total amount part ≤ total amount (front ++ back) := by
        apply ih apart.2
        intro z later
        rcases matched z (List.mem_cons_of_mem _ later) with ⟨w, stored, shared', least'⟩
        refine ⟨w, ?_, shared', least'⟩
        -- The slot of `x` is not that of `z`, so `z` has another match.
        have other : w ≠ y := by
          rintro rfl
          have both := slots.trans shared (slots.symm shared')
          rw [apart.1 z later] at both
          cases both
        rw [List.mem_append, List.mem_cons] at stored
        rw [List.mem_append]
        exact stored.imp_right fun tail => tail.resolve_left other
      simp only [total, List.map_cons, List.sum_cons, List.map_append, List.sum_append] at rest ⊢
      omega

theorem enterAll_eq_append (slots : SlotTest same) (table : List α) {records : List α}
    (distinct : Distinct same records) :
    enterAll same table records = table ++ records.filter fun x => !table.any (same x) := by
  induction records generalizing table with
  | nil => exact (List.append_nil table).symm
  | cons x records ih =>
      have apart := List.pairwise_cons.mp distinct
      rw [enterAll_cons, ih _ apart.2]
      rcases enter_cases same table x with ⟨y, member, shared, kept⟩ | ⟨fresh, added⟩
      · have taken : table.any (same x) = true := List.any_eq_true.mpr ⟨y, member, shared⟩
        rw [kept, List.filter_cons_of_neg (by simp [taken])]
      · have free : table.any (same x) = false := by
          rw [List.any_eq_false]
          exact fun y member => by simp [fresh y member]
        have same_rest : (records.filter fun z => !(table ++ [x]).any (same z)) =
            records.filter fun z => !table.any (same z) := by
          apply List.filter_congr
          intro z later
          simp [slots.apart (apart.1 z later)]
        rw [added, same_rest, List.filter_cons_of_pos (by simp [free]), List.append_assoc]
        rfl

/-- An order in which a walk meets the records of a table. -/
structure Walk (α : Type*) where
  order : List α → List α
  perm : ∀ table, (order table).Perm table

namespace Walk

variable {walk : Walk α} {table : List α}

theorem mem (walk : Walk α) {x : α} : x ∈ walk.order table ↔ x ∈ table := (walk.perm table).mem_iff

theorem total_eq (walk : Walk α) (amount : α → Nat) (table : List α) :
    total amount (walk.order table) = total amount table := ((walk.perm table).map amount).sum_eq

def forward : Walk α := ⟨id, fun _ => List.Perm.refl _⟩

end Walk

end Openisa.Library.SlotTable
