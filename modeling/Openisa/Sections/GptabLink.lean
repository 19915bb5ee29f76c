import Openisa.Sections.Gptab

/-! What the combined `.gptab` section says: for each `-G` value, what the input sections say together. -/

namespace Openisa.Sections

open Openisa.Bfd
open Openisa.Library
open Openisa.Library.ByteStore
open Openisa.Library.StepTotals

/-- The bytes of small data for a `-G` value, as 32 bits hold them. -/
def GptabSection.amount (s : GptabSection) (g : Nat) : BitVec 32 := (s.bytes g).setWidth 32

def GptabSection.HasEntry (s : GptabSection) (g : Nat) : Prop := ∃ e ∈ s.entries, e.gtGValue = g

/-- The entries of an input section are sorted by `-G` values that an `int` holds, and are all there. -/
structure GptabSection.Proper (s : GptabSection) : Prop where
  sorted : s.entries.Pairwise fun e e' => e.gtGValue ≤ e'.gtGValue
  small : ∀ e ∈ s.entries, e.gtGValue < 2 ^ 31

/-- The output section has an entry for each `-G` value of the input sections, in ascending order, and stands for the sum
of the input sections at each `-G` value. -/
structure CombinedGptab (inputs : List GptabSection) (gpSize : Nat) (out : GptabSection) : Prop where
  header : swapGptabIn out.order out.contents 0 = ⟨gpSize % 2 ^ 32, 0⟩
  ascending : out.entries.Pairwise fun e e' => e.gtGValue < e'.gtGValue
  keys : ∀ g, out.HasEntry g ↔ ∃ s ∈ inputs, s.HasEntry g
  amount : ∀ g, out.amount g = (inputs.map fun s => s.amount g).sum

section Sorting

variable {tab : List Elf32Gptab}

theorem gptabCompare_le {a1 a2 : Elf32Gptab} (small1 : a1.gtGValue < 2 ^ 31) (small2 : a2.gtGValue < 2 ^ 31) :
    gptabCompare a1 a2 ≤ 0 ↔ a1.gtGValue ≤ a2.gtGValue := by
  have exact : gptabCompare a1 a2 = (a1.gtGValue : Int) - a2.gtGValue := by
    unfold gptabCompare
    exact Int.bmod_eq_of_le (by omega) (by omega)
  rw [exact]
  omega

theorem sortGptab_eq (small : ∀ e ∈ tab, e.gtGValue < 2 ^ 31) :
    sortGptab tab = tab.insertionSort fun a1 a2 => a1.gtGValue ≤ a2.gtGValue := by
  have compared := List.map_insertionSort (fun a1 a2 => gptabCompare a1 a2 ≤ 0)
    (fun a1 a2 : Elf32Gptab => a1.gtGValue ≤ a2.gtGValue) id tab
    fun a member b member' => gptabCompare_le (small a member) (small b member')
  rw [List.map_id, List.map_id] at compared
  unfold sortGptab
  split
  · exact compared
  · next short =>
    match tab, short with
    | [], _ => rfl
    | [e], _ => rfl
    | _ :: _ :: _, short => simp at short

theorem sortGptab_perm (tab : List Elf32Gptab) : (sortGptab tab).Perm tab := by
  unfold sortGptab
  split
  · exact List.perm_insertionSort _ tab
  · exact List.Perm.refl tab

theorem sortGptab_sorted (small : ∀ e ∈ tab, e.gtGValue < 2 ^ 31) (distinct : (tab.map Elf32Gptab.gtGValue).Nodup) :
    (sortGptab tab).Pairwise fun e e' => e.gtGValue < e'.gtGValue := by
  have keys : ((sortGptab tab).map Elf32Gptab.gtGValue).Nodup :=
    ((sortGptab_perm tab).map Elf32Gptab.gtGValue).nodup_iff.mpr distinct
  have sorted : (sortGptab tab).Pairwise fun e e' => e.gtGValue ≤ e'.gtGValue := by
    rw [sortGptab_eq small]
    have total : Std.Total fun a1 a2 : Elf32Gptab => a1.gtGValue ≤ a2.gtGValue := ⟨fun a b => Nat.le_total _ _⟩
    have trans : IsTrans Elf32Gptab fun a1 a2 => a1.gtGValue ≤ a2.gtGValue := ⟨fun _ _ _ => Nat.le_trans⟩
    exact List.pairwise_insertionSort _ tab
  exact (sorted.and (List.pairwise_map.mp keys)).imp fun ⟨low, apart⟩ => lt_of_le_of_ne low apart

end Sorting

section Written

def Elf32Gptab.cut (e : Elf32Gptab) : Elf32Gptab := ⟨e.gtGValue % 2 ^ 32, (e.gtBytes.setWidth 32).setWidth 64⟩

def writtenGptab (order : Endian) (table : List Elf32Gptab) : GptabSection :=
  ⟨order, 8 * table.length, putWords (bfdPut32 order) (table.flatMap gptabWords) (fun _ => 0) 0⟩

theorem bfdGet32_setWidth (order : Endian) (d : Store) (loc : Nat) :
    bfdGet32 order d loc = ((bfdGet32 order d loc).setWidth 32).setWidth 64 := by
  have small := load_lt order 4 d loc
  apply BitVec.eq_of_toNat_eq
  simp only [bfdGet32, bfdGet, BitVec.toNat_ofNat, BitVec.toNat_setWidth]
  omega

theorem gptabWords_at {table : List Elf32Gptab} {k : Nat} {e : Elf32Gptab} (present : table[k]? = some e) :
    (table.flatMap gptabWords)[2 * k]? = some (BitVec.ofNat 64 e.gtGValue) ∧
      (table.flatMap gptabWords)[2 * k + 1]? = some e.gtBytes := by
  induction table generalizing k with
  | nil => simp at present
  | cons first table ih =>
    rw [List.flatMap_cons, gptabWords]
    cases k with
    | zero =>
      have same : first = e := by simpa using present
      rw [same]
      exact ⟨rfl, rfl⟩
    | succ k =>
      have rest := ih (k := k) (by simpa using present)
      rw [Nat.mul_succ]
      exact rest

theorem written_entry (order : Endian) (table : List Elf32Gptab) {k : Nat} {e : Elf32Gptab} (present : table[k]? = some e) :
    swapGptabIn order (writtenGptab order table).contents (8 * k) = e.cut := by
  obtain ⟨value, bytes⟩ := gptabWords_at present
  have readValue := putWords_get order (table.flatMap gptabWords) (fun _ => 0) 0 value
  have readBytes := putWords_get order (table.flatMap gptabWords) (fun _ => 0) 0 bytes
  have first : 0 + 4 * (2 * k) = 8 * k := by omega
  have second : 0 + 4 * (2 * k + 1) = 8 * k + 4 := by omega
  rw [first] at readValue
  rw [second] at readBytes
  rw [swapGptabIn, writtenGptab, bfdGet32_setWidth order _ (8 * k), bfdGet32_setWidth order _ (8 * k + 4), readValue,
    readBytes, Elf32Gptab.cut]
  congr 1
  simp only [BitVec.toNat_setWidth, BitVec.toNat_ofNat]
  omega

theorem written_entries (order : Endian) (header : Elf32Gptab) (table : List Elf32Gptab) :
    (writtenGptab order (header :: table)).entries = table.map Elf32Gptab.cut := by
  have count : (8 * (header :: table).length - 1) / 8 = table.length := by
    rw [List.length_cons]
    omega
  have size : (writtenGptab order (header :: table)).size = 8 * (header :: table).length := rfl
  rw [GptabSection.entries, gpentries, size, count, List.map_map]
  apply List.ext_getElem
  · simp
  · intro k inside inside'
    have below : k < table.length := by simpa using inside'
    have present : (header :: table)[k + 1]? = some table[k] := by
      rw [List.getElem?_cons_succ, List.getElem?_eq_getElem below]
    simp only [List.getElem_map, List.getElem_range, Function.comp]
    exact written_entry order _ present

theorem putWords_congr (order : Endian) {words words' : List BfdVma}
    (same : words.map (·.setWidth 32) = words'.map (·.setWidth 32)) (d : Store) (loc : Nat) :
    putWords (bfdPut32 order) words d loc = putWords (bfdPut32 order) words' d loc := by
  induction words generalizing words' d loc with
  | nil =>
    have empty : words' = [] := by simpa using same.symm
    rw [empty]
  | cons word words ih =>
    cases words' with
    | nil => simp at same
    | cons word' words' =>
      rw [List.map_cons, List.map_cons] at same
      obtain ⟨first, rest⟩ := List.cons.inj same
      have low : word.toNat % 256 ^ 4 = word'.toNat % 256 ^ 4 := by
        have equal := congrArg BitVec.toNat first
        simpa using equal
      have put : bfdPut32 order word d loc = bfdPut32 order word' d loc := (store_eq_iff order 4 _ _ d loc).mpr low
      rw [putWords, putWords, put]
      exact ih rest _ _

theorem cut_bytes (bytes : BfdVma) : ((bytes.setWidth 32).setWidth 64).setWidth 32 = bytes.setWidth 32 := by
  apply BitVec.eq_of_toNat_eq
  simp only [BitVec.toNat_setWidth]
  omega

theorem gptabWords_cut (e : Elf32Gptab) : (gptabWords e.cut).map (·.setWidth 32) = (gptabWords e).map (·.setWidth 32) := by
  have value : (BitVec.ofNat 64 (e.gtGValue % 2 ^ 32)).setWidth 32 = (BitVec.ofNat 64 e.gtGValue).setWidth 32 := by
    apply BitVec.eq_of_toNat_eq
    simp only [BitVec.toNat_setWidth, BitVec.toNat_ofNat]
    omega
  simp only [gptabWords, Elf32Gptab.cut, List.map_cons, List.map_nil, value, cut_bytes]

theorem writtenGptab_cut (order : Endian) (table : List Elf32Gptab) :
    writtenGptab order (table.map Elf32Gptab.cut) = writtenGptab order table := by
  have words : ((table.map Elf32Gptab.cut).flatMap gptabWords).map (·.setWidth 32) =
      (table.flatMap gptabWords).map (·.setWidth 32) := by
    induction table with
    | nil => rfl
    | cons e table ih =>
      rw [List.map_cons, List.flatMap_cons, List.flatMap_cons, List.map_append, List.map_append, gptabWords_cut, ih]
  rw [writtenGptab, writtenGptab, putWords_congr order words, List.length_map]

end Written

section Linked

variable {order : Endian} {gpSize : Nat} {mapHead : List LinkOrder} {out : GptabSection}

structure LinkedTable (order : Endian) (gpSize : Nat) (mapHead : List LinkOrder) (table : List Elf32Gptab)
    (out : GptabSection) : Prop where
  written : out = writtenGptab order (⟨gpSize, 0⟩ :: table)
  tabulates : Tabulates (table.map Elf32Gptab.step) (linkSteps mapHead)
  ascending : table.Pairwise fun e e' => e.gtGValue < e'.gtGValue
  small : ∀ e ∈ table, e.gtGValue < 2 ^ 31

theorem linkSteps_keys (mapHead : List LinkOrder) (g : Nat) :
    g ∈ (linkSteps mapHead).map Prod.fst ↔ ∃ s ∈ inputSections mapHead, s.HasEntry g := by
  rw [linkSteps, List.map_flatten, List.map_map, List.mem_flatten]
  constructor
  · rintro ⟨keys, present, member⟩
    obtain ⟨s, input, rfl⟩ := List.mem_map.mp present
    rw [Function.comp, stepsOf_keys, List.map_map] at member
    obtain ⟨e, entry, same⟩ := List.mem_map.mp member
    exact ⟨s, input, e, entry, same⟩
  · rintro ⟨s, input, e, entry, same⟩
    refine ⟨_, List.mem_map_of_mem input, ?_⟩
    rw [Function.comp, stepsOf_keys, List.map_map]
    exact List.mem_map.mpr ⟨e, entry, same⟩

theorem sorted_steps {entries : List Elf32Gptab} (sorted : entries.Pairwise fun e e' => e.gtGValue ≤ e'.gtGValue) :
    (entries.map Elf32Gptab.step).Pairwise fun e e' => e.1 ≤ e'.1 := List.pairwise_map.mpr sorted

theorem total_linkSteps (proper : ∀ s ∈ inputSections mapHead, s.Proper) (g : Nat) :
    total (linkSteps mapHead) g = ((inputSections mapHead).map fun s => s.bytes g).sum := by
  rw [linkSteps, total_flatten, List.map_map]
  refine congrArg List.sum (List.map_congr_left fun s member => ?_)
  rw [Function.comp, total_stepsOf (sorted_steps (proper s member).sorted), sub_zero]
  rfl

theorem finalLinkGptab_table (proper : ∀ s ∈ inputSections mapHead, s.Proper)
    (ran : finalLinkGptab order gpSize mapHead = .ok out) : ∃ table, LinkedTable order gpSize mapHead table out := by
  unfold finalLinkGptab at ran
  cases folded : mapHead.foldlM combineLinkOrder [] with
  | error e =>
    rw [folded] at ran
    cases ran
  | ok tab =>
    rw [folded] at ran
    cases ran
    have empty : Tabulates (([] : List Elf32Gptab).map Elf32Gptab.step) [] := tabulates_nil
    have tabulates := linkOrders_tabulate empty folded
    rw [List.nil_append] at tabulates
    have small : ∀ e ∈ tab, e.gtGValue < 2 ^ 31 := by
      intro e member
      have key : e.gtGValue ∈ (tab.map Elf32Gptab.step).map Prod.fst :=
        List.mem_map_of_mem (f := Prod.fst) (List.mem_map_of_mem (f := Elf32Gptab.step) member)
      obtain ⟨s, input, e', entry, same⟩ := (linkSteps_keys mapHead _).mp ((tabulates.keys _).mp key)
      exact same ▸ (proper s input).small e' entry
    have distinct : (tab.map Elf32Gptab.gtGValue).Nodup := by
      have keys := tabulates.distinct
      rwa [List.map_map] at keys
    exact ⟨sortGptab tab, rfl, tabulates.perm ((sortGptab_perm tab).map _), sortGptab_sorted small distinct,
      fun e member => small e ((sortGptab_perm tab).mem_iff.mp member)⟩

/-- What 32 bits hold of a sum. -/
def lowBytes : BfdVma →+ BitVec 32 where
  toFun := BitVec.setWidth 32
  map_zero' := rfl
  map_add' a b := BitVec.setWidth_add a b (by decide)

namespace LinkedTable

variable {table : List Elf32Gptab}

theorem entries (linked : LinkedTable order gpSize mapHead table out) : out.entries = table.map Elf32Gptab.cut := by
  rw [linked.written]
  exact written_entries order _ table

theorem cut_value (linked : LinkedTable order gpSize mapHead table out) {e : Elf32Gptab} (member : e ∈ table) :
    e.cut.gtGValue = e.gtGValue := by
  have small := linked.small e member
  exact Nat.mod_eq_of_lt (by omega)

theorem values (linked : LinkedTable order gpSize mapHead table out) :
    out.entries.map Elf32Gptab.gtGValue = table.map Elf32Gptab.gtGValue := by
  rw [linked.entries, List.map_map]
  exact List.map_congr_left fun e member => linked.cut_value member

theorem amount (linked : LinkedTable order gpSize mapHead table out) (g : Nat) :
    out.amount g = lowBytes (reached 0 (table.map Elf32Gptab.step) g) := by
  have same : (out.entries.map Elf32Gptab.step).map (fun e => (e.1, lowBytes e.2)) =
      (table.map Elf32Gptab.step).map fun e => (e.1, lowBytes e.2) := by
    rw [linked.entries, List.map_map, List.map_map, List.map_map]
    refine List.map_congr_left fun e member => Prod.ext (linked.cut_value member) ?_
    exact cut_bytes e.gtBytes
  have outer := reached_map lowBytes 0 (out.entries.map Elf32Gptab.step) g
  have inner := reached_map lowBytes 0 (table.map Elf32Gptab.step) g
  rw [same] at outer
  exact outer.symm.trans inner

end LinkedTable

theorem LinkedTable.combined (proper : ∀ s ∈ inputSections mapHead, s.Proper) {table : List Elf32Gptab}
    (linked : LinkedTable order gpSize mapHead table out) : CombinedGptab (inputSections mapHead) gpSize out where
  header := by
    rw [linked.written]
    exact written_entry order (⟨gpSize, 0⟩ :: table) (k := 0) rfl
  ascending := by
    have ascending := List.pairwise_map.mpr linked.ascending
    rw [← linked.values] at ascending
    exact List.pairwise_map.mp ascending
  keys g := by
    have members : out.HasEntry g ↔ g ∈ out.entries.map Elf32Gptab.gtGValue := List.mem_map.symm
    rw [members, linked.values, ← linkSteps_keys, ← linked.tabulates.keys g, List.map_map]
    rfl
  amount g := by
    rw [linked.amount, linked.tabulates.reached (sorted_steps (linked.ascending.imp Nat.le_of_lt)), total_linkSteps proper,
      map_list_sum, List.map_map]
    rfl

/-- The output section of a link says of each `-G` value what the input sections say together. -/
theorem combined_gptab (proper : ∀ s ∈ inputSections mapHead, s.Proper)
    (ran : finalLinkGptab order gpSize mapHead = .ok out) : CombinedGptab (inputSections mapHead) gpSize out := by
  obtain ⟨table, linked⟩ := finalLinkGptab_table proper ran
  exact linked.combined proper

end Linked

section Agree

variable {order : Endian} {gpSize : Nat} {mapHead : List LinkOrder} {out a b : GptabSection}

theorem entry_amount (ascending : a.entries.Pairwise fun e e' => e.gtGValue < e'.gtGValue) {e : Elf32Gptab}
    (member : e ∈ a.entries) : e.gtBytes = (a.amount e.gtGValue).setWidth 64 := by
  have present : e.step ∈ a.entries.map Elf32Gptab.step := List.mem_map_of_mem member
  have own : a.bytes e.gtGValue = e.gtBytes := by
    rcases reached_cases (sorted_steps (ascending.imp Nat.le_of_lt)) 0 e.gtGValue with
      ⟨behind, _⟩ | ⟨e', there, low, greatest, here⟩
    · exact absurd (behind e.step present) (lt_irrefl _)
    · obtain ⟨last, entry, rfl⟩ := List.mem_map.mp there
      have key : last.gtGValue = e.gtGValue := le_antisymm low (greatest e.step present le_rfl)
      have distinct : (a.entries.map Elf32Gptab.gtGValue).Nodup :=
        List.pairwise_map.mpr (ascending.imp fun less => less.ne)
      have same : last = e := List.inj_on_of_nodup_map distinct entry member key
      rw [GptabSection.bytes, here, same, Elf32Gptab.step]
  obtain ⟨loc, _, rfl⟩ := List.mem_map.mp member
  rw [GptabSection.amount, own]
  exact bfdGet32_setWidth a.order a.contents (loc + 4)

theorem entries_ext (ascending : a.entries.Pairwise fun e e' => e.gtGValue < e'.gtGValue)
    (ascending' : b.entries.Pairwise fun e e' => e.gtGValue < e'.gtGValue) (keys : ∀ g, a.HasEntry g ↔ b.HasEntry g)
    (amount : ∀ g, a.amount g = b.amount g) : a.entries = b.entries := by
  have irrefl : Std.Irrefl fun e e' : Elf32Gptab => e.gtGValue < e'.gtGValue := ⟨fun e => lt_irrefl _⟩
  have antisymm : Std.Antisymm fun e e' : Elf32Gptab => e.gtGValue < e'.gtGValue :=
    ⟨fun e e' less more => absurd less (lt_asymm more)⟩
  have moves : ∀ {c d : GptabSection}, (c.entries.Pairwise fun e e' => e.gtGValue < e'.gtGValue) →
      (d.entries.Pairwise fun e e' => e.gtGValue < e'.gtGValue) → (∀ g, c.HasEntry g ↔ d.HasEntry g) →
        (∀ g, c.amount g = d.amount g) → ∀ e ∈ c.entries, e ∈ d.entries := by
    intro c d sorted sorted' keys amount e member
    obtain ⟨e', member', key⟩ := (keys e.gtGValue).mp ⟨e, member, rfl⟩
    have bytes : e'.gtBytes = e.gtBytes := by
      rw [entry_amount sorted' member', entry_amount sorted member, key, amount]
    have same : e' = e := by
      cases e
      cases e'
      simp_all
    exact same ▸ member'
  exact ascending.eq_of_mem_iff ascending' fun e =>
    ⟨moves ascending ascending' keys amount e,
      moves ascending' ascending (fun g => (keys g).symm) (fun g => (amount g).symm) e⟩

def LinkOrder.Complete : LinkOrder → Prop
  | .indirect s => ∀ gpentry ∈ gpentries s.size, gpentry + 8 ≤ s.size
  | .data => True
  | .other => False

theorem combineNext_ok (s : GptabSection) {gpentries : List Nat} (complete : ∀ gpentry ∈ gpentries, gpentry + 8 ≤ s.size)
    (st : Combining) : ∃ st', gpentries.foldlM (combineNext s) st = .ok st' := by
  induction gpentries generalizing st with
  | nil => exact ⟨st, rfl⟩
  | cons gpentry gpentries ih =>
    rw [List.foldlM_cons, combineNext, if_pos (complete gpentry List.mem_cons_self)]
    exact ih (fun g member => complete g (List.mem_cons_of_mem gpentry member)) _

theorem finalLinkGptab_ok (complete : ∀ p ∈ mapHead, p.Complete) (order : Endian) (gpSize : Nat) :
    ∃ out, finalLinkGptab order gpSize mapHead = .ok out := by
  have folds : ∀ tab, ∃ tab', mapHead.foldlM combineLinkOrder tab = .ok tab' := by
    induction mapHead with
    | nil => exact fun tab => ⟨tab, rfl⟩
    | cons p mapHead ih =>
      intro tab
      have rest := ih fun q member => complete q (List.mem_cons_of_mem p member)
      have first := complete p List.mem_cons_self
      rw [List.foldlM_cons]
      cases p with
      | indirect s =>
        obtain ⟨st, combined⟩ := combineNext_ok s first (tab, 0)
        rw [combineLinkOrder, combineSection, combined]
        exact rest st.1
      | data => exact rest tab
      | other => exact first.elim
  obtain ⟨tab, folded⟩ := folds []
  rw [finalLinkGptab, folded]
  exact ⟨_, rfl⟩

theorem LinkedTable.complete {table : List Elf32Gptab} (linked : LinkedTable order gpSize mapHead table out) :
    (LinkOrder.indirect out).Complete := by
  intro gpentry member
  have size : out.size = 8 * (table.length + 1) := by
    rw [linked.written]
    rfl
  obtain ⟨k, below, rfl⟩ := List.mem_map.mp member
  rw [List.mem_range, size] at below
  omega

theorem LinkedTable.written_eq {table : List Elf32Gptab} (linked : LinkedTable order gpSize mapHead table out) :
    out = writtenGptab order (⟨gpSize % 2 ^ 32, 0⟩ :: out.entries) := by
  have cut : (⟨gpSize % 2 ^ 32, 0⟩ : Elf32Gptab) :: out.entries = (⟨gpSize, 0⟩ :: table).map Elf32Gptab.cut := by
    rw [linked.entries, List.map_cons]
    rfl
  rw [cut, writtenGptab_cut]
  exact linked.written

theorem CombinedGptab.proper {inputs : List GptabSection} (combined : CombinedGptab inputs gpSize out)
    (proper : ∀ s ∈ inputs, s.Proper) : out.Proper where
  sorted := combined.ascending.imp Nat.le_of_lt
  small e member := by
    obtain ⟨s, input, e', entry, same⟩ := (combined.keys e.gtGValue).mp ⟨e, member, rfl⟩
    exact same ▸ (proper s input).small e' entry

abbrev PartLinks (groups : List (List LinkOrder)) (outs : List GptabSection) : Prop :=
  List.Forall₂ (fun mapHead out => ∃ order gpSize, finalLinkGptab order gpSize mapHead = .ok out) groups outs

theorem inputSections_append (mapHead mapHead' : List LinkOrder) :
    inputSections (mapHead ++ mapHead') = inputSections mapHead ++ inputSections mapHead' := List.filterMap_append

theorem partLinks_combined {groups : List (List LinkOrder)} {outs : List GptabSection} (parts : PartLinks groups outs)
    (proper : ∀ s ∈ inputSections groups.flatten, s.Proper) :
    (∀ s ∈ outs, s.Proper ∧ (LinkOrder.indirect s).Complete) ∧
      (∀ g, (∃ s ∈ outs, s.HasEntry g) ↔ ∃ s ∈ inputSections groups.flatten, s.HasEntry g) ∧
      ∀ g, (outs.map fun s => s.amount g).sum = ((inputSections groups.flatten).map fun s => s.amount g).sum := by
  induction parts with
  | nil => exact ⟨fun _ none => absurd none List.not_mem_nil, fun g => Iff.rfl, fun g => rfl⟩
  | @cons mapHead out groups outs part parts ih =>
    rw [List.flatten_cons, inputSections_append] at proper ⊢
    have own : ∀ s ∈ inputSections mapHead, s.Proper := fun s member => proper s (List.mem_append_left _ member)
    obtain ⟨complete, keys, amounts⟩ := ih fun s member => proper s (List.mem_append_right _ member)
    obtain ⟨order, gpSize, ran⟩ := part
    obtain ⟨table, linked⟩ := finalLinkGptab_table own ran
    have combined := linked.combined own
    refine ⟨fun s member => ?_, fun g => ?_, fun g => ?_⟩
    · rcases List.mem_cons.mp member with same | later
      · exact same ▸ ⟨combined.proper own, linked.complete⟩
      · exact complete s later
    · simp only [List.mem_cons, List.mem_append, or_and_right, exists_or, exists_eq_left, keys g, combined.keys g]
    · rw [List.map_cons, List.sum_cons, amounts g, combined.amount g, List.map_append, List.sum_append]

/-- Input sections that are first linked in groups, whatever the groups and their order, and in whatever byte order each
of them is linked, give the same section in the end as all of them together. -/
theorem gptab_links_agree {groups : List (List LinkOrder)} {outs : List GptabSection} (parts : PartLinks groups outs)
    (proper : ∀ s ∈ inputSections mapHead, s.Proper) (same : mapHead.Perm groups.flatten)
    (ran : finalLinkGptab order gpSize mapHead = .ok out) :
    finalLinkGptab order gpSize (outs.map .indirect) = .ok out := by
  have inputs : (inputSections mapHead).Perm (inputSections groups.flatten) := same.filterMap _
  obtain ⟨fine, keys, amounts⟩ := partLinks_combined parts fun s member => proper s (inputs.mem_iff.mpr member)
  have again : inputSections (outs.map .indirect) = outs := by
    rw [inputSections, List.filterMap_map]
    exact List.filterMap_some
  have fineAgain : ∀ s ∈ inputSections (outs.map .indirect), s.Proper := by
    rw [again]
    exact fun s member => (fine s member).1
  have complete : ∀ p ∈ outs.map LinkOrder.indirect, p.Complete := by
    intro p member
    obtain ⟨s, present, rfl⟩ := List.mem_map.mp member
    exact (fine s present).2
  obtain ⟨out', ran'⟩ := finalLinkGptab_ok complete order gpSize
  obtain ⟨table, linked⟩ := finalLinkGptab_table proper ran
  obtain ⟨table', linked'⟩ := finalLinkGptab_table fineAgain ran'
  have combined := linked.combined proper
  have combined' := linked'.combined fineAgain
  rw [again] at combined'
  have entries : out'.entries = out.entries := by
    refine entries_ext combined'.ascending combined.ascending (fun g => ?_) fun g => ?_
    · rw [combined'.keys g, combined.keys g, keys g]
      simp only [inputs.mem_iff]
    · rw [combined'.amount g, combined.amount g, amounts g]
      exact ((inputs.map _).sum_eq).symm
  rw [ran', linked'.written_eq, entries, ← linked.written_eq]

end Agree

def smallData : GptabSection := writtenGptab .big [⟨8, 0⟩, ⟨4, 12⟩, ⟨8, 40⟩]

def otherData : GptabSection := writtenGptab .little [⟨8, 0⟩, ⟨2, 6⟩, ⟨8, 30⟩]

def bothData : GptabSection := writtenGptab .big [⟨8, 0⟩, ⟨2, 6⟩, ⟨4, 18⟩, ⟨8, 70⟩]

theorem bothData_proper : ∀ s ∈ inputSections [.indirect smallData, .data, .indirect otherData], s.Proper := by
  have small : smallData.Proper := by
    constructor <;> rw [smallData, written_entries] <;> decide
  have other : otherData.Proper := by
    constructor <;> rw [otherData, written_entries] <;> decide
  intro s member
  rcases List.mem_pair.mp member with rfl | rfl
  · exact small
  · exact other

theorem bothData_linked :
    finalLinkGptab .big 8 [.indirect smallData, .data, .indirect otherData] = .ok bothData := rfl

theorem combined_gptab_both : CombinedGptab [smallData, otherData] 8 bothData :=
  combined_gptab bothData_proper bothData_linked

theorem bothData_parts : PartLinks [[.indirect otherData, .indirect smallData], [.data]]
    [writtenGptab .little [⟨0, 0⟩, ⟨2, 6⟩, ⟨4, 18⟩, ⟨8, 70⟩], writtenGptab .big [⟨8, 0⟩]] :=
  .cons ⟨.little, 0, rfl⟩ (.cons ⟨.big, 8, rfl⟩ .nil)

theorem gptab_links_agree_both :
    finalLinkGptab .big 8 [.indirect (writtenGptab .little [⟨0, 0⟩, ⟨2, 6⟩, ⟨4, 18⟩, ⟨8, 70⟩]),
      .indirect (writtenGptab .big [⟨8, 0⟩])] = .ok bothData := by
  have same : [LinkOrder.indirect smallData, .data, .indirect otherData].Perm
      [[.indirect otherData, .indirect smallData], [.data]].flatten :=
    (List.Perm.swap _ _ _).cons _ |>.trans (List.Perm.swap _ _ _)
  exact gptab_links_agree bothData_parts bothData_proper same bothData_linked

end Openisa.Sections
