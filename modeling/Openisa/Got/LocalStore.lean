import Openisa.Got.LocalGot

/-! The local part of a table as a store that answers a request for a value always in the same way. -/

namespace Openisa.Got

open Openisa.Bfd
open Openisa.Elf
open Openisa.Library
open Openisa.Library.SlotTable

variable {β η : Type} [DecidableEq β] [DecidableEq η]

def LocalGot.Fresh (g : LocalGot β η) : Prop := ∀ placed ∈ g.gotEntries, placed.entry.key.abfd ≠ none

/-- The slots are numbered in the order in which the values first come. -/
def slotOf (g : LocalGot β η) (seen : List BfdVma) (value : BfdVma) : Nat :=
  g.assignedGotno.toNat + seen.idxOf value

def slotIndex (f : GotFormat) (g : LocalGot β η) (slot : Nat) : Int :=
  if slot < g.localGotno.toNat then f.gotSize.toNat * slot else -1

def seenValues (requests : List LocalRequest) : List BfdVma :=
  enterAll (· == ·) [] (requests.map LocalRequest.value)

/-- What `g` has become once it has seen some values. -/
structure Stored (f : GotFormat) (start : LocalGot β η) (seen : List BfdVma) (g : LocalGot β η) : Prop where
  nodup : seen.Nodup
  entries : ∀ value, findAddress f g.gotEntries value =
    if value ∈ seen then some (addressEntry value (slotIndex f start (slotOf start seen value))) else none
  cursor : g.assignedGotno.toNat = start.assignedGotno.toNat + seen.length
  localGotno : g.localGotno = start.localGotno
  words : ∀ value ∈ seen, slotOf start seen value < start.localGotno.toNat →
    mipsElfGetWord f g.contents (f.gotSize.toNat * slotOf start seen value) =
      value.toNat % 256 ^ f.gotSize.toNat

theorem bytes_slots : SlotTest (fun x y : BfdVma => x == y) where
  refl x := beq_self_eq_true x
  symm same := by
    rw [beq_iff_eq] at same ⊢
    exact same.symm
  trans first second := by
    rw [beq_iff_eq] at first second ⊢
    exact first.trans second

theorem enter_new {seen : List BfdVma} {value : BfdVma} (new : value ∉ seen) :
    enter (· == ·) seen value = seen ++ [value] := by
  apply enter_fresh
  intro other member
  rw [beq_eq_false_iff_ne]
  intro same
  exact new (same ▸ member)

theorem stored_start (f : GotFormat) (g : LocalGot β η) (fresh : g.Fresh) : Stored f g [] g where
  nodup := List.nodup_nil
  entries value := by
    rw [if_neg List.not_mem_nil, findAddress, List.find?_eq_none]
    intro placed member shared
    rw [got_entry_eq_address] at shared
    apply fresh placed member
    rw [shared.1]
    rfl
  cursor := rfl
  localGotno := rfl
  words _ member := absurd member List.not_mem_nil

omit [DecidableEq β] [DecidableEq η] in
theorem slot_of_append (g : LocalGot β η) {seen : List BfdVma} {value : BfdVma} (member : value ∈ seen)
    (later : List BfdVma) : slotOf g (seen ++ later) value = slotOf g seen value := by
  rw [slotOf, slotOf, List.idxOf_append_of_mem member]

omit [DecidableEq β] [DecidableEq η] in
theorem slot_of_new (g : LocalGot β η) {seen : List BfdVma} {value : BfdVma} (new : value ∉ seen) :
    slotOf g (seen ++ [value]) value = g.assignedGotno.toNat + seen.length := by
  rw [slotOf, List.idxOf_append_of_notMem new, List.idxOf_cons_self, Nat.add_zero]

omit [DecidableEq β] [DecidableEq η] in
theorem slot_of_lt (g : LocalGot β η) {seen : List BfdVma} {value : BfdVma} (member : value ∈ seen) :
    slotOf g seen value < g.assignedGotno.toNat + seen.length :=
  Nat.add_lt_add_left (List.idxOf_lt_length_of_mem member) _

omit [DecidableEq β] [DecidableEq η] in
theorem slot_of_inj (g : LocalGot β η) {seen : List BfdVma} {v w : BfdVma} (member : v ∈ seen)
    (same : slotOf g seen v = slotOf g seen w) : v = w := by
  have positions : seen.idxOf v = seen.idxOf w := Nat.add_left_cancel same
  exact (List.idxOf_inj member).mp positions

theorem find_added (f : GotFormat) {entries : List (PlacedEntry β η)} {value : BfdVma}
    (absent : findAddress f entries value = none) (gotidx : Int) (other : BfdVma) :
    findAddress f (entries ++ [addressEntry value gotidx]) other =
      if other = value then some (addressEntry value gotidx) else findAddress f entries other := by
  rw [findAddress, List.find?_append]
  by_cases own : other = value
  · have found : gotEntryEq f.multi ⟨.address value, gotNormal⟩
        (addressEntry value gotidx : PlacedEntry β η).entry = true :=
      (got_entry_eq_address f.multi value _).mpr ⟨rfl, show TlsType.ldmP gotNormal = false by decide⟩
    rw [findAddress] at absent
    rw [if_pos own, own, absent, Option.none_or, List.find?_singleton, if_pos found]
  · have apart : ¬ gotEntryEq f.multi ⟨.address other, gotNormal⟩
        (addressEntry value gotidx : PlacedEntry β η).entry = true := by
      intro shared
      have key := ((got_entry_eq_address f.multi other _).mp shared).1
      injection key with same
      exact own same.symm
    rw [if_neg own, List.find?_singleton, if_neg apart, Option.or_none]
    rfl

/-- The offsets of all slots fit in an `unsigned int`. -/
def LocalGot.Addressable (f : GotFormat) (g : LocalGot β η) : Prop :=
  f.gotSize.toNat * g.localGotno.toNat ≤ 2 ^ 32

variable {f : GotFormat} {start g : LocalGot β η} {seen : List BfdVma}

structure Created (f : GotFormat) (start g : LocalGot β η) (seen : List BfdVma) (value : BfdVma) : Prop where
  stored : Stored f start (enter (· == ·) seen value) (mipsElfCreateLocalGotEntry f g value).1
  index : entryIndex (mipsElfCreateLocalGotEntry f g value).2 =
    BitVec.ofInt 64 (slotIndex f start (slotOf start (enter (· == ·) seen value) value))
  address : ∀ placed ∈ (mipsElfCreateLocalGotEntry f g value).2, placed.address = value
  kept : ¬ slotOf start (enter (· == ·) seen value) value < start.localGotno.toNat →
    (mipsElfCreateLocalGotEntry f g value).1.contents = g.contents

theorem Stored.again (stored : Stored f start seen g) {value : BfdVma} (member : value ∈ seen) :
    Created f start g seen value := by
  have taken : enter (· == ·) seen value = seen := enter_taken member (beq_self_eq_true value)
  have found := stored.entries value
  rw [if_pos member] at found
  have call : mipsElfCreateLocalGotEntry f g value =
      (g, some (addressEntry value (slotIndex f start (slotOf start seen value)))) := by
    simp only [mipsElfCreateLocalGotEntry, found]
  refine ⟨?_, ?_, ?_, ?_⟩
  · rw [taken, call]
    exact stored
  · rw [taken, call]
    rfl
  · intro placed answer
    rw [call] at answer
    injection answer with same
    rw [← same]
    rfl
  · intro _
    rw [call]

theorem nodup_new (nodup : seen.Nodup) {value : BfdVma} (new : value ∉ seen) : (seen ++ [value]).Nodup := by
  apply List.nodup_append.mpr
  refine ⟨nodup, List.nodup_singleton _, ?_⟩
  intro other member last single same
  rw [List.mem_singleton.mp single] at same
  exact new (same ▸ member)

theorem Stored.cursor_new (stored : Stored f start seen g)
    (room : start.assignedGotno.toNat + seen.length + 1 < 2 ^ 32) (value : BfdVma) :
    (g.assignedGotno + 1).toNat = start.assignedGotno.toNat + (seen ++ [value]).length := by
  have one : (1 : BitVec 32).toNat = 1 := rfl
  rw [BitVec.toNat_add, stored.cursor, one, List.length_append, List.length_singleton]
  omega

theorem Stored.entries_new (stored : Stored f start seen g) {value : BfdVma} (new : value ∉ seen) {gotidx : Int}
    (own : gotidx = slotIndex f start (slotOf start (seen ++ [value]) value)) (other : BfdVma) :
    findAddress f (g.gotEntries ++ [addressEntry value gotidx]) other =
      if other ∈ seen ++ [value] then
        some (addressEntry other (slotIndex f start (slotOf start (seen ++ [value]) other))) else none := by
  have absent := stored.entries value
  rw [if_neg new] at absent
  rw [find_added f absent, stored.entries other, own]
  by_cases same : other = value
  · rw [if_pos same, same, if_pos (by simp)]
  · by_cases member : other ∈ seen
    · rw [if_neg same, if_pos member, if_pos (List.mem_append_left _ member), slot_of_append start member]
    · rw [if_neg same, if_neg member, if_neg (by simp [member, same])]

theorem Stored.full_iff (stored : Stored f start seen g)
    (room : start.assignedGotno.toNat + seen.length + 1 < 2 ^ 32) {value : BfdVma} (new : value ∉ seen) :
    g.assignedGotno + 1 > g.localGotno ↔ ¬ slotOf start (seen ++ [value]) value < start.localGotno.toNat := by
  have cursor := stored.cursor_new room value
  rw [List.length_append, List.length_singleton] at cursor
  rw [slot_of_new start new, ← stored.localGotno, gt_iff_lt, BitVec.lt_def, cursor]
  omega

theorem Stored.offset_new (stored : Stored f start seen g) (addressable : start.Addressable f) {value : BfdVma}
    (new : value ∉ seen) (inside : slotOf start (seen ++ [value]) value < start.localGotno.toNat) :
    (f.gotSize * g.assignedGotno).toNat = f.gotSize.toNat * slotOf start (seen ++ [value]) value := by
  have below : f.gotSize.toNat * slotOf start (seen ++ [value]) value < 2 ^ 32 :=
    calc
      _ < f.gotSize.toNat * start.localGotno.toNat := Nat.mul_lt_mul_of_pos_left inside (got_size_pos f)
      _ ≤ 2 ^ 32 := addressable
  rw [BitVec.toNat_mul, stored.cursor, ← slot_of_new start new]
  exact Nat.mod_eq_of_lt below

theorem Stored.refused (stored : Stored f start seen g)
    (room : start.assignedGotno.toNat + seen.length + 1 < 2 ^ 32) {value : BfdVma} (new : value ∉ seen)
    (full : g.assignedGotno + 1 > g.localGotno) : Created f start g seen value := by
  have entered := enter_new new
  have absent := stored.entries value
  rw [if_neg new] at absent
  have outside := (stored.full_iff room new).mp full
  have call : mipsElfCreateLocalGotEntry f g value =
      ({ g with gotEntries := g.gotEntries ++ [addressEntry value (-1)]
                assignedGotno := g.assignedGotno + 1 }, none) := by
    simp only [mipsElfCreateLocalGotEntry, absent, if_pos full]
  refine ⟨?_, ?_, ?_, ?_⟩
  · rw [entered, call]
    refine ⟨nodup_new stored.nodup new, stored.entries_new new ?_, stored.cursor_new room value,
      stored.localGotno, ?_⟩
    · rw [slotIndex, if_neg outside]
    · intro other member inside
      rcases List.mem_append.mp member with earlier | last
      · rw [slot_of_append start earlier] at inside ⊢
        exact stored.words other earlier inside
      · rw [List.mem_singleton.mp last] at inside
        exact absurd inside outside
  · rw [entered, call, slotIndex, if_neg outside]
    rfl
  · intro placed answer
    rw [call] at answer
    cases answer
  · intro _
    rw [call]

theorem Stored.written (stored : Stored f start seen g) (addressable : start.Addressable f)
    (room : start.assignedGotno.toNat + seen.length + 1 < 2 ^ 32) {value : BfdVma} (new : value ∉ seen)
    (free : ¬ g.assignedGotno + 1 > g.localGotno) : Created f start g seen value := by
  have entered := enter_new new
  have absent := stored.entries value
  rw [if_neg new] at absent
  have inside := not_not.mp (mt (stored.full_iff room new).mpr free)
  have offset := stored.offset_new addressable new inside
  refine ⟨?_, ?_, ?_, ?_⟩
  · rw [entered]
    simp only [mipsElfCreateLocalGotEntry, absent, if_neg free]
    refine ⟨nodup_new stored.nodup new, stored.entries_new new ?_, stored.cursor_new room value,
      stored.localGotno, ?_⟩
    · rw [slotIndex, if_pos inside, offset]
      rfl
    · intro other member below
      dsimp only
      rw [offset]
      rcases List.mem_append.mp member with earlier | last
      · have apart : slotOf start (seen ++ [value]) value ≠ slotOf start seen other := by
          have before := slot_of_lt start earlier
          have slot := slot_of_new start new
          omega
        rw [slot_of_append start earlier] at below ⊢
        rw [get_put_word_apart f _ _ apart]
        exact stored.words other earlier below
      · rw [List.mem_singleton.mp last, get_put_word]
  · rw [entered]
    simp only [mipsElfCreateLocalGotEntry, absent, if_neg free, entryIndex]
    rw [slotIndex, if_pos inside, offset]
    rfl
  · intro placed answer
    simp only [mipsElfCreateLocalGotEntry, absent, if_neg free] at answer
    injection answer with same
    rw [← same]
    rfl
  · intro outside
    rw [entered] at outside
    exact absurd inside outside

theorem seen_values_append (before : List LocalRequest) (request : LocalRequest) :
    seenValues (before ++ [request]) = enter (· == ·) (seenValues before) request.value := by
  rw [seenValues, List.map_append, enterAll_append]
  rfl

theorem seen_values_extend {before requests : List LocalRequest} (earlier : before <+: requests) :
    seenValues before <+: seenValues requests := by
  rcases earlier with ⟨later, rfl⟩
  rw [seenValues, seenValues, List.map_append, enterAll_append]
  exact prefix_enterAll _ _

theorem mem_seen_values {requests : List LocalRequest} {value : BfdVma} :
    value ∈ seenValues requests ↔ value ∈ requests.map LocalRequest.value := by
  constructor
  · intro member
    rcases of_mem_enterAll member with none | asked
    · exact absurd none List.not_mem_nil
    · exact asked
  · intro member
    rcases enterAll_shares bytes_slots [] member with ⟨other, stored, shared⟩
    rw [beq_iff_eq.mp shared]
    exact stored

def valuesSeen (requests : List LocalRequest) : Nat := (requests.map LocalRequest.value).toFinset.card

theorem values_seen_eq (requests : List LocalRequest) : valuesSeen requests = (seenValues requests).length := by
  have nodup : (seenValues requests).Nodup :=
    (enterAll_distinct bytes_slots List.Pairwise.nil (requests.map LocalRequest.value)).nodup bytes_slots
  have same : (requests.map LocalRequest.value).toFinset = (seenValues requests).toFinset := by
    ext value
    rw [List.mem_toFinset, List.mem_toFinset, mem_seen_values]
  rw [valuesSeen, same, List.toFinset_card_of_nodup nodup]

theorem serve_all_append (f : GotFormat) (g : LocalGot β η) (before : List LocalRequest) (request : LocalRequest) :
    serveAll f g (before ++ [request]) = (request.serve f (serveAll f g before)).1 := by
  rw [serveAll, List.foldl_append]
  rfl

theorem Stored.created (stored : Stored f start seen g) (addressable : start.Addressable f) (value : BfdVma)
    (room : start.assignedGotno.toNat + (enter (· == ·) seen value).length < 2 ^ 32) :
    Created f start g seen value := by
  by_cases member : value ∈ seen
  · exact stored.again member
  · rw [enter_new member, List.length_append, List.length_singleton] at room
    by_cases full : g.assignedGotno + 1 > g.localGotno
    · exact stored.refused room member full
    · exact stored.written addressable room member full

theorem stored_run (f : GotFormat) (start : LocalGot β η) (fresh : start.Fresh) (addressable : start.Addressable f)
    (requests : List LocalRequest) (room : start.assignedGotno.toNat + valuesSeen requests < 2 ^ 32) :
    Stored f start (seenValues requests) (serveAll f start requests) := by
  induction requests using List.reverseRecOn with
  | nil => exact stored_start f start fresh
  | append_singleton before request ih =>
      rw [values_seen_eq] at room
      have shorter := (seen_values_extend (List.prefix_append before [request])).length_le
      have stored := ih (by rw [values_seen_eq]; omega)
      rw [seen_values_append] at room
      have created := stored.created addressable request.value room
      rw [serve_all_append, serve_eq, seen_values_append]
      exact created.stored

/-- The answer to a request that comes after others. -/
def answer (f : GotFormat) (start : LocalGot β η) (before : List LocalRequest) (request : LocalRequest) : BfdVma :=
  (request.serve f (serveAll f start before)).2

/-- A list of requests, each answered after those before it. -/
structure StableStore (f : GotFormat) (start : LocalGot β η) (requests : List LocalRequest) : Prop where
  same : ∀ before before' request request', before ++ [request] <+: requests → before' ++ [request'] <+: requests →
    request.value = request'.value → answer f start before request = answer f start before' request'
  different : ∀ before before' request request', before ++ [request] <+: requests →
    before' ++ [request'] <+: requests → answer f start before request ≠ minusOne →
    request.value ≠ request'.value → answer f start before request ≠ answer f start before' request'
  range : ∀ before request, before ++ [request] <+: requests → answer f start before request ≠ minusOne →
    ∃ slot, start.assignedGotno.toNat ≤ slot ∧ slot < start.localGotno.toNat ∧
      (answer f start before request).toNat = f.gotSize.toNat * slot
  fits : ∀ before request, before ++ [request] <+: requests → request.value ∉ before.map LocalRequest.value →
    (answer f start before request ≠ minusOne ↔
      start.assignedGotno.toNat + valuesSeen before < start.localGotno.toNat)
  word : ∀ before request last, before ++ [request] <+: last → last <+: requests →
    answer f start before request ≠ minusOne →
    mipsElfGetWord f (serveAll f start last).contents (answer f start before request).toNat =
      request.value.toNat % 256 ^ f.gotSize.toNat
  refused : ∀ before request, before ++ [request] <+: requests → answer f start before request = minusOne →
    (serveAll f start (before ++ [request])).contents = (serveAll f start before).contents
  pair : ∀ before before' value last, before ++ [.page value] <+: last → last <+: requests →
    before' ++ [.page value] <+: requests → answer f start before (.page value) ≠ minusOne →
    ∃ offset, (mipsElfGotPage f (serveAll f start before') value).2.2 = some offset ∧
      -0x8000 ≤ offset.toInt ∧ offset.toInt < 0x8000 ∧ mipsElfOverflowP offset 16 = false ∧
      (mipsElfGetWord f (serveAll f start last).contents (answer f start before (.page value)).toNat +
        offset.toNat) % 256 ^ f.gotSize.toNat = value.toNat % 256 ^ f.gotSize.toNat
  relocations : ∀ (ops : GotOps (LocalGot β η)) link inputSection rel (o o' : Operands) before before' last,
    o.rType ∈ [.rMipsGotPage, .rMicromipsGotPage] → o'.rType ∈ [.rMipsGotOfst, .rMicromipsGotOfst] →
    o'.localP = true → o'.symbol + o'.addend = o.symbol + o.addend →
    before ++ [.page (o.symbol + o.addend)] <+: last → last <+: requests →
    before' ++ [.page (o.symbol + o.addend)] <+: requests →
    answer f start before (.page (o.symbol + o.addend)) ≠ minusOne →
    ∃ index offset g overflowed,
      (relocationValue (pageOps f ops) link inputSection rel o (serveAll f start before)).1 =
        .value (ops.gotOffsetFromIndex index g) overflowed ∧
      (relocationValue (pageOps f ops) link inputSection rel o' (serveAll f start before')).1 =
        .value offset false ∧
      (mipsElfGetWord f (serveAll f start last).contents index.toNat + offset.toNat) %
        256 ^ f.gotSize.toNat = (o.symbol + o.addend).toNat % 256 ^ f.gotSize.toNat

omit [DecidableEq β] [DecidableEq η] in
theorem slot_index_inside (addressable : start.Addressable f) {slot : Nat} (inside : slot < start.localGotno.toNat) :
    (BitVec.ofInt 64 (slotIndex f start slot)).toNat = f.gotSize.toNat * slot ∧
      BitVec.ofInt 64 (slotIndex f start slot) ≠ minusOne := by
  have below : f.gotSize.toNat * slot < 2 ^ 32 :=
    calc
      _ < f.gotSize.toNat * start.localGotno.toNat := Nat.mul_lt_mul_of_pos_left inside (got_size_pos f)
      _ ≤ 2 ^ 32 := addressable
  have value : (BitVec.ofInt 64 (slotIndex f start slot)).toNat = f.gotSize.toNat * slot := by
    rw [slotIndex, if_pos inside, BitVec.toNat_ofInt]
    omega
  refine ⟨value, ?_⟩
  intro none
  have last : minusOne.toNat = 2 ^ 64 - 1 := by decide
  rw [none, last] at value
  omega

omit [DecidableEq β] [DecidableEq η] in
theorem slot_index_ne_iff (addressable : start.Addressable f) (slot : Nat) :
    BitVec.ofInt 64 (slotIndex f start slot) ≠ minusOne ↔ slot < start.localGotno.toNat := by
  constructor
  · intro handed
    by_contra outside
    apply handed
    rw [slotIndex, if_neg outside]
    decide
  · exact fun inside => (slot_index_inside addressable inside).2

omit [DecidableEq β] [DecidableEq η] in
theorem slot_of_later (start : LocalGot β η) {before requests : List LocalRequest} {request : LocalRequest}
    (asked : before ++ [request] <+: requests) :
    slotOf start (seenValues (before ++ [request])) request.value =
      slotOf start (seenValues requests) request.value := by
  have member : request.value ∈ seenValues (before ++ [request]) :=
    mem_seen_values.mpr (List.mem_map_of_mem (List.mem_append_right _ List.mem_cons_self))
  rcases seen_values_extend asked with ⟨later, split⟩
  rw [← split, slot_of_append start member]

section Run

variable {requests before : List LocalRequest} {request : LocalRequest}

theorem stored_at (fresh : start.Fresh) (addressable : start.Addressable f)
    (room : start.assignedGotno.toNat + valuesSeen requests < 2 ^ 32) (earlier : before <+: requests) :
    Stored f start (seenValues before) (serveAll f start before) := by
  apply stored_run f start fresh addressable
  have shorter := (seen_values_extend earlier).length_le
  rw [values_seen_eq] at room ⊢
  omega

theorem created_at (fresh : start.Fresh) (addressable : start.Addressable f)
    (room : start.assignedGotno.toNat + valuesSeen requests < 2 ^ 32) (asked : before ++ [request] <+: requests) :
    Created f start (serveAll f start before) (seenValues before) request.value := by
  have stored := stored_at fresh addressable room ((List.prefix_append before [request]).trans asked)
  apply stored.created addressable
  have shorter := (seen_values_extend asked).length_le
  rw [values_seen_eq] at room
  rw [← seen_values_append]
  omega

theorem answer_eq (fresh : start.Fresh) (addressable : start.Addressable f)
    (room : start.assignedGotno.toNat + valuesSeen requests < 2 ^ 32) (asked : before ++ [request] <+: requests) :
    answer f start before request =
      BitVec.ofInt 64 (slotIndex f start (slotOf start (seenValues requests) request.value)) := by
  have created := created_at fresh addressable room asked
  rw [answer, serve_eq, created.index, ← seen_values_append, slot_of_later start asked]

theorem answer_ne_iff (fresh : start.Fresh) (addressable : start.Addressable f)
    (room : start.assignedGotno.toNat + valuesSeen requests < 2 ^ 32) (asked : before ++ [request] <+: requests) :
    answer f start before request ≠ minusOne ↔
      slotOf start (seenValues requests) request.value < start.localGotno.toNat := by
  rw [answer_eq fresh addressable room asked]
  exact slot_index_ne_iff addressable _

theorem word_at (fresh : start.Fresh) (addressable : start.Addressable f)
    (room : start.assignedGotno.toNat + valuesSeen requests < 2 ^ 32) {last : List LocalRequest}
    (asked : before ++ [request] <+: last) (earlier : last <+: requests)
    (success : answer f start before request ≠ minusOne) :
    mipsElfGetWord f (serveAll f start last).contents (answer f start before request).toNat =
      request.value.toNat % 256 ^ f.gotSize.toNat := by
  have whole := asked.trans earlier
  have inside := (answer_ne_iff fresh addressable room whole).mp success
  have stored := stored_at fresh addressable room earlier
  have member : request.value ∈ seenValues last :=
    mem_seen_values.mpr (List.mem_map_of_mem (asked.subset (List.mem_append_right _ List.mem_cons_self)))
  have slot := (slot_of_later start asked).symm.trans (slot_of_later start whole)
  rw [answer_eq fresh addressable room whole, (slot_index_inside addressable inside).1, ← slot]
  apply stored.words _ member
  rw [slot]
  exact inside

theorem answers_same (fresh : start.Fresh) (addressable : start.Addressable f)
    (room : start.assignedGotno.toNat + valuesSeen requests < 2 ^ 32) {before' : List LocalRequest}
    {request' : LocalRequest} (asked : before ++ [request] <+: requests)
    (asked' : before' ++ [request'] <+: requests) (same : request.value = request'.value) :
    answer f start before request = answer f start before' request' := by
  rw [answer_eq fresh addressable room asked, answer_eq fresh addressable room asked', same]

theorem answers_apart (fresh : start.Fresh) (addressable : start.Addressable f)
    (room : start.assignedGotno.toNat + valuesSeen requests < 2 ^ 32) {before' : List LocalRequest}
    {request' : LocalRequest} (asked : before ++ [request] <+: requests)
    (asked' : before' ++ [request'] <+: requests) (success : answer f start before request ≠ minusOne)
    (same : answer f start before request = answer f start before' request') :
    request.value = request'.value := by
  have inside := (answer_ne_iff fresh addressable room asked).mp success
  have inside' := (answer_ne_iff fresh addressable room asked').mp (same ▸ success)
  have offsets := congrArg BitVec.toNat same
  rw [answer_eq fresh addressable room asked, answer_eq fresh addressable room asked',
    (slot_index_inside addressable inside).1, (slot_index_inside addressable inside').1] at offsets
  have member : request.value ∈ seenValues requests :=
    mem_seen_values.mpr (List.mem_map_of_mem (asked.subset (List.mem_append_right _ List.mem_cons_self)))
  exact slot_of_inj start member (Nat.eq_of_mul_eq_mul_left (got_size_pos f) offsets)

end Run

theorem page_offset_range (value : BfdVma) :
    -0x8000 ≤ (value - pageAddress value).toInt ∧ (value - pageAddress value).toInt < 0x8000 := by
  have page := page_address_toNat value
  have constant : (0x8000 : BfdVma).toNat = 0x8000 := rfl
  rw [BitVec.toNat_add, constant] at page
  have small := value.isLt
  rw [BitVec.toInt_eq_toNat_cond, BitVec.toNat_sub, page]
  constructor
  · split <;> omega
  · split <;> omega

theorem page_offset_no_overflow (value : BfdVma) : mipsElfOverflowP (value - pageAddress value) 16 = false := by
  have range := page_offset_range value
  rw [mipsElfOverflowP, Bool.or_eq_false_iff, decide_eq_false_iff_not, decide_eq_false_iff_not]
  constructor
  · omega
  · omega

theorem page_offset_sum (f : GotFormat) (value : BfdVma) :
    ((pageAddress value).toNat % 256 ^ f.gotSize.toNat + (value - pageAddress value).toNat) %
      256 ^ f.gotSize.toNat = value.toNat % 256 ^ f.gotSize.toNat := by
  have whole : ((pageAddress value).toNat + (value - pageAddress value).toNat) % 2 ^ 64 = value.toNat := by
    rw [← BitVec.toNat_add, BitVec.add_comm, BitVec.sub_add_cancel]
  have divides : 256 ^ f.gotSize.toNat ∣ 2 ^ 64 := by
    rw [got_size_toNat]
    split <;> decide
  calc
    _ = ((pageAddress value).toNat + (value - pageAddress value).toNat) % 256 ^ f.gotSize.toNat :=
      Nat.mod_add_mod _ _ _
    _ = ((pageAddress value).toNat + (value - pageAddress value).toNat) % 2 ^ 64 % 256 ^ f.gotSize.toNat :=
      (Nat.mod_mod_of_dvd _ divides).symm
    _ = value.toNat % 256 ^ f.gotSize.toNat := by rw [whole]

theorem got_page_value (f : GotFormat) (ops : GotOps (LocalGot β η)) (link : ElfLink) (inputSection : ElfSection)
    (rel : InternalRela) (o : Operands) (g : LocalGot β η) (offset : BfdVma)
    (type : o.rType ∈ [.rMipsGotPage, .rMicromipsGotPage])
    (found : (mipsElfGotPage f g (o.symbol + o.addend)).2.1 ≠ minusOne)
    (set : (mipsElfGotPage f g (o.symbol + o.addend)).2.2 = some offset) :
    ∃ g' overflowed, (relocationValue (pageOps f ops) link inputSection rel o g).1 =
      .value (ops.gotOffsetFromIndex (mipsElfGotPage f g (o.symbol + o.addend)).2.1 g') overflowed := by
  refine ⟨(mipsElfGotPage f g (o.symbol + o.addend)).1, mipsElfOverflowP
    (ops.gotOffsetFromIndex (mipsElfGotPage f g (o.symbol + o.addend)).2.1
      (mipsElfGotPage f g (o.symbol + o.addend)).1) 16, ?_⟩
  simp only [List.mem_cons, List.not_mem_nil, or_false] at type
  rcases type with type | type
  · simp only [relocationValue, type, pageOps, if_neg found, set, Option.map_some, gotIndexValue]
  · simp only [relocationValue, type, pageOps, if_neg found, set, Option.map_some, gotIndexValue]

theorem got_ofst_value (f : GotFormat) (ops : GotOps (LocalGot β η)) (link : ElfLink) (inputSection : ElfSection)
    (rel : InternalRela) (o : Operands) (g : LocalGot β η) (offset : BfdVma)
    (type : o.rType ∈ [.rMipsGotOfst, .rMicromipsGotOfst]) (localP : o.localP = true)
    (found : (mipsElfGotPage f g (o.symbol + o.addend)).2.1 ≠ minusOne)
    (set : (mipsElfGotPage f g (o.symbol + o.addend)).2.2 = some offset) :
    (relocationValue (pageOps f ops) link inputSection rel o g).1 = .value offset (mipsElfOverflowP offset 16) := by
  simp only [List.mem_cons, List.not_mem_nil, or_false] at type
  rcases type with type | type
  · simp only [relocationValue, type, localP, pageOps, if_neg found, set, Option.map_some, Option.getD_some, if_true]
  · simp only [relocationValue, type, localP, pageOps, if_neg found, set, Option.map_some, Option.getD_some, if_true]

theorem page_pair (fresh : start.Fresh) (addressable : start.Addressable f) {requests : List LocalRequest}
    (room : start.assignedGotno.toNat + valuesSeen requests < 2 ^ 32) {before before' last : List LocalRequest}
    {value : BfdVma} (asked : before ++ [.page value] <+: last) (earlier : last <+: requests)
    (asked' : before' ++ [.page value] <+: requests) (success : answer f start before (.page value) ≠ minusOne) :
    answer f start before' (.page value) ≠ minusOne ∧
      (mipsElfGotPage f (serveAll f start before') value).2.2 = some (value - pageAddress value) ∧
      (mipsElfGetWord f (serveAll f start last).contents (answer f start before (.page value)).toNat +
        (value - pageAddress value).toNat) % 256 ^ f.gotSize.toNat = value.toNat % 256 ^ f.gotSize.toNat := by
  have created := created_at fresh addressable room asked'
  have word := word_at fresh addressable room asked earlier success
  have success' : answer f start before' (.page value) ≠ minusOne :=
    answers_same fresh addressable room (asked.trans earlier) asked' rfl ▸ success
  refine ⟨success', ?_, ?_⟩
  · cases found : (mipsElfCreateLocalGotEntry f (serveAll f start before') (pageAddress value)).2 with
    | none =>
        have failed : answer f start before' (.page value) = minusOne := by
          rw [answer, serve_eq]
          exact congrArg entryIndex found
        exact absurd failed success'
    | some placed =>
        have page : placed.address = pageAddress value := created.address placed found
        rw [← page]
        exact congrArg (Option.map fun placed => value - placed.address) found
  · rw [word]
    exact page_offset_sum f value

/-- The store is stable and injective as long as the offsets and the cursor do not wrap. -/
theorem local_store_stable (f : GotFormat) (start : LocalGot β η) (fresh : start.Fresh)
    (addressable : start.Addressable f) (requests : List LocalRequest)
    (room : start.assignedGotno.toNat + valuesSeen requests < 2 ^ 32) : StableStore f start requests := by
  refine ⟨?_, ?_, ?_, ?_, ?_, ?_, ?_, ?_⟩
  · intro before before' request request' asked asked' same
    exact answers_same fresh addressable room asked asked' same
  · intro before before' request request' asked asked' success different same
    exact different (answers_apart fresh addressable room asked asked' success same)
  · intro before request asked success
    have inside := (answer_ne_iff fresh addressable room asked).mp success
    refine ⟨_, Nat.le_add_right _ _, inside, ?_⟩
    rw [answer_eq fresh addressable room asked]
    exact (slot_index_inside addressable inside).1
  · intro before request asked new
    rw [answer_ne_iff fresh addressable room asked, ← slot_of_later start asked, seen_values_append]
    have absent : request.value ∉ seenValues before := fun member => new (mem_seen_values.mp member)
    rw [enter_new absent, slot_of_new start absent, values_seen_eq]
  · intro before request last asked earlier success
    exact word_at fresh addressable room asked earlier success
  · intro before request asked failed
    have outside : ¬ slotOf start (seenValues requests) request.value < start.localGotno.toNat :=
      fun inside => (answer_ne_iff fresh addressable room asked).mpr inside failed
    rw [serve_all_append, serve_eq]
    apply (created_at fresh addressable room asked).kept
    rw [← seen_values_append, slot_of_later start asked]
    exact outside
  · intro before before' value last asked earlier asked' success
    rcases page_pair fresh addressable room asked earlier asked' success with ⟨_, offset, sum⟩
    exact ⟨_, offset, (page_offset_range value).1, (page_offset_range value).2, page_offset_no_overflow value, sum⟩
  · intro ops link inputSection rel o o' before before' last page ofst localP same asked earlier asked' success
    rcases page_pair fresh addressable room asked earlier asked' success with ⟨success', offset', sum⟩
    rcases page_pair fresh addressable room asked earlier (asked.trans earlier) success with ⟨_, offset, _⟩
    rcases got_page_value f ops link inputSection rel o _ _ page success offset with ⟨g, overflowed, first⟩
    rw [← same] at success' offset'
    have second := got_ofst_value f ops link inputSection rel o' _ _ ofst localP success' offset'
    rw [same, page_offset_no_overflow] at second
    exact ⟨_, _, g, overflowed, first, second, sum⟩

def overflowFormat : GotFormat := ⟨.little, false, false, false, 0x10000⟩

def overflowGot : LocalGot Nat Nat := ⟨[], 2 ^ 30, 2 ^ 30 + 1, fun _ => 0, []⟩

theorem local_store_wraps : ¬ StableStore overflowFormat overflowGot [.entry 0x400000] := by
  intro stable
  have first : answer overflowFormat overflowGot [] (.entry 0x400000) = 0 := by decide
  rcases stable.range [] (.entry 0x400000) List.prefix_rfl (by rw [first]; decide) with ⟨slot, low, _, offset⟩
  have start : overflowGot.assignedGotno.toNat = 2 ^ 30 := by decide
  have size : overflowFormat.gotSize.toNat = 4 := by decide
  have zero : (0 : BfdVma).toNat = 0 := rfl
  rw [first, size, zero] at offset
  rw [start] at low
  omega

def smallGot : LocalGot Nat Nat := ⟨[], 2, 4, fun _ => 0, []⟩

def sampleRequests : List LocalRequest :=
  [.page 0x409234, .entry 0x410000, .got16 0x418000 false, .got16 0x418000 true, .page 0x409238]

theorem local_store_stable_small : StableStore overflowFormat smallGot sampleRequests :=
  local_store_stable overflowFormat smallGot (fun _ member => absurd member List.not_mem_nil)
    (show overflowFormat.gotSize.toNat * smallGot.localGotno.toNat ≤ 2 ^ 32 by decide) sampleRequests
    (show smallGot.assignedGotno.toNat + valuesSeen sampleRequests < 2 ^ 32 by decide)

end Openisa.Got
