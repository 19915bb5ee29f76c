import Openisa.Got.LayoutRanges

/-! The tables of a link partition the section. -/

namespace Openisa.Got

open Openisa.Bfd
open Openisa.Library
open Openisa.Library.SlotTable
open Openisa.Library.BumpLayout

variable {π β η : Type} [DecidableEq π] [DecidableEq β] [DecidableEq η]

/-- No thread-local entry of a table is for a symbol of the global part. -/
def LaidGot.TlsApart (area : η → GlobalGotArea) (g : LaidGot β η) : Prop :=
  ∀ placed ∈ g.gotEntries, Got.TlsApart area placed.entry

structure OffsetsSet (c : LayoutConf) (area : η → GlobalGotArea) (walk : π → Walk (PlacedEntry β η))
    (first : MultiGots π β η) (done : List π) (m : MultiGots π β η) : Prop where
  set : ∀ p ∈ done, (first.got p).TlsApart area → m.got p = { first.got p with
    gotEntries := (offsets (placedGlobals area) (first.got p).localGotno.toNat
      ((walk p).order (first.got p).gotEntries)).map fun q => putGlobal c.format area q.1 q.2 }
  entries : ∀ p, m.got p = { first.got p with gotEntries := (m.got p).gotEntries }
  kept : ∀ p, ((m.got p).gotEntries.map PlacedEntry.entry).Perm ((first.got p).gotEntries.map PlacedEntry.entry)
  others : ∀ p, p ∉ done → m.got p = first.got p
  ring : m.ring = first.ring
  master : m.master = first.master
  bfd2got : m.bfd2got = first.bfd2got

omit [DecidableEq β] [DecidableEq η] in
theorem set_global_got_offset_kept (f : GotFormat) (info : LinkInfo) (sym : η → TlsSymbol)
    (area : η → GlobalGotArea) (arg : GlobalOffsetArg) (placed : PlacedEntry β η) :
    (mipsElfSetGlobalGotOffset f info sym area arg placed).2.entry = placed.entry := by
  rcases set_global_got_offset_cases f info sym area arg placed with ⟨_, entry, _⟩ | ⟨_, entry, _⟩
  · rw [entry]
  · rw [entry]

omit [DecidableEq β] [DecidableEq η] in
/-- One turn of the second loop, on a table that it has not met. -/
theorem OffsetsSet.step {c : LayoutConf} {area : η → GlobalGotArea} {walk : π → Walk (PlacedEntry β η)}
    {first : MultiGots π β η} {done : List π} {m : MultiGots π β η × BitVec 32}
    (before : OffsetsSet c area walk first done m.1) (info : LinkInfo) (sym : η → TlsSymbol) {p : π} (new : p ∉ done)
    (room : (first.got p).localGotno.toNat + units (placedGlobals area) (first.got p).gotEntries < 2 ^ 32) :
    OffsetsSet c area walk first (done ++ [p]) (setOffsets c info sym area walk m p).1 := by
  have same := before.others p new
  have keys := visitAll_kept (mipsElfSetGlobalGotOffset c.format info sym area) PlacedEntry.entry
    (set_global_got_offset_kept c.format info sym area) ⟨(first.got p).localGotno, 0⟩
    ((walk p).order (first.got p).gotEntries)
  refine ⟨?_, ?_, ?_, ?_, before.ring, before.master, before.bfd2got⟩
  · intro q member apart
    rcases List.mem_append.mp member with earlier | last
    · have other : q ≠ p := fun equal => new (equal ▸ earlier)
      simp only [setOffsets, Function.update_of_ne other]
      exact before.set q earlier apart
    · rw [List.mem_singleton.mp last] at apart ⊢
      have begins : GlobalAt area (first.got p).localGotno.toNat ((walk p).order (first.got p).gotEntries)
          ⟨(first.got p).localGotno, 0⟩ := by
        refine ⟨rfl, ?_, ?_⟩
        · rw [units_perm _ ((walk p).perm _)]
          exact room
        · exact fun placed member => apart placed ((walk p).mem.mp member)
      have visited := (visitAll_eq (mipsElfSetGlobalGotOffset c.format info sym area) (placedGlobals area)
        (putGlobal c.format area) (GlobalAt area) (fun before => before.step c.format info sym) begins).1
      simp only [setOffsets, Function.update_self, same]
      rw [visited]
  · intro q
    by_cases equal : q = p
    · rw [equal]
      simp only [setOffsets, Function.update_self, same]
    · simp only [setOffsets, Function.update_of_ne equal]
      exact before.entries q
  · intro q
    by_cases equal : q = p
    · rw [equal]
      simp only [setOffsets, Function.update_self, same]
      rw [keys]
      exact map_entry_perm (walk p) _
    · simp only [setOffsets, Function.update_of_ne equal]
      exact before.kept q
  · intro q absent
    rw [List.mem_append, List.mem_singleton, not_or] at absent
    simp only [setOffsets, Function.update_of_ne absent.2]
    exact before.others q absent.1

omit [DecidableEq β] [DecidableEq η] in
theorem set_offsets_run (c : LayoutConf) (info : LinkInfo) (sym : η → TlsSymbol) (area : η → GlobalGotArea)
    (walk : π → Walk (PlacedEntry β η)) (first : MultiGots π β η) (needed : BitVec 32) (tables : List π)
    (nodup : tables.Nodup)
    (room : ∀ p ∈ tables, (first.got p).localGotno.toNat + units (placedGlobals area) (first.got p).gotEntries < 2 ^ 32) :
    OffsetsSet c area walk first tables
      (tables.foldl (setOffsets c info sym area walk) (first, needed)).1 := by
  induction tables using List.reverseRecOn with
  | nil =>
    exact ⟨fun _ member => absurd member List.not_mem_nil, fun _ => rfl, fun _ => List.Perm.refl _, fun _ _ => rfl,
      rfl, rfl, rfl⟩
  | append_singleton done p ih =>
      have split := List.nodup_append.mp nodup
      have new : p ∉ done := fun earlier => split.2.2 p earlier p List.mem_cons_self rfl
      have before := ih split.1 fun q member => room q (List.mem_append_left _ member)
      rw [List.foldl_append, List.foldl_cons, List.foldl_nil]
      exact before.step info sym new (room p (List.mem_append_right _ List.mem_cons_self))

def withGlobals (master : LaidGot β η) (got : π → LaidGot β η) (primary : π) : π → LaidGot β η :=
  Function.update got primary { got primary with globalGotno := master.globalGotno }

def beforeLayout (master : LaidGot β η) (got : π → LaidGot β η) (bfd2got : β → Option π) (hash : HashTls η)
    (primary : π) : MultiGots π β η :=
  ⟨{ master with
      relocOnlyGotno := master.globalGotno - (got primary).globalGotno
      localGotno := -(withGlobals master got primary primary).globalGotno
      tlsGotno := 0 },
    withGlobals master got primary, bfd2got, [], 0, hash⟩

def slotParts (c : LayoutConf) (got : π → LaidGot β η) (p : π) : List (Nat × Nat) :=
  let assigned := (got p).assignedGotno.toNat
  let locals := (got p).localGotno.toNat
  let globals := locals + (got p).globalGotno.toNat
  [(assigned - c.reservedGotno.toNat, assigned), (assigned, locals), (locals, globals),
    (globals, globals + (got p).tlsGotno.toNat)]

structure GotList (area : η → GlobalGotArea) (got : π → LaidGot β η) (bfd2got : β → Option π) (primary : π)
    (others : List π) : Prop where
  nodup : (primary :: others).Nodup
  mapped : ∀ ibfd p, bfd2got ibfd = some p → p ∈ primary :: others
  layable : ∀ p ∈ primary :: others, Layable (got p)
  globals : ∀ p ∈ others, (got p).globalGotno.toNat = units (placedGlobals area) (got p).gotEntries

def totalSlots (c : LayoutConf) (master : LaidGot β η) (got : π → LaidGot β η) (primary : π) (others : List π) : Nat :=
  units (fun p => gotNeed c (withGlobals master got primary p)) (primary :: others)

/-- The entries that have places: the thread-local ones, and in a table that is not the primary one the
global ones. -/
def hasPlace (area : η → GlobalGotArea) (isPrimary : Bool) (placed : PlacedEntry β η) : Bool :=
  placed.entry.tlsType != 0 || (!isPrimary && globalP area placed.entry)

def entrySlots (area : η → GlobalGotArea) (placed : PlacedEntry β η) : Nat :=
  placedSlots placed + placedGlobals area placed

def SlotsApart (f : GotFormat) (area : η → GlobalGotArea) (isPrimary : Bool) (e e' : PlacedEntry β η) : Prop :=
  hasPlace area isPrimary e = true → hasPlace area isPrimary e' = true →
    e.gotidx + f.gotSize.toNat * entrySlots area e ≤ e'.gotidx ∨
      e'.gotidx + f.gotSize.toNat * entrySlots area e' ≤ e.gotidx

instance (f : GotFormat) (area : η → GlobalGotArea) (isPrimary : Bool) (e e' : PlacedEntry β η) :
    Decidable (SlotsApart f area isPrimary e e') :=
  inferInstanceAs (Decidable (_ → _ → _))

/-- The section once the tables are laid out. Its size and the places of the tables are in bytes, and the code computes
them as an `unsigned int`. -/
structure Partitioned (c : LayoutConf) (area : η → GlobalGotArea) (master : LaidGot β η) (got : π → LaidGot β η)
    (bfd2got : β → Option π) (primary : π) (others : List π) (out : LaidOut π β η) : Prop where
  apart : ((primary :: others).flatMap (slotParts c out.gots.got)).Pairwise fun r r' => r.2 ≤ r'.1
  cover : ∀ slot, slot < totalSlots c master got primary others ↔
    ∃ r ∈ (primary :: others).flatMap (slotParts c out.gots.got), r.1 ≤ slot ∧ slot < r.2
  size : totalSlots c master got primary others * c.format.gotSize.toNat < 2 ^ 32 →
    out.size.toNat / c.format.gotSize.toNat = totalSlots c master got primary others
  kept : ∀ p ∈ primary :: others,
    ((out.gots.got p).gotEntries.map PlacedEntry.entry).Perm ((got p).gotEntries.map PlacedEntry.entry)
  tls : ∀ p ∈ primary :: others, p = primary ∨ (got p).TlsApart area →
    ∀ e ∈ (out.gots.got p).gotEntries, e.entry.tlsType ≠ 0 → ∃ slot : Nat, e.gotidx = c.format.gotSize.toNat * slot ∧
      (out.gots.got p).localGotno.toNat + (out.gots.got p).globalGotno.toNat ≤ slot ∧
      slot + placedSlots e ≤ (out.gots.got p).localGotno.toNat + (out.gots.got p).globalGotno.toNat +
        (out.gots.got p).tlsGotno.toNat
  globals : ∀ p ∈ others, (got p).TlsApart area →
    ∀ e ∈ (out.gots.got p).gotEntries, globalP area e.entry = true →
      ∃ slot : Nat, e.gotidx = c.format.gotSize.toNat * slot ∧ (out.gots.got p).localGotno.toNat ≤ slot ∧
        slot < (out.gots.got p).localGotno.toNat + (out.gots.got p).globalGotno.toNat
  entriesApart : ∀ p ∈ primary :: others, p = primary ∨ (got p).TlsApart area →
    (out.gots.got p).gotEntries.Pairwise (SlotsApart c.format area (decide (p = primary)))
  adjust : ∀ ibfd p, bfd2got ibfd = some p →
    c.format.gotSize.toNat * ((out.gots.got p).assignedGotno.toNat - c.reservedGotno.toNat) < 2 ^ 32 →
      (mipsElfAdjustGp c.format (some out.gots) ibfd).toNat =
        c.format.gotSize.toNat * ((out.gots.got p).assignedGotno.toNat - c.reservedGotno.toNat)
  adjustPrimary : ∀ ibfd, bfd2got ibfd = some primary → mipsElfAdjustGp c.format (some out.gots) ibfd = 0

omit [DecidableEq π] [DecidableEq β] in
theorem sort_areas_none (walks : LayoutWalks π β η) (master primary : LaidGot β η) (area : η → GlobalGotArea) (h : η) :
    sortAreas walks master primary area h = .none ↔ area h = .none := by
  have one : ∀ value : GlobalGotArea, value ≠ .none → ∀ (entries : List (PlacedEntry β η)) (area : η → GlobalGotArea),
      entries.foldl (fun area placed => mipsElfSetGlobalGotArea value area placed.entry) area h = .none ↔
        area h = .none := by
    intro value inside entries
    induction entries with
    | nil => exact fun area => Iff.rfl
    | cons placed rest ih =>
        intro area
        rw [List.foldl_cons, ih]
        cases key : placed.entry.key with
        | address address => simp only [mipsElfSetGlobalGotArea, key]
        | symbol abfd symndx addend => simp only [mipsElfSetGlobalGotArea, key]
        | global abfd h' =>
            simp only [mipsElfSetGlobalGotArea, key]
            by_cases outside : area h' = .none
            · simp [outside]
            · by_cases same : h = h'
              · rw [if_pos outside, same, Function.update_self]
                exact ⟨fun none => absurd none inside, fun none => absurd none outside⟩
              · rw [if_pos outside, Function.update_of_ne same]
  rw [sortAreas, one .normal (by decide), one .relocOnly (by decide)]

omit [DecidableEq β] [DecidableEq η] in
theorem put_tls_entry (f : GotFormat) (placed : PlacedEntry β η) (slot : Nat) :
    (putTls f placed slot).entry = placed.entry := by
  rw [putTls]
  split <;> rfl

omit [DecidableEq β] [DecidableEq η] in
theorem put_global_entry (f : GotFormat) (area : η → GlobalGotArea) (placed : PlacedEntry β η) (slot : Nat) :
    (putGlobal f area placed slot).entry = placed.entry := by
  rw [putGlobal]
  split <;> rfl

omit [DecidableEq β] [DecidableEq η] in
theorem map_offsets_entry {need : PlacedEntry β η → Nat} {put : PlacedEntry β η → Nat → PlacedEntry β η}
    (keeps : ∀ placed slot, (put placed slot).entry = placed.entry) (start : Nat) (items : List (PlacedEntry β η)) :
    ((offsets need start items).map fun q => put q.1 q.2).map PlacedEntry.entry = items.map PlacedEntry.entry := by
  calc
    _ = (offsets need start items).map fun q => q.1.entry := by
      rw [List.map_map]
      exact List.map_congr_left fun q _ => keeps q.1 q.2
    _ = ((offsets need start items).map Prod.fst).map PlacedEntry.entry := by
      rw [List.map_map]
      rfl
    _ = items.map PlacedEntry.entry := by rw [offsets_fst]

theorem scaled_le (f : GotFormat) {slot need slot' : Nat} (before : slot + need ≤ slot') :
    (f.gotSize.toNat * slot : Int) + f.gotSize.toNat * need ≤ f.gotSize.toNat * slot' := by
  rw [← Int.mul_add]
  apply Int.mul_le_mul_of_nonneg_left
  · exact_mod_cast before
  · exact Int.natCast_nonneg _

section Table

variable {c : LayoutConf} {walk walk' : Walk (PlacedEntry β η)} {g g' : LaidGot β η} {start : Nat}
variable {area : η → GlobalGotArea}

omit [DecidableEq β] [DecidableEq η] in
theorem LaidAt.kept (laid : LaidAt c walk g g' start) :
    (g'.gotEntries.map PlacedEntry.entry).Perm (g.gotEntries.map PlacedEntry.entry) := by
  rw [laid.entries, map_offsets_entry (put_tls_entry c.format)]
  exact map_entry_perm walk g.gotEntries

omit [DecidableEq β] [DecidableEq η] in
theorem LaidAt.consecutive {π : Type} {got : π → LaidGot β η} {p : π} (laid : LaidAt c walk g (got p) start) :
    Consecutive start (slotParts c got p) (start + gotNeed c g) := by
  have assigned := laid.assigned
  have locals := laid.locals
  rw [slotParts, gotNeed, laid.globals, laid.tls]
  refine ⟨by dsimp only; omega, by dsimp only; omega, rfl, by dsimp only; omega, rfl, by dsimp only; omega, rfl,
    by dsimp only; omega, ?_⟩
  change _ = _
  dsimp only
  omega

theorem LaidAt.tls_slot (laid : LaidAt c walk g g' start) (layable : Layable g) {e : PlacedEntry β η}
    (member : e ∈ g'.gotEntries) (tls : e.entry.tlsType ≠ 0) :
    ∃ slot : Nat, e.gotidx = c.format.gotSize.toNat * slot ∧
      g'.localGotno.toNat + g'.globalGotno.toNat ≤ slot ∧
      slot + placedSlots e ≤ g'.localGotno.toNat + g'.globalGotno.toNat + g'.tlsGotno.toNat := by
  rw [laid.entries] at member
  rcases List.mem_map.mp member with ⟨q, isItem, rfl⟩
  rw [put_tls_entry] at tls
  have within := offsets_within isItem
  rw [units_perm placedSlots (walk.perm g.gotEntries), ← layable.tls] at within
  have slots : placedSlots (putTls c.format q.1 q.2) = placedSlots q.1 := by rw [placedSlots, put_tls_entry, placedSlots]
  rw [laid.locals, laid.globals, laid.tls, slots]
  refine ⟨q.2, ?_, within.1, within.2⟩
  rw [putTls, if_neg tls]

def TlsSlotsApart (f : GotFormat) (e e' : PlacedEntry β η) : Prop :=
  e.entry.tlsType ≠ 0 → e'.entry.tlsType ≠ 0 →
    e.gotidx + f.gotSize.toNat * placedSlots e ≤ e'.gotidx ∨ e'.gotidx + f.gotSize.toNat * placedSlots e' ≤ e.gotidx

omit [DecidableEq β] [DecidableEq η] in
theorem LaidAt.tls_apart (laid : LaidAt c walk g g' start) : g'.gotEntries.Pairwise (TlsSlotsApart c.format) := by
  rw [laid.entries, List.pairwise_map]
  apply (offsets_pairwise _ _ _).imp
  intro q q' before tls tls'
  rw [put_tls_entry] at tls tls'
  left
  have slots : placedSlots (putTls c.format q.1 q.2) = placedSlots q.1 := by rw [placedSlots, put_tls_entry, placedSlots]
  rw [slots, putTls, if_neg tls, putTls, if_neg tls']
  exact scaled_le c.format before

def withOffsets (f : GotFormat) (area : η → GlobalGotArea) (walk : Walk (PlacedEntry β η)) (g : LaidGot β η) :
    LaidGot β η :=
  { g with
    gotEntries := (offsets (placedGlobals area) g.localGotno.toNat (walk.order g.gotEntries)).map fun q =>
      putGlobal f area q.1 q.2 }

omit [DecidableEq β] [DecidableEq η] in
theorem mem_with_offsets {f : GotFormat} {e : PlacedEntry β η}
    (member : e ∈ (withOffsets f area walk g).gotEntries) :
    ∃ q ∈ offsets (placedGlobals area) g.localGotno.toNat (walk.order g.gotEntries),
      q.1 ∈ g.gotEntries ∧ e = putGlobal f area q.1 q.2 := by
  rcases List.mem_map.mp member with ⟨q, isItem, rfl⟩
  exact ⟨q, isItem, walk.mem.mp (mem_of_offsets isItem), rfl⟩

omit [DecidableEq β] [DecidableEq η] in
theorem entry_slots_tls {e : PlacedEntry β η} (tls : e.entry.tlsType ≠ 0) : entrySlots area e = placedSlots e := by
  have other : ¬ globalP area e.entry = true := fun global => tls ((global_p_iff _ _).mp global).1
  rw [entrySlots, placedGlobals, if_neg other, Nat.add_zero]

omit [DecidableEq β] [DecidableEq η] in
theorem entry_slots_global {e : PlacedEntry β η} (global : globalP area e.entry = true) : entrySlots area e = 1 := by
  have none : placedSlots e = 0 := by
    rw [placedSlots, ((global_p_iff _ _).mp global).1]
    decide
  rw [entrySlots, none, placedGlobals, if_pos global]

omit [DecidableEq β] [DecidableEq η] in
theorem tls_apart_primary {f : GotFormat} {e e' : PlacedEntry β η} (apart : TlsSlotsApart f e e') :
    SlotsApart f area true e e' := by
  intro placed placed'
  have tls : e.entry.tlsType ≠ 0 := by simpa [hasPlace] using placed
  have tls' : e'.entry.tlsType ≠ 0 := by simpa [hasPlace] using placed'
  rw [entry_slots_tls tls, entry_slots_tls tls']
  exact apart tls tls'

omit [DecidableEq β] [DecidableEq η] in
theorem put_global_of_tls {f : GotFormat} {placed : PlacedEntry β η} (slot : Nat) (tls : placed.entry.tlsType ≠ 0) :
    putGlobal f area placed slot = placed := by
  have other : ¬ globalP area placed.entry = true := fun global => tls ((global_p_iff _ _).mp global).1
  rw [putGlobal, if_neg other]

omit [DecidableEq β] [DecidableEq η] in
theorem with_offsets_apart (f : GotFormat) (tlsApart : g.gotEntries.Pairwise (TlsSlotsApart f))
    (behind : ∀ e ∈ g.gotEntries, e.entry.tlsType ≠ 0 → ∃ slot : Nat, e.gotidx = f.gotSize.toNat * slot ∧
      g.localGotno.toNat + g.globalGotno.toNat ≤ slot)
    (count : units (placedGlobals area) g.gotEntries = g.globalGotno.toNat) :
    (withOffsets f area walk g).gotEntries.Pairwise (SlotsApart f area false) := by
  rw [withOffsets, List.pairwise_map]
  have ordered := offsets_pairwise (placedGlobals area) g.localGotno.toNat (walk.order g.gotEntries)
  have apart : (offsets (placedGlobals area) g.localGotno.toNat (walk.order g.gotEntries)).Pairwise
      fun q q' => TlsSlotsApart f q.1 q'.1 := by
    have walked : (walk.order g.gotEntries).Pairwise (TlsSlotsApart f) :=
      ((walk.perm g.gotEntries).pairwise_iff fun apart tls tls' => (apart tls' tls).symm).mpr tlsApart
    rw [← offsets_fst (placedGlobals area) g.localGotno.toNat (walk.order g.gotEntries), List.pairwise_map] at walked
    exact walked
  apply (ordered.and apart).imp_of_mem
  intro q q' member member' both placed placed'
  have within := offsets_within member
  have within' := offsets_within member'
  rw [units_perm (placedGlobals area) (walk.perm g.gotEntries), count] at within within'
  have isEntry := walk.mem.mp (mem_of_offsets member)
  have isEntry' := walk.mem.mp (mem_of_offsets member')
  rw [hasPlace, put_global_entry] at placed placed'
  by_cases global : globalP area q.1.entry = true
  · have one : placedGlobals area q.1 = 1 := by rw [placedGlobals, if_pos global]
    have slots : entrySlots area (putGlobal f area q.1 q.2) = 1 :=
      entry_slots_global (by rw [put_global_entry]; exact global)
    rw [one] at within
    rw [slots]
    by_cases global' : globalP area q'.1.entry = true
    · left
      have before := both.1
      rw [one] at before
      rw [putGlobal, if_pos global, putGlobal, if_pos global']
      exact scaled_le f before
    · left
      have tls' : q'.1.entry.tlsType ≠ 0 := by simpa [global'] using placed'
      rcases behind q'.1 isEntry' tls' with ⟨slot, index, low⟩
      rw [putGlobal, if_pos global, put_global_of_tls _ tls', index]
      exact scaled_le f (within.2.trans low)
  · have tls : q.1.entry.tlsType ≠ 0 := by simpa [global] using placed
    have slots : entrySlots area (putGlobal f area q.1 q.2) = placedSlots q.1 := by
      rw [put_global_of_tls _ tls, entry_slots_tls tls]
    rw [slots]
    by_cases global' : globalP area q'.1.entry = true
    · right
      have one : placedGlobals area q'.1 = 1 := by rw [placedGlobals, if_pos global']
      have slots' : entrySlots area (putGlobal f area q'.1 q'.2) = 1 :=
        entry_slots_global (by rw [put_global_entry]; exact global')
      rcases behind q.1 isEntry tls with ⟨slot, index, low⟩
      rw [one] at within'
      rw [slots', put_global_of_tls _ tls, putGlobal, if_pos global', index]
      exact scaled_le f (within'.2.trans low)
    · have tls' : q'.1.entry.tlsType ≠ 0 := by simpa [global'] using placed'
      rw [put_global_of_tls _ tls, put_global_of_tls _ tls', entry_slots_tls tls']
      exact both.2 tls tls'

end Table

end Openisa.Got
