import Openisa.Got.LayoutPartition

/-! The whole section, and the offset of the table of each input. -/

namespace Openisa.Got

open Openisa.Bfd
open Openisa.Library
open Openisa.Library.SlotTable
open Openisa.Library.BumpLayout

variable {π β η : Type} [DecidableEq π] [DecidableEq β] [DecidableEq η]

theorem next_of_middle {p q : π} {front back : List π} (new : p ∉ front) :
    nextOf (front ++ p :: q :: back) p = some q := by
  induction front with
  | nil => rw [List.nil_append, nextOf, if_pos rfl]
  | cons x rest ih =>
      have other : x ≠ p := fun same => new (same ▸ List.mem_cons_self)
      have later := ih fun member => new (List.mem_cons_of_mem _ member)
      cases rest with
      | nil =>
          rw [List.singleton_append, nextOf, if_neg other]
          exact later
      | cons y rest =>
          rw [List.cons_append, List.cons_append, nextOf, if_neg other]
          exact later

theorem next_of_last {p : π} {front : List π} (new : p ∉ front) : nextOf (front ++ [p]) p = none := by
  induction front with
  | nil => rfl
  | cons x rest ih =>
      have other : x ≠ p := fun same => new (same ▸ List.mem_cons_self)
      have later := ih fun member => new (List.mem_cons_of_mem _ member)
      cases rest with
      | nil =>
          rw [List.singleton_append, nextOf, if_neg other]
          exact later
      | cons y rest =>
          rw [List.cons_append, List.cons_append, nextOf, if_neg other]
          exact later

omit [DecidableEq η] [DecidableEq β] in
theorem LaidAt.slot_end {c : LayoutConf} {walk : Walk (PlacedEntry β η)} {g g' : LaidGot β η} {start : Nat}
    (laid : LaidAt c walk g g' start) (room : start + gotNeed c g < 2 ^ 32) :
    g'.slotEnd.toNat = start + gotNeed c g := by
  rw [gotNeed] at room ⊢
  rw [LaidGot.slotEnd, BitVec.toNat_add, BitVec.toNat_add, laid.locals, laid.globals, laid.tls]
  omega

omit [DecidableEq π] [DecidableEq β] [DecidableEq η] in
theorem global_p_congr {area area' : η → GlobalGotArea} (same : ∀ h, area h = .none ↔ area' h = .none) :
    (globalP area : GotEntry β η → Bool) = globalP area' := by
  funext entry
  rw [Bool.eq_iff_iff, global_p_iff, global_p_iff]
  simp only [ne_eq, same]

theorem with_globals_layable (master : LaidGot β η) (got : π → LaidGot β η) (primary : π) {p : π}
    (layable : Layable (got p)) : Layable (withGlobals master got primary p) := by
  by_cases own : p = primary
  · rw [withGlobals, own, Function.update_self]
    rw [own] at layable
    exact ⟨layable.distinct, layable.types, layable.ldmUnset, layable.tls⟩
  · rw [withGlobals, Function.update_of_ne own]
    exact layable

omit [DecidableEq β] [DecidableEq η] in
theorem with_globals_entries (master : LaidGot β η) (got : π → LaidGot β η) (primary p : π) :
    (withGlobals master got primary p).gotEntries = (got p).gotEntries := by
  by_cases own : p = primary
  · rw [withGlobals, own, Function.update_self]
  · rw [withGlobals, Function.update_of_ne own]

omit [DecidableEq β] [DecidableEq η] in
theorem units_global_perm {area area' : η → GlobalGotArea} (same : ∀ h, area h = .none ↔ area' h = .none)
    {first second : List (PlacedEntry β η)}
    (perm : (first.map PlacedEntry.entry).Perm (second.map PlacedEntry.entry)) :
    units (placedGlobals area) first = units (placedGlobals area') second := by
  have through : ∀ (area : η → GlobalGotArea) (placed : List (PlacedEntry β η)),
      units (placedGlobals area) placed =
        ((placed.map PlacedEntry.entry).map fun entry => if globalP area entry then 1 else 0).sum := by
    intro area placed
    rw [units, List.map_map]
    rfl
  rw [through, through, global_p_congr same]
  exact (perm.map _).sum_eq

section Whole

variable (c : LayoutConf) (info : LinkInfo) (sym : η → TlsSymbol) (walks : LayoutWalks π β η)
variable (master : LaidGot β η) (got : π → LaidGot β η) (bfd2got : β → Option π) (area : η → GlobalGotArea)
variable (hash : HashTls η) (primary : π) (others : List π)

def afterFirst : MultiGots π β η :=
  (primary :: others).foldl (layOutGot c walks.tls) (beforeLayout master got bfd2got hash primary)

def afterSecond : MultiGots π β η × BitVec 32 :=
  (afterFirst c walks master got bfd2got hash primary others).ring.dropLast.foldl
    (setOffsets c info sym (sortAreas walks master (got primary) area) walks.offsets)
    (afterFirst c walks master got bfd2got hash primary others, 0)

omit [DecidableEq β] in
theorem lay_out_gots_eq :
    layOutGots c info sym walks master got bfd2got area hash primary others =
      ⟨(afterSecond c info sym walks master got bfd2got area hash primary others).1,
        sortAreas walks master (got primary) area,
        gotSectionSize c.format (afterFirst c walks master got bfd2got hash primary others),
        (afterSecond c info sym walks master got bfd2got area hash primary others).2⟩ := rfl

end Whole

structure BothLoops (c : LayoutConf) (area : η → GlobalGotArea) (walks : LayoutWalks π β η) (master : LaidGot β η)
    (got : π → LaidGot β η) (bfd2got : β → Option π) (primary : π) (others : List π) (first second : MultiGots π β η) :
    Prop where
  laid : ∀ q ∈ offsets (fun p => gotNeed c (withGlobals master got primary p)) 0 (primary :: others),
    LaidAt c (walks.tls q.1) (withGlobals master got primary q.1) (first.got q.1) q.2
  ring : first.ring = (primary :: others).reverse
  secondRing : second.ring = (primary :: others).reverse
  primaryKept : second.got primary = first.got primary
  set : ∀ p ∈ others, (first.got p).TlsApart area →
    second.got p = withOffsets c.format area (walks.offsets p) (first.got p)
  entries : ∀ p, second.got p = { first.got p with gotEntries := (second.got p).gotEntries }
  entriesKept : ∀ p, ((second.got p).gotEntries.map PlacedEntry.entry).Perm
    ((first.got p).gotEntries.map PlacedEntry.entry)
  globals : ∀ p ∈ others, units (placedGlobals area) (first.got p).gotEntries =
    (withGlobals master got primary p).globalGotno.toNat
  bfd2gotKept : second.bfd2got = bfd2got
  masterEnd : second.master.slotEnd = 0

variable {c : LayoutConf} {info : LinkInfo} {sym : η → TlsSymbol} {walks : LayoutWalks π β η}
variable {master : LaidGot β η} {got : π → LaidGot β η} {bfd2got : β → Option π} {area : η → GlobalGotArea}
variable {hash : HashTls η} {primary : π} {others : List π} {area' : η → GlobalGotArea}

theorem both_loops (list : GotList area got bfd2got primary others)
    (room : totalSlots c master got primary others < 2 ^ 32) :
    BothLoops c (sortAreas walks master (got primary) area) walks master got bfd2got primary others
      (afterFirst c walks master got bfd2got hash primary others)
      (afterSecond c info sym walks master got bfd2got area hash primary others).1 := by
  have run := lay_out_gots_run c walks.tls (beforeLayout master got bfd2got hash primary) rfl rfl
    (primary :: others) list.nodup (fun p member => with_globals_layable master got primary (list.layable p member)) room
  change LaidOutTo _ _ _ _ (afterFirst c walks master got bfd2got hash primary others) at run
  have new := (List.nodup_cons.mp list.nodup).1
  have ring : (afterFirst c walks master got bfd2got hash primary others).ring.dropLast = others.reverse := by
    rw [run.ring, List.reverse_cons, List.dropLast_concat]
  have areas := sort_areas_none walks master (got primary) area
  have inList : ∀ {p}, p ∈ others → p ∈ primary :: others := fun member => List.mem_cons_of_mem _ member
  have ownGlobals : ∀ p ∈ others, withGlobals master got primary p = got p := by
    intro p member
    have other : p ≠ primary := fun same => new (same ▸ member)
    rw [withGlobals, Function.update_of_ne other]
  have laidAt : ∀ p ∈ others, ∃ start,
      LaidAt c (walks.tls p) (withGlobals master got primary p)
        ((afterFirst c walks master got bfd2got hash primary others).got p) start ∧
      start + gotNeed c (withGlobals master got primary p) ≤ totalSlots c master got primary others := by
    intro p member
    rcases exists_offset (fun p => gotNeed c (withGlobals master got primary p)) 0 (inList member) with ⟨start, isOffset⟩
    have within := offsets_within isOffset
    rw [Nat.zero_add] at within
    exact ⟨start, run.laid _ isOffset, within.2⟩
  have globals : ∀ p ∈ others, units (placedGlobals (sortAreas walks master (got primary) area))
      ((afterFirst c walks master got bfd2got hash primary others).got p).gotEntries =
        (withGlobals master got primary p).globalGotno.toNat := by
    intro p member
    rcases laidAt p member with ⟨start, laid, _⟩
    have perm := laid.kept
    rw [with_globals_entries] at perm
    rw [units_global_perm areas perm, ownGlobals p member]
    exact (list.globals p member).symm
  have second := set_offsets_run c info sym (sortAreas walks master (got primary) area) walks.offsets
    (afterFirst c walks master got bfd2got hash primary others) 0 others.reverse
    (List.nodup_reverse.mpr (List.nodup_cons.mp list.nodup).2)
    (by
      intro p member
      have isOther := List.mem_reverse.mp member
      rcases laidAt p isOther with ⟨start, laid, within⟩
      rw [gotNeed] at within
      rw [globals p isOther, laid.locals]
      omega)
  rw [← ring] at second
  change OffsetsSet _ _ _ _ _ (afterSecond c info sym walks master got bfd2got area hash primary others).1 at second
  rw [ring] at second
  refine ⟨run.laid, run.ring, second.ring.trans run.ring, ?_, ?_, second.entries, second.kept, globals,
    second.bfd2got.trans run.bfd2got, ?_⟩
  · exact second.others primary fun member => new (List.mem_reverse.mp member)
  · exact fun p member => second.set p (List.mem_reverse.mpr member)
  · rw [second.master, run.master, beforeLayout, LaidGot.slotEnd, withGlobals, Function.update_self]
    simp

variable {first second : MultiGots π β η}

omit [DecidableEq β] [DecidableEq η] in
theorem BothLoops.counters (loops : BothLoops c area walks master got bfd2got primary others first second) (p : π) :
    (second.got p).assignedGotno = (first.got p).assignedGotno ∧
      (second.got p).localGotno = (first.got p).localGotno ∧
      (second.got p).globalGotno = (first.got p).globalGotno ∧
      (second.got p).tlsGotno = (first.got p).tlsGotno := by
  rw [loops.entries p]
  exact ⟨rfl, rfl, rfl, rfl⟩

omit [DecidableEq β] [DecidableEq η] in
theorem BothLoops.parts (loops : BothLoops c area walks master got bfd2got primary others first second) (p : π) :
    slotParts c second.got p = slotParts c first.got p := by
  rcases loops.counters p with ⟨assigned, locals, globals, tls⟩
  rw [slotParts, slotParts, assigned, locals, globals, tls]

omit [DecidableEq β] [DecidableEq η] in
theorem BothLoops.consecutive (loops : BothLoops c area walks master got bfd2got primary others first second) :
    Consecutive 0 ((primary :: others).flatMap (slotParts c second.got))
      (totalSlots c master got primary others) := by
  rw [← Nat.zero_add (totalSlots c master got primary others)]
  apply Consecutive.of_offsets
  intro q isOffset
  rw [loops.parts q.1]
  exact (loops.laid q isOffset).consecutive

omit [DecidableEq β] [DecidableEq η] in
theorem BothLoops.slot_end (loops : BothLoops c area walks master got bfd2got primary others first second)
    (room : totalSlots c master got primary others < 2 ^ 32) {q : π × Nat}
    (isOffset : q ∈ offsets (fun p => gotNeed c (withGlobals master got primary p)) 0 (primary :: others))
    (fits : (q.2 + gotNeed c (withGlobals master got primary q.1)) * c.format.gotSize.toNat < 2 ^ 32) :
    ((first.got q.1).slotEnd * c.format.gotSize).toNat =
      (q.2 + gotNeed c (withGlobals master got primary q.1)) * c.format.gotSize.toNat := by
  have within := (offsets_within isOffset).2
  rw [Nat.zero_add] at within
  change _ ≤ totalSlots c master got primary others at within
  rw [BitVec.toNat_mul, (loops.laid q isOffset).slot_end (by omega)]
  exact Nat.mod_eq_of_lt fits

omit [DecidableEq β] [DecidableEq η] in
theorem BothLoops.section_size (loops : BothLoops c area walks master got bfd2got primary others first second)
    (fits : totalSlots c master got primary others * c.format.gotSize.toNat < 2 ^ 32) :
    (gotSectionSize c.format first).toNat = totalSlots c master got primary others * c.format.gotSize.toNat := by
  rcases List.eq_nil_or_concat' (primary :: others) with none | ⟨front, last, split⟩
  · cases none
  · have ring := loops.ring
    rw [split, List.reverse_append, List.reverse_singleton, List.singleton_append] at ring
    have isOffset : (last, units (fun p => gotNeed c (withGlobals master got primary p)) front) ∈
        offsets (fun p => gotNeed c (withGlobals master got primary p)) 0 (primary :: others) := by
      rw [split, offsets_append, Nat.zero_add]
      exact List.mem_append_right _ List.mem_cons_self
    have size : gotSectionSize c.format first = (first.got last).slotEnd * c.format.gotSize := by
      rw [gotSectionSize, ring]
    have whole : totalSlots c master got primary others =
        units (fun p => gotNeed c (withGlobals master got primary p)) front +
          gotNeed c (withGlobals master got primary last) := by
      rw [totalSlots, split, units_append, units_cons, units_nil, Nat.add_zero]
    have room : totalSlots c master got primary others < 2 ^ 32 :=
      lt_of_le_of_lt (Nat.le_mul_of_pos_right _ (got_size_pos c.format)) fits
    rw [size, loops.slot_end room isOffset (whole ▸ fits), whole]

omit [DecidableEq β] [DecidableEq η] in
theorem BothLoops.adjust (loops : BothLoops c area walks master got bfd2got primary others first second)
    (room : totalSlots c master got primary others < 2 ^ 32)
    (nodup : (primary :: others).Nodup) {ibfd : β} {p : π} (mapped : bfd2got ibfd = some p)
    (member : p ∈ primary :: others) :
    ∃ start, (p, start) ∈ offsets (fun p => gotNeed c (withGlobals master got primary p)) 0 (primary :: others) ∧
      (start * c.format.gotSize.toNat < 2 ^ 32 →
        (mipsElfAdjustGp c.format (some second) ibfd).toNat = start * c.format.gotSize.toNat) := by
  rcases List.mem_iff_append.mp member with ⟨front, back, split⟩
  have apart := nodup
  rw [split] at apart
  have newBack : p ∉ back := (List.nodup_cons.mp (List.nodup_append.mp apart).2.1).1
  refine ⟨units (fun p => gotNeed c (withGlobals master got primary p)) front, ?_, fun fits => ?_⟩
  · rw [split, offsets_append, Nat.zero_add]
    exact List.mem_append_right _ List.mem_cons_self
  · have found : mipsElfGotForIbfd second ibfd = some p := by
      rw [mipsElfGotForIbfd, loops.bfd2gotKept]
      exact mapped
    rcases List.eq_nil_or_concat' front with rfl | ⟨earlier, q, rfl⟩
    · have next : nextOf second.ring p = none := by
        rw [loops.secondRing, split, List.nil_append, List.reverse_cons]
        exact next_of_last (fun isBack => newBack (List.mem_reverse.mp isBack))
      simp only [mipsElfAdjustGp, found, next, loops.masterEnd]
      simp
    · have next : nextOf second.ring p = some q := by
        rw [loops.secondRing, split, List.reverse_append, List.reverse_cons, List.reverse_append,
          List.reverse_singleton, List.append_assoc]
        exact next_of_middle fun isBack => newBack (List.mem_reverse.mp isBack)
      rcases loops.counters q with ⟨_, locals, globals, tls⟩
      have same : (second.got q).slotEnd = (first.got q).slotEnd := by
        rw [LaidGot.slotEnd, LaidGot.slotEnd, locals, globals, tls]
      have isOffset : (q, units (fun p => gotNeed c (withGlobals master got primary p)) earlier) ∈
          offsets (fun p => gotNeed c (withGlobals master got primary p)) 0 (primary :: others) := by
        rw [split, List.append_assoc, offsets_append, Nat.zero_add]
        exact List.mem_append_right _ List.mem_cons_self
      rw [units_append, units_cons, units_nil, Nat.add_zero] at fits ⊢
      have bytes := loops.slot_end room isOffset fits
      simp only [mipsElfAdjustGp, found, next, same]
      rw [BitVec.toNat_setWidth, bytes]
      exact Nat.mod_eq_of_lt (lt_trans fits (by decide))

omit [DecidableEq β] [DecidableEq η] in
theorem BothLoops.kept (loops : BothLoops c area walks master got bfd2got primary others first second) {p : π}
    (member : p ∈ primary :: others) :
    ((first.got p).gotEntries.map PlacedEntry.entry).Perm ((got p).gotEntries.map PlacedEntry.entry) ∧
      ((second.got p).gotEntries.map PlacedEntry.entry).Perm ((got p).gotEntries.map PlacedEntry.entry) := by
  rcases exists_offset (fun p => gotNeed c (withGlobals master got primary p)) 0 member with ⟨start, isOffset⟩
  have laid := (loops.laid _ isOffset).kept
  rw [with_globals_entries] at laid
  exact ⟨laid, (loops.entriesKept p).trans laid⟩

omit [DecidableEq β] [DecidableEq η] in
/-- A table whose thread-local entries are for no symbol of the global part, once all symbols are sorted. -/
theorem BothLoops.tls_apart (loops : BothLoops c area walks master got bfd2got primary others first second)
    (areas : ∀ h, area h = .none ↔ area' h = .none) {p : π} (member : p ∈ primary :: others)
    (apart : (got p).TlsApart area') : (first.got p).TlsApart area := by
  intro placed isEntry tls abfd h key
  rcases List.mem_map.mp ((loops.kept member).1.subset (List.mem_map_of_mem isEntry)) with ⟨old, isOld, same⟩
  rw [areas]
  rw [← same] at tls key
  exact apart old isOld tls abfd h key

theorem BothLoops.tls (loops : BothLoops c area walks master got bfd2got primary others first second)
    (list : GotList area' got bfd2got primary others) {p : π} (member : p ∈ primary :: others)
    (apart : p = primary ∨ (first.got p).TlsApart area) {e : PlacedEntry β η}
    (isEntry : e ∈ (second.got p).gotEntries) (tls : e.entry.tlsType ≠ 0) :
    ∃ slot : Nat, e.gotidx = c.format.gotSize.toNat * slot ∧
      (second.got p).localGotno.toNat + (second.got p).globalGotno.toNat ≤ slot ∧
      slot + placedSlots e ≤ (second.got p).localGotno.toNat + (second.got p).globalGotno.toNat +
        (second.got p).tlsGotno.toNat := by
  rcases exists_offset (fun p => gotNeed c (withGlobals master got primary p)) 0 member with ⟨start, isOffset⟩
  have laid := loops.laid _ isOffset
  have layable := with_globals_layable master got primary (list.layable p member)
  have early : e ∈ (first.got p).gotEntries := by
    have other : p = primary ∨ p ∈ others ∧ (first.got p).TlsApart area := by
      rcases List.mem_cons.mp member with isPrimary | isOther
      · exact .inl isPrimary
      · exact apart.imp_right fun settled => ⟨isOther, settled⟩
    rcases other with rfl | ⟨isOther, settled⟩
    · rw [loops.primaryKept] at isEntry
      exact isEntry
    · rw [loops.set p isOther settled] at isEntry
      rcases mem_with_offsets isEntry with ⟨q, _, isOld, rfl⟩
      rw [put_global_entry] at tls
      rw [put_global_of_tls _ tls]
      exact isOld
  rcases loops.counters p with ⟨_, locals, globals, counts⟩
  rw [locals, globals, counts]
  exact laid.tls_slot layable early tls

omit [DecidableEq β] [DecidableEq η] in
theorem slots_apart_congr (f : GotFormat) {area area' : η → GlobalGotArea}
    (same : ∀ h, area h = .none ↔ area' h = .none) (isPrimary : Bool) :
    (SlotsApart f area isPrimary : PlacedEntry β η → PlacedEntry β η → Prop) = SlotsApart f area' isPrimary := by
  funext e e'
  rw [SlotsApart, SlotsApart, hasPlace, hasPlace, hasPlace, hasPlace, entrySlots, entrySlots, entrySlots,
    entrySlots, placedGlobals, placedGlobals, placedGlobals, placedGlobals, global_p_congr same]

omit [DecidableEq β] [DecidableEq η] in
theorem BothLoops.start (loops : BothLoops c area walks master got bfd2got primary others first second) {p : π}
    {start : Nat}
    (isOffset : (p, start) ∈ offsets (fun p => gotNeed c (withGlobals master got primary p)) 0 (primary :: others)) :
    (second.got p).assignedGotno.toNat - c.reservedGotno.toNat = start := by
  rw [(loops.counters p).1, (loops.laid _ isOffset).assigned]
  exact Nat.add_sub_cancel _ _

omit [DecidableEq β] [DecidableEq η] in
theorem BothLoops.global (loops : BothLoops c area walks master got bfd2got primary others first second) {p : π}
    (isOther : p ∈ others) (apart : (first.got p).TlsApart area) {e : PlacedEntry β η}
    (isEntry : e ∈ (second.got p).gotEntries) (global : globalP area e.entry = true) :
    ∃ slot : Nat, e.gotidx = c.format.gotSize.toNat * slot ∧ (second.got p).localGotno.toNat ≤ slot ∧
      slot < (second.got p).localGotno.toNat + (second.got p).globalGotno.toNat := by
  have member : p ∈ primary :: others := List.mem_cons_of_mem _ isOther
  rcases loops.counters p with ⟨_, locals, globals, _⟩
  rw [loops.set p isOther apart] at isEntry
  rcases mem_with_offsets isEntry with ⟨q, isItem, _, rfl⟩
  have within := offsets_within isItem
  rw [put_global_entry] at global
  have one : placedGlobals area q.1 = 1 := by rw [placedGlobals, if_pos global]
  rcases exists_offset (fun p => gotNeed c (withGlobals master got primary p)) 0 member with ⟨start, isOffset⟩
  have count : (first.got p).globalGotno = (withGlobals master got primary p).globalGotno :=
    (loops.laid _ isOffset).globals
  rw [one, units_perm _ ((walks.offsets p).perm _), loops.globals p isOther, ← count] at within
  rw [locals, globals]
  refine ⟨q.2, ?_, within.1, by omega⟩
  rw [putGlobal, if_pos global]

theorem BothLoops.apart (loops : BothLoops c area walks master got bfd2got primary others first second)
    (list : GotList area' got bfd2got primary others) {p : π} (member : p ∈ primary :: others)
    (settled : p = primary ∨ (first.got p).TlsApart area) :
    (second.got p).gotEntries.Pairwise (SlotsApart c.format area (decide (p = primary))) := by
  rcases exists_offset (fun p => gotNeed c (withGlobals master got primary p)) 0 member with ⟨start, isOffset⟩
  have tlsApart := (loops.laid _ isOffset).tls_apart
  rcases List.mem_cons.mp member with rfl | isOther
  · rw [loops.primaryKept, decide_eq_true rfl]
    exact tlsApart.imp tls_apart_primary
  · have other : p ≠ primary := fun same => (List.nodup_cons.mp list.nodup).1 (same ▸ isOther)
    rw [loops.set p isOther (settled.resolve_left other), decide_eq_false other]
    apply with_offsets_apart c.format tlsApart
    · intro e isEntry tls
      have layable := with_globals_layable master got primary (list.layable p member)
      rcases (loops.laid _ isOffset).tls_slot layable isEntry tls with ⟨slot, index, low, _⟩
      exact ⟨slot, index, low⟩
    · rw [loops.globals p isOther, (loops.laid _ isOffset).globals]

/-- The tables partition the section, and every entry has its place in the part that is meant for it. -/
theorem multi_got_partitions (c : LayoutConf) (info : LinkInfo) (sym : η → TlsSymbol) (walks : LayoutWalks π β η)
    (master : LaidGot β η) (got : π → LaidGot β η) (bfd2got : β → Option π) (area : η → GlobalGotArea)
    (hash : HashTls η) (primary : π) (others : List π) (list : GotList area got bfd2got primary others)
    (room : totalSlots c master got primary others < 2 ^ 32) :
    Partitioned c area master got bfd2got primary others
      (layOutGots c info sym walks master got bfd2got area hash primary others) := by
  have loops : BothLoops c (sortAreas walks master (got primary) area) walks master got bfd2got primary others
      (afterFirst c walks master got bfd2got hash primary others)
      (afterSecond c info sym walks master got bfd2got area hash primary others).1 :=
    both_loops list room
  rw [lay_out_gots_eq]
  generalize afterFirst c walks master got bfd2got hash primary others = first at loops ⊢
  generalize afterSecond c info sym walks master got bfd2got area hash primary others = second at loops ⊢
  have areas := sort_areas_none walks master (got primary) area
  have chain := loops.consecutive
  have new := (List.nodup_cons.mp list.nodup).1
  have settled : ∀ p ∈ primary :: others, p = primary ∨ (got p).TlsApart area →
      p = primary ∨ (first.got p).TlsApart (sortAreas walks master (got primary) area) :=
    fun p member apart => apart.imp_right (loops.tls_apart areas member)
  refine ⟨chain.pairwise, ?_, ?_, ?_, ?_, ?_, ?_, ?_, ?_⟩
  · intro slot
    rw [← chain.cover slot]
    exact ⟨fun below => ⟨Nat.zero_le _, below⟩, fun inside => inside.2⟩
  · intro fits
    change (gotSectionSize c.format first).toNat / _ = _
    rw [loops.section_size fits]
    exact Nat.mul_div_cancel _ (got_size_pos c.format)
  · exact fun p member => (loops.kept member).2
  · exact fun p member apart e isEntry tls => loops.tls list member (settled p member apart) isEntry tls
  · intro p isOther apart e isEntry global
    rw [← global_p_congr areas] at global
    exact loops.global isOther (loops.tls_apart areas (List.mem_cons_of_mem _ isOther) apart) isEntry global
  · intro p member apart
    rw [slots_apart_congr c.format (fun h => (areas h).symm)]
    exact loops.apart list member (settled p member apart)
  · intro ibfd p mapped fits
    rcases loops.adjust room list.nodup mapped (list.mapped ibfd p mapped) with ⟨start, isOffset, bytes⟩
    change _ * ((second.1.got p).assignedGotno.toNat - c.reservedGotno.toNat) < _ at fits
    change _ = _ * ((second.1.got p).assignedGotno.toNat - c.reservedGotno.toNat)
    rw [loops.start isOffset] at fits ⊢
    rw [Nat.mul_comm] at fits
    exact (bytes fits).trans (Nat.mul_comm _ _)
  · intro ibfd mapped
    rcases loops.adjust room list.nodup mapped (list.mapped ibfd primary mapped) with
      ⟨start, isOffset, bytes⟩
    have zero : start = 0 := by
      rcases List.mem_cons.mp isOffset with first | later
      · exact congrArg Prod.snd first
      · exact absurd (mem_of_offsets later) new
    rw [zero, Nat.zero_mul] at bytes
    exact BitVec.eq_of_toNat_eq (bytes (by decide))

section Samples

def sampleConf : LayoutConf := ⟨⟨.little, false, true, false, 0x10000⟩, 2, 0⟩

def sampleSymbol : TlsSymbol := ⟨true, false, 5, true, false, false, true⟩

def sampleWalks : LayoutWalks Nat Nat Nat := ⟨.forward, .forward, fun _ => .forward, fun _ => .forward⟩

def sampleHash : HashTls Nat := ⟨fun _ => 0, fun _ => minusOne⟩

def sampleMaster : LaidGot Nat Nat := ⟨3, 0, 0, 0, 0, 0, 0, minusOne, []⟩

def localTable (locals : BitVec 32) : LaidGot Nat Nat := ⟨0, 0, 0, locals, 0, 0, 0, minusOne, []⟩

def tlsTable : LaidGot Nat Nat :=
  ⟨0, 0, 4, 0, 0, 0, 0, minusOne, [⟨⟨.symbol 1 3 0, gotTlsGd⟩, -1⟩, ⟨⟨.global 1 0, gotTlsGd⟩, -1⟩]⟩

def sampleInputs (ibfd : Nat) : Option Nat := if ibfd < 2 then some ibfd else none

def normalArea (h : Nat) : GlobalGotArea := if h = 0 then .normal else .none

def sampleLayout (got : Nat → LaidGot Nat Nat) (area : Nat → GlobalGotArea) : LaidOut Nat Nat Nat :=
  layOutGots sampleConf ⟨true, true⟩ (fun _ => sampleSymbol) sampleWalks sampleMaster got sampleInputs area
    sampleHash 0 [1]

def bigTables (locals : BitVec 32) (_ : Nat) : LaidGot Nat Nat := localTable locals

def mixedTables (p : Nat) : LaidGot Nat Nat := if p = 0 then localTable 4 else tlsTable

theorem sample_inputs_mapped (ibfd p : Nat) (mapped : sampleInputs ibfd = some p) : p ∈ [0, 1] := by
  rw [sampleInputs] at mapped
  split at mapped
  · rename_i small
    injection mapped with same
    rw [← same]
    simp only [List.mem_cons, List.not_mem_nil, or_false]
    omega
  · cases mapped

theorem local_table_layable (locals : BitVec 32) : Layable (localTable locals) where
  distinct := List.Pairwise.nil
  types _ member := absurd member List.not_mem_nil
  ldmUnset := rfl
  tls := rfl

theorem tls_table_layable : Layable tlsTable where
  distinct := by decide
  types := by decide
  ldmUnset := rfl
  tls := by decide

theorem big_tables_list (locals : BitVec 32) (area : Nat → GlobalGotArea) :
    GotList area (bigTables locals) sampleInputs 0 [1] where
  nodup := by decide
  mapped := sample_inputs_mapped
  layable _ _ := local_table_layable _
  globals _ _ := rfl

theorem mixed_tables_list (area : Nat → GlobalGotArea) : GotList area mixedTables sampleInputs 0 [1] where
  nodup := by decide
  mapped := sample_inputs_mapped
  layable p member := by
    simp only [List.mem_cons, List.not_mem_nil, or_false] at member
    rcases member with rfl | rfl
    · exact local_table_layable _
    · exact tls_table_layable
  globals p member := by
    rw [List.mem_singleton.mp member]
    rfl

theorem multi_got_partitions_two :
    Partitioned sampleConf (fun _ => .none) sampleMaster mixedTables sampleInputs 0 [1]
      (sampleLayout mixedTables fun _ => .none) :=
  multi_got_partitions sampleConf ⟨true, true⟩ (fun _ => sampleSymbol) sampleWalks sampleMaster mixedTables
    sampleInputs (fun _ => .none) sampleHash 0 [1] (mixed_tables_list _)
    (by decide)

/-- Slots that add up to more than an `unsigned int`, bytes that do, and a thread-local entry for a symbol that has an
ordinary entry too. -/
theorem tables_overlap :
    (GotList (fun _ => .none) (bigTables (2 ^ 31)) sampleInputs 0 [1] ∧
      ¬([0, 1].flatMap (slotParts sampleConf (sampleLayout (bigTables (2 ^ 31)) fun _ => .none).gots.got)).Pairwise
        fun r r' => r.2 ≤ r'.1) ∧
    (GotList (fun _ => .none) (bigTables (2 ^ 29)) sampleInputs 0 [1] ∧
      totalSlots sampleConf sampleMaster (bigTables (2 ^ 29)) 0 [1] < 2 ^ 32 ∧
      (sampleLayout (bigTables (2 ^ 29)) fun _ => .none).size.toNat / 4 ≠
        totalSlots sampleConf sampleMaster (bigTables (2 ^ 29)) 0 [1]) ∧
    (GotList normalArea mixedTables sampleInputs 0 [1] ∧
      ¬((sampleLayout mixedTables normalArea).gots.got 1).gotEntries.Pairwise
        (SlotsApart sampleConf.format normalArea false)) :=
  ⟨⟨big_tables_list _ _, by decide⟩, ⟨big_tables_list _ _, by decide, by decide⟩, mixed_tables_list _, by decide⟩

end Samples

end Openisa.Got
