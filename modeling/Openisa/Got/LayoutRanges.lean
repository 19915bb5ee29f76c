import Openisa.Got.Layout

/-! What the first loop makes of each table. -/

namespace Openisa.Got

open Openisa.Bfd
open Openisa.Library
open Openisa.Library.SlotTable
open Openisa.Library.BumpLayout

variable {π β η : Type} [DecidableEq π] [DecidableEq β] [DecidableEq η]

def localNeed (c : LayoutConf) (g : LaidGot β η) : Nat :=
  g.localGotno.toNat + min c.pages.toNat g.pageGotno.toNat

def gotNeed (c : LayoutConf) (g : LaidGot β η) : Nat :=
  c.reservedGotno.toNat + localNeed c g + g.globalGotno.toNat + g.tlsGotno.toNat

def placedSlots (placed : PlacedEntry β η) : Nat := accessSlots placed.entry.tlsType

structure Layable (g : LaidGot β η) : Prop where
  distinct : Distinct mipsElfMultiGotEntryEq (g.gotEntries.map PlacedEntry.entry)
  types : ∀ placed ∈ g.gotEntries, placed.entry.tlsType = 0 ∨ 0 < placedSlots placed
  ldmUnset : g.tlsLdmOffset = minusOne
  tls : g.tlsGotno.toNat = units placedSlots g.gotEntries

def putTls (f : GotFormat) (placed : PlacedEntry β η) (slot : Nat) : PlacedEntry β η :=
  if placed.entry.tlsType = 0 then placed else { placed with gotidx := f.gotSize.toNat * slot }

structure LaidAt (c : LayoutConf) (walk : Walk (PlacedEntry β η)) (g g' : LaidGot β η) (start : Nat) : Prop where
  assigned : g'.assignedGotno.toNat = start + c.reservedGotno.toNat
  locals : g'.localGotno.toNat = start + c.reservedGotno.toNat + localNeed c g
  globals : g'.globalGotno = g.globalGotno
  tls : g'.tlsGotno = g.tlsGotno
  entries : g'.gotEntries =
    (offsets placedSlots (start + c.reservedGotno.toNat + localNeed c g + g.globalGotno.toNat)
      (walk.order g.gotEntries)).map fun p => putTls c.format p.1 p.2

omit [DecidableEq β] [DecidableEq η] in
theorem page_min (c : LayoutConf) (g : LaidGot β η) :
    ((if c.pages < g.pageGotno.setWidth 64 then c.pages else g.pageGotno.setWidth 64).setWidth 32).toNat =
      min c.pages.toNat g.pageGotno.toNat := by
  have small := g.pageGotno.isLt
  have wide : (g.pageGotno.setWidth 64).toNat = g.pageGotno.toNat := by
    rw [BitVec.toNat_setWidth]
    omega
  by_cases less : c.pages < g.pageGotno.setWidth 64
  · have below : c.pages.toNat < g.pageGotno.toNat := wide ▸ BitVec.lt_def.mp less
    rw [if_pos less, BitVec.toNat_setWidth]
    omega
  · have above : g.pageGotno.toNat ≤ c.pages.toNat := by
      rw [BitVec.lt_def, wide] at less
      omega
    rw [if_neg less, BitVec.toNat_setWidth, wide]
    omega

theorem next_index_toInt (f : GotFormat) (slot : BitVec 32) :
    (f.gotSize.setWidth 64 * slot.setWidth 64 : BfdVma).toInt = f.gotSize.toNat * slot.toNat := by
  have small := slot.isLt
  have size : f.gotSize.toNat ≤ 8 := by
    rw [got_size_toNat]
    split <;> decide
  have product : f.gotSize.toNat * slot.toNat ≤ 8 * slot.toNat := Nat.mul_le_mul_right _ size
  have number : (f.gotSize.setWidth 64 * slot.setWidth 64 : BfdVma).toNat = f.gotSize.toNat * slot.toNat := by
    rw [BitVec.toNat_mul, BitVec.toNat_setWidth, BitVec.toNat_setWidth, Nat.mod_eq_of_lt (a := f.gotSize.toNat)
      (by omega), Nat.mod_eq_of_lt (a := slot.toNat) (by omega), Nat.mod_eq_of_lt (by omega)]
  rw [BitVec.toInt_eq_toNat_of_lt (by omega), number]
  push_cast
  rfl

omit [DecidableEq η] in
theorem account_toNat (s : TlsIndexState η) (tlsType : TlsType)
    (room : s.tlsAssignedGotno.toNat + accessSlots tlsType < 2 ^ 32) :
    (s.account tlsType).tlsAssignedGotno.toNat = s.tlsAssignedGotno.toNat + accessSlots tlsType ∧
      (s.account tlsType).tlsLdmOffset = s.tlsLdmOffset := by
  have two : (2 : BitVec 32).toNat = 2 := rfl
  have one : (1 : BitVec 32).toNat = 1 := rfl
  rw [accessSlots] at room ⊢
  by_cases pair : tlsType &&& (gotTlsGd ||| gotTlsLdm) ≠ 0
  · by_cases single : tlsType &&& gotTlsIe ≠ 0
    · simp only [TlsIndexState.account, if_pos pair, if_pos single, BitVec.toNat_add, two, one] at room ⊢
      exact ⟨by omega, trivial⟩
    · simp only [TlsIndexState.account, if_pos pair, if_neg single, BitVec.toNat_add, two] at room ⊢
      exact ⟨by omega, trivial⟩
  · by_cases single : tlsType &&& gotTlsIe ≠ 0
    · simp only [TlsIndexState.account, if_neg pair, if_pos single, BitVec.toNat_add, one] at room ⊢
      exact ⟨by omega, trivial⟩
    · simp only [TlsIndexState.account, if_neg pair, if_neg single] at room ⊢
      exact ⟨by omega, trivial⟩

/-- Before an entry gets its place. -/
structure TlsAt (start : Nat) (rest : List (PlacedEntry β η)) (s : TlsIndexState η) : Prop where
  cursor : s.tlsAssignedGotno.toNat = start
  room : start + units placedSlots rest < 2 ^ 32
  distinct : Distinct mipsElfMultiGotEntryEq (rest.map PlacedEntry.entry)
  ldmUnset : (∃ placed ∈ rest, placed.entry.ldm = true) → s.tlsLdmOffset = minusOne

theorem ldm_alone {placed : PlacedEntry β η} {rest : List (PlacedEntry β η)}
    (distinct : Distinct mipsElfMultiGotEntryEq ((placed :: rest).map PlacedEntry.entry))
    (ldm : placed.entry.ldm = true) : ¬ ∃ other ∈ rest, other.entry.ldm = true := by
  intro found
  rcases found with ⟨other, member, also⟩
  have apart := (List.pairwise_cons.mp distinct).1 other.entry (List.mem_map_of_mem member)
  have shared : mipsElfMultiGotEntryEq placed.entry other.entry = true := by
    rw [multi_got_entry_eq_iff, GotEntry.multiSlot, GotEntry.multiSlot, ldm, also]
  rw [shared] at apart
  cases apart

theorem TlsAt.step (f : GotFormat) {start : Nat} {rest : List (PlacedEntry β η)} {placed : PlacedEntry β η}
    {s : TlsIndexState η} (before : TlsAt start (placed :: rest) s) :
    (mipsElfInitializeTlsIndex f false s placed).2 = putTls f placed start ∧
      TlsAt (start + placedSlots placed) rest (mipsElfInitializeTlsIndex f false s placed).1 := by
  have room := before.room
  rw [units_cons] at room
  have distinct := (List.pairwise_cons.mp before.distinct).2
  by_cases plain : placed.entry.tlsType = 0
  · have none : placedSlots placed = 0 := by
      rw [placedSlots, plain]
      decide
    rw [mipsElfInitializeTlsIndex, if_pos plain, putTls, if_pos plain, none]
    refine ⟨rfl, before.cursor, by omega, distinct, ?_⟩
    intro found
    rcases found with ⟨other, member, ldm⟩
    exact before.ldmUnset ⟨other, List.mem_cons_of_mem _ member, ldm⟩
  · have index := next_index_toInt f s.tlsAssignedGotno
    rw [before.cursor] at index
    by_cases ldm : placed.entry.ldm = true
    · have unset := before.ldmUnset ⟨placed, List.mem_cons_self, ldm⟩
      have kept : ¬ (s.tlsLdmOffset ≠ minusTwo ∧ s.tlsLdmOffset ≠ minusOne) := fun done => done.2 unset
      have count := account_toNat
        { s with tlsLdmOffset := f.gotSize.setWidth 64 * s.tlsAssignedGotno.setWidth 64 } placed.entry.tlsType
        (by rw [before.cursor]; exact lt_of_le_of_lt (by rw [placedSlots]; omega) room)
      have call : mipsElfInitializeTlsIndex f false s placed =
          ({ s with tlsLdmOffset := f.gotSize.setWidth 64 * s.tlsAssignedGotno.setWidth 64 }.account
              placed.entry.tlsType,
            { placed with gotidx := (f.gotSize.setWidth 64 * s.tlsAssignedGotno.setWidth 64 : BfdVma).toInt }) := by
        simp only [mipsElfInitializeTlsIndex, if_neg plain, ldm, if_true, if_neg kept]
      rw [call, putTls, if_neg plain, index]
      refine ⟨rfl, ?_, by omega, distinct, ?_⟩
      · rw [count.1, before.cursor]
        rfl
      · exact fun found => absurd found (ldm_alone before.distinct ldm)
    · have count := account_toNat s placed.entry.tlsType
        (by rw [before.cursor]; exact lt_of_le_of_lt (by rw [placedSlots]; omega) room)
      have call : mipsElfInitializeTlsIndex f false s placed = (s.account placed.entry.tlsType,
          { placed with gotidx := (f.gotSize.setWidth 64 * s.tlsAssignedGotno.setWidth 64 : BfdVma).toInt }) := by
        simp only [mipsElfInitializeTlsIndex, if_neg plain, if_neg ldm]
      rw [call, putTls, if_neg plain, index]
      refine ⟨rfl, ?_, by omega, distinct, ?_⟩
      · rw [count.1, before.cursor]
        rfl
      · intro found
        rw [count.2]
        rcases found with ⟨other, member, also⟩
        exact before.ldmUnset ⟨other, List.mem_cons_of_mem _ member, also⟩

omit [DecidableEq β] [DecidableEq η] in
theorem map_entry_perm (walk : Walk (PlacedEntry β η)) (entries : List (PlacedEntry β η)) :
    ((walk.order entries).map PlacedEntry.entry).Perm (entries.map PlacedEntry.entry) :=
  (walk.perm entries).map _

theorem multi_distinct_perm {first second : List (GotEntry β η)} (perm : first.Perm second)
    (distinct : Distinct mipsElfMultiGotEntryEq second) : Distinct mipsElfMultiGotEntryEq first :=
  (perm.pairwise_iff fun apart => multi_got_slots.apart apart).mpr distinct

variable {c : LayoutConf} {m : MultiGots π β η} {p : π}

theorem lay_out_got_at (walk : π → Walk (PlacedEntry β η)) (layable : Layable (m.got p))
    (room : m.assign.toNat + gotNeed c (m.got p) < 2 ^ 32) :
    LaidAt c (walk p) (m.got p) ((layOutGot c walk m p).got p) m.assign.toNat ∧
      (layOutGot c walk m p).assign.toNat = m.assign.toNat + gotNeed c (m.got p) := by
  have tls := layable.tls
  rw [gotNeed, localNeed] at room
  have pages := page_min c (m.got p)
  have assigned : (m.assign + c.reservedGotno).toNat = m.assign.toNat + c.reservedGotno.toNat := by
    rw [BitVec.toNat_add]
    omega
  have locals : ((m.got p).localGotno + (m.assign + c.reservedGotno) +
      (if c.pages < (m.got p).pageGotno.setWidth 64 then c.pages else (m.got p).pageGotno.setWidth 64).setWidth 32).toNat =
        m.assign.toNat + c.reservedGotno.toNat + localNeed c (m.got p) := by
    rw [BitVec.toNat_add, BitVec.toNat_add, assigned, pages, localNeed]
    omega
  have globals : ((m.got p).localGotno + (m.assign + c.reservedGotno) +
      (if c.pages < (m.got p).pageGotno.setWidth 64 then c.pages else (m.got p).pageGotno.setWidth 64).setWidth 32 +
      (m.got p).globalGotno).toNat =
        m.assign.toNat + c.reservedGotno.toNat + localNeed c (m.got p) + (m.got p).globalGotno.toNat := by
    rw [BitVec.toNat_add, locals, localNeed]
    omega
  have begins : TlsAt (m.assign.toNat + c.reservedGotno.toNat + localNeed c (m.got p) + (m.got p).globalGotno.toNat)
      ((walk p).order (m.got p).gotEntries)
      (⟨(m.got p).localGotno + (m.assign + c.reservedGotno) +
        (if c.pages < (m.got p).pageGotno.setWidth 64 then c.pages
          else (m.got p).pageGotno.setWidth 64).setWidth 32 + (m.got p).globalGotno,
        (m.got p).tlsLdmOffset, m.hash⟩ : TlsIndexState η) := by
    refine ⟨globals, ?_, multi_distinct_perm (map_entry_perm _ _) layable.distinct, fun _ => layable.ldmUnset⟩
    rw [units_perm placedSlots ((walk p).perm _), ← tls, localNeed]
    omega
  have visited := visitAll_eq (mipsElfInitializeTlsIndex c.format false) placedSlots (putTls c.format) TlsAt
    (fun before => before.step c.format) begins
  refine ⟨⟨?_, ?_, ?_, ?_, ?_⟩, ?_⟩
  · simp only [layOutGot, Function.update_self]
    exact assigned
  · simp only [layOutGot, Function.update_self]
    exact locals
  · simp only [layOutGot, Function.update_self]
  · simp only [layOutGot, Function.update_self]
  · simp only [layOutGot, Function.update_self]
    exact visited.1
  · simp only [layOutGot]
    rw [BitVec.toNat_add, globals, gotNeed, localNeed]
    omega

/-- After the first loop has laid out some tables. -/
structure LaidOutTo (c : LayoutConf) (walk : π → Walk (PlacedEntry β η)) (first : MultiGots π β η) (done : List π)
    (m : MultiGots π β η) : Prop where
  assign : m.assign.toNat = units (fun p => gotNeed c (first.got p)) done
  ring : m.ring = done.reverse
  laid : ∀ q ∈ offsets (fun p => gotNeed c (first.got p)) 0 done, LaidAt c (walk q.1) (first.got q.1) (m.got q.1) q.2
  others : ∀ p, p ∉ done → m.got p = first.got p
  master : m.master = first.master
  bfd2got : m.bfd2got = first.bfd2got

theorem lay_out_gots_run (c : LayoutConf) (walk : π → Walk (PlacedEntry β η)) (first : MultiGots π β η)
    (zero : first.assign = 0) (empty : first.ring = []) (tables : List π) (nodup : tables.Nodup)
    (layable : ∀ p ∈ tables, Layable (first.got p))
    (room : units (fun p => gotNeed c (first.got p)) tables < 2 ^ 32) :
    LaidOutTo c walk first tables (tables.foldl (layOutGot c walk) first) := by
  induction tables using List.reverseRecOn with
  | nil =>
      refine ⟨?_, empty, ?_, fun _ _ => rfl, rfl, rfl⟩
      · rw [List.foldl_nil, zero]
        rfl
      · intro q member
        exact absurd member List.not_mem_nil
  | append_singleton done p ih =>
      rw [units_append, units_cons, units_nil, Nat.add_zero] at room
      have split := List.nodup_append.mp nodup
      have new : p ∉ done := fun earlier => split.2.2 p earlier p List.mem_cons_self rfl
      have before := ih split.1 (fun q member => layable q (List.mem_append_left _ member)) (by omega)
      rw [List.foldl_append, List.foldl_cons, List.foldl_nil]
      have own := before.others p new
      have fits : (done.foldl (layOutGot c walk) first).assign.toNat +
          gotNeed c ((done.foldl (layOutGot c walk) first).got p) < 2 ^ 32 := by
        rw [before.assign, own]
        exact room
      have unlaid : Layable ((done.foldl (layOutGot c walk) first).got p) := by
        rw [own]
        exact layable p (List.mem_append_right _ List.mem_cons_self)
      rcases lay_out_got_at walk unlaid fits with ⟨laid, assign⟩
      rw [own, before.assign] at laid assign
      have kept : ∀ q, q ≠ p → (layOutGot c walk (done.foldl (layOutGot c walk) first) p).got q =
          (done.foldl (layOutGot c walk) first).got q := by
        intro q other
        simp only [layOutGot, Function.update_of_ne other]
      refine ⟨?_, ?_, ?_, ?_, before.master, before.bfd2got⟩
      · rw [assign, units_append, units_cons, units_nil, Nat.add_zero]
      · rw [List.reverse_append]
        exact congrArg (p :: ·) before.ring
      · intro q member
        rw [offsets_append] at member
        rcases List.mem_append.mp member with earlier | last
        · have other : q.1 ≠ p := fun same => new (same ▸ mem_of_offsets earlier)
          rw [kept q.1 other]
          exact before.laid q earlier
        · rw [offsets, offsets, List.mem_singleton, Nat.zero_add] at last
          rw [last]
          exact laid
      · intro q absent
        rw [List.mem_append, List.mem_singleton, not_or] at absent
        rw [kept q absent.2]
        exact before.others q absent.1

def globalP (area : η → GlobalGotArea) (entry : GotEntry β η) : Bool :=
  entry.tlsType == 0 && match entry.key with
    | .global _ h => area h != .none
    | _ => false

def placedGlobals (area : η → GlobalGotArea) (placed : PlacedEntry β η) : Nat :=
  if globalP area placed.entry then 1 else 0

def putGlobal (f : GotFormat) (area : η → GlobalGotArea) (placed : PlacedEntry β η) (slot : Nat) :
    PlacedEntry β η :=
  if globalP area placed.entry then { placed with gotidx := f.gotSize.toNat * slot } else placed

def TlsApart (area : η → GlobalGotArea) (entry : GotEntry β η) : Prop :=
  entry.tlsType ≠ 0 → ∀ abfd h, entry.key = .global abfd h → area h = .none

/-- Before a global symbol gets its place. -/
structure GlobalAt (area : η → GlobalGotArea) (start : Nat) (rest : List (PlacedEntry β η)) (arg : GlobalOffsetArg) :
    Prop where
  cursor : arg.assignedGotno.toNat = start
  room : start + units (placedGlobals area) rest < 2 ^ 32
  apart : ∀ placed ∈ rest, TlsApart area placed.entry

omit [DecidableEq β] [DecidableEq η] in
theorem set_global_got_offset_cases (f : GotFormat) (info : LinkInfo) (sym : η → TlsSymbol)
    (area : η → GlobalGotArea) (arg : GlobalOffsetArg) (placed : PlacedEntry β η) :
    ((∃ abfd h, placed.entry.key = .global abfd h ∧ area h ≠ .none) ∧
      (mipsElfSetGlobalGotOffset f info sym area arg placed).2 =
        { placed with gotidx := f.gotSize.toNat * arg.assignedGotno.toNat } ∧
      (mipsElfSetGlobalGotOffset f info sym area arg placed).1.assignedGotno = arg.assignedGotno + 1) ∨
    ((∀ abfd h, placed.entry.key = .global abfd h → area h = .none) ∧
      (mipsElfSetGlobalGotOffset f info sym area arg placed).2 = placed ∧
      (mipsElfSetGlobalGotOffset f info sym area arg placed).1.assignedGotno = arg.assignedGotno) := by
  have counted : (if placed.entry.tlsType ≠ gotNormal then
      { arg with neededRelocs := arg.neededRelocs +
          BitVec.ofNat 32 (mipsTlsGotRelocs info placed.entry.tlsType (placed.entry.key.symbolOf sym)) }
      else arg).assignedGotno = arg.assignedGotno := by
    split <;> rfl
  cases key : placed.entry.key with
  | address address =>
      right
      simp only [mipsElfSetGlobalGotOffset, key] at counted ⊢
      exact ⟨by simp, trivial, counted⟩
  | symbol abfd symndx addend =>
      right
      simp only [mipsElfSetGlobalGotOffset, key] at counted ⊢
      exact ⟨by simp, trivial, counted⟩
  | global abfd h =>
      by_cases outside : area h = .none
      · right
        simp only [mipsElfSetGlobalGotOffset, key, outside, ne_eq, not_true_eq_false, if_false] at counted ⊢
        refine ⟨?_, trivial, counted⟩
        intro _ _ same
        injection same with _ same
        rw [← same, outside]
      · left
        simp only [mipsElfSetGlobalGotOffset, key, ne_eq, outside, not_false_eq_true, if_true] at counted ⊢
        refine ⟨⟨abfd, h, rfl, outside⟩, ?_, ?_⟩
        · rw [counted]
        · split
          · exact congrArg (· + 1) counted
          · exact congrArg (· + 1) counted

omit [DecidableEq β] [DecidableEq η] in
theorem global_p_iff (area : η → GlobalGotArea) (entry : GotEntry β η) :
    globalP area entry = true ↔ entry.tlsType = 0 ∧ ∃ abfd h, entry.key = .global abfd h ∧ area h ≠ .none := by
  rw [globalP]
  cases entry.key <;> simp

omit [DecidableEq β] [DecidableEq η] in
theorem GlobalAt.step (f : GotFormat) (info : LinkInfo) (sym : η → TlsSymbol) {area : η → GlobalGotArea}
    {start : Nat} {placed : PlacedEntry β η} {rest : List (PlacedEntry β η)} {arg : GlobalOffsetArg}
    (before : GlobalAt area start (placed :: rest) arg) :
    (mipsElfSetGlobalGotOffset f info sym area arg placed).2 = putGlobal f area placed start ∧
      GlobalAt area (start + placedGlobals area placed) rest
        (mipsElfSetGlobalGotOffset f info sym area arg placed).1 := by
  have room := before.room
  rw [units_cons] at room
  have later : ∀ other ∈ rest, TlsApart area other.entry :=
    fun other member => before.apart other (List.mem_cons_of_mem _ member)
  rcases set_global_got_offset_cases f info sym area arg placed with
    ⟨⟨abfd, h, key, inside⟩, entry, cursor⟩ | ⟨outside, entry, cursor⟩
  · have plain : placed.entry.tlsType = 0 := by
      by_contra tls
      exact inside (before.apart placed List.mem_cons_self tls abfd h key)
    have global : globalP area placed.entry = true := (global_p_iff _ _).mpr ⟨plain, abfd, h, key, inside⟩
    have one : placedGlobals area placed = 1 := by rw [placedGlobals, if_pos global]
    rw [entry, putGlobal, if_pos global, before.cursor, one]
    refine ⟨rfl, ?_, by omega, later⟩
    rw [cursor, BitVec.toNat_add, before.cursor]
    have unit : (1 : BitVec 32).toNat = 1 := rfl
    omega
  · have other : ¬ globalP area placed.entry = true := by
      intro global
      rcases (global_p_iff _ _).mp global with ⟨_, abfd, h, key, inside⟩
      exact inside (outside abfd h key)
    have none : placedGlobals area placed = 0 := by rw [placedGlobals, if_neg other]
    rw [entry, putGlobal, if_neg other, none]
    refine ⟨rfl, ?_, by omega, later⟩
    rw [cursor]
    exact before.cursor

end Openisa.Got
