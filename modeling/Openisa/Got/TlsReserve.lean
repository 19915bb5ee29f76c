import Openisa.Got.GotSection
import Openisa.Got.TlsSlots

/-! The relocations that are reserved for thread-local entries when the tables are laid out. -/

namespace Openisa.Got

open Openisa.Bfd
open Openisa.Library
open Openisa.Library.SlotTable
open Openisa.Library.BumpLayout

variable {π β η : Type} [DecidableEq π] [DecidableEq β] [DecidableEq η]

def mipsElfCountLocalTlsRelocs (info : LinkInfo) (needed : BitVec 32) (placed : PlacedEntry β η) : BitVec 32 :=
  match placed.entry.key with
  | .symbol _ _ _ => needed + BitVec.ofNat 32 (mipsTlsGotRelocs info placed.entry.tlsType none)
  | _ => needed

def mipsElfCountGlobalTlsRelocs (info : LinkInfo) (sym : η → TlsSymbol) (hash : HashTls η) (needed : BitVec 32)
    (h : η) : BitVec 32 :=
  needed + BitVec.ofNat 32 (mipsTlsGotRelocs info (hash.tlsType h) (some (sym h)))

/-- A link with a single table: the orders of the walks over the table, and the symbols of the hash table. -/
structure SingleLayout (β η : Type) where
  indexWalk : Walk (PlacedEntry β η)
  countWalk : Walk (PlacedEntry β η)
  symbols : List η
  table : LaidGot β η

/-- The end of `mips_elf_lay_out_got` where the link keeps a single table, with the number of relocations
that are reserved for thread-local entries. -/
def SingleLayout.layOutGot (f : GotFormat) (info : LinkInfo) (sym : η → TlsSymbol) (hash : HashTls η)
    (l : SingleLayout β η) : LaidGot β η × HashTls η × BitVec 32 :=
  -- VxWorks reserves none
  if f.isVxworks then (l.table, hash, 0) else
  let (s, gotEntries) := visitAll (mipsElfInitializeTlsIndex f true)
    ⟨l.table.globalGotno + l.table.localGotno, l.table.tlsLdmOffset, hash⟩ (l.indexWalk.order l.table.gotEntries)
  let needed := (l.countWalk.order gotEntries).foldl (mipsElfCountLocalTlsRelocs info) 0
  let needed := l.symbols.foldl (mipsElfCountGlobalTlsRelocs info sym s.hash) needed
  ({ l.table with
      tlsAssignedGotno := s.tlsAssignedGotno
      tlsLdmOffset := s.tlsLdmOffset
      gotEntries := gotEntries }, s.hash, needed)

def entryRelocs (info : LinkInfo) (sym : η → TlsSymbol) (entry : GotEntry β η) : Nat :=
  mipsTlsGotRelocs info entry.tlsType (entry.key.symbolOf sym)

def tlsShare (info : LinkInfo) (sym : η → TlsSymbol) (entries : List (GotEntry β η)) : Nat :=
  (entries.map (entryRelocs info sym)).sum

def GotKey.localP : GotKey β η → Bool
  | .symbol _ _ _ => true
  | _ => false

def symbolShare (info : LinkInfo) (sym : η → TlsSymbol) (tlsType : η → TlsType) (symbols : List η) : Nat :=
  (symbols.map fun h => mipsTlsGotRelocs info (tlsType h) (some (sym h))).sum

def wordRelocs (info : LinkInfo) (sym : η → TlsSymbol) (area : η → GlobalGotArea) (entry : GotEntry β η) : Nat :=
  match entry.key with
  | .global _ h =>
      if area h ≠ .none ∧ (info.shared || (info.dynamicSectionsCreated && (sym h).defDynamic && !(sym h).defRegular))
      then 1 else 0
  | _ => 0

def wordShare (info : LinkInfo) (sym : η → TlsSymbol) (area : η → GlobalGotArea) (g : LaidGot β η) : BitVec 32 :=
  BitVec.ofNat 32 ((g.gotEntries.map fun placed => wordRelocs info sym area placed.entry).sum) +
    if info.shared then g.localGotno - g.assignedGotno else 0

def LaidGot.entries (g : LaidGot β η) : List (GotEntry β η) := g.gotEntries.map PlacedEntry.entry

def LaidOut.tlsReserved (info : LinkInfo) (sym : η → TlsSymbol) (laid : LaidOut π β η) : BitVec 32 :=
  (laid.gots.ring.dropLast.map fun p => BitVec.ofNat 32 (tlsShare info sym (laid.gots.got p).entries)).sum

def LaidOut.wordsReserved (info : LinkInfo) (sym : η → TlsSymbol) (laid : LaidOut π β η) : BitVec 32 :=
  (laid.gots.ring.dropLast.map fun p => wordShare info sym laid.area (laid.gots.got p)).sum

omit [DecidableEq β] in
theorem tls_index_entry (f : GotFormat) (single : Bool) (s : TlsIndexState η) (placed : PlacedEntry β η) :
    (mipsElfInitializeTlsIndex f single s placed).2.entry = placed.entry := by
  simp only [mipsElfInitializeTlsIndex]
  split
  · rfl
  · split
    · split <;> rfl
    · split
      · split <;> rfl
      · rfl

omit [DecidableEq β] [DecidableEq η] in
theorem global_got_offset_entry (f : GotFormat) (info : LinkInfo) (sym : η → TlsSymbol) (area : η → GlobalGotArea)
    (arg : GlobalOffsetArg) (placed : PlacedEntry β η) :
    (mipsElfSetGlobalGotOffset f info sym area arg placed).2.entry = placed.entry := by
  rw [mipsElfSetGlobalGotOffset]
  split
  · dsimp only
    split <;> rfl
  · rfl

theorem tls_got_relocs_congr (info : LinkInfo) {t u : TlsType} (h : Option TlsSymbol)
    (same : ∀ flag ∈ [gotTlsGd, gotTlsLdm, gotTlsIe], t &&& flag = u &&& flag) :
    mipsTlsGotRelocs info t h = mipsTlsGotRelocs info u h := by
  rw [mipsTlsGotRelocs, mipsTlsGotRelocs, same gotTlsGd (by simp), same gotTlsLdm (by simp), same gotTlsIe (by simp)]

theorem offset_done_flags (t : TlsType) :
    ∀ flag ∈ [gotTlsGd, gotTlsLdm, gotTlsIe], (t ||| gotTlsOffsetDone) &&& flag = t &&& flag := by
  have apart : ∀ flag ∈ [gotTlsGd, gotTlsLdm, gotTlsIe], gotTlsOffsetDone &&& flag = 0 := by decide
  intro flag member
  rw [BitVec.and_or_distrib_right, apart flag member]
  exact BitVec.or_zero

omit [DecidableEq β] [DecidableEq η] in
theorem tls_share_perm (info : LinkInfo) (sym : η → TlsSymbol) {first second : List (GotEntry β η)}
    (perm : first.Perm second) : tlsShare info sym first = tlsShare info sym second :=
  (perm.map _).sum_eq

section Single

omit [DecidableEq β] [DecidableEq η] in
theorem count_local_run (info : LinkInfo) (sym : η → TlsSymbol) (needed : BitVec 32)
    (placed : List (PlacedEntry β η)) :
    placed.foldl (mipsElfCountLocalTlsRelocs info) needed =
      needed + BitVec.ofNat 32 (tlsShare info sym ((placed.map PlacedEntry.entry).filter (·.key.localP))) := by
  induction placed generalizing needed with
  | nil => exact (BitVec.add_zero needed).symm
  | cons first rest ih =>
      rw [List.foldl_cons, ih, mipsElfCountLocalTlsRelocs]
      rcases first with ⟨⟨key, tlsType⟩, gotidx⟩
      cases key with
      | address a => rfl
      | «global» b h => rfl
      | symbol b symndx addend =>
          change needed + _ + BitVec.ofNat 32 _ = needed + BitVec.ofNat 32 (_ + tlsShare info sym _)
          rw [BitVec.ofNat_add, BitVec.add_assoc]
          rfl

omit [DecidableEq η] in
theorem count_global_run (info : LinkInfo) (sym : η → TlsSymbol) (hash : HashTls η) (needed : BitVec 32)
    (symbols : List η) :
    symbols.foldl (mipsElfCountGlobalTlsRelocs info sym hash) needed =
      needed + BitVec.ofNat 32 (symbolShare info sym hash.tlsType symbols) := by
  induction symbols generalizing needed with
  | nil => exact (BitVec.add_zero needed).symm
  | cons h rest ih =>
      have sum : symbolShare info sym hash.tlsType (h :: rest) =
          mipsTlsGotRelocs info (hash.tlsType h) (some (sym h)) + symbolShare info sym hash.tlsType rest := by
        rw [symbolShare, List.map_cons, List.sum_cons]
        rfl
      rw [List.foldl_cons, ih, mipsElfCountGlobalTlsRelocs, sum, BitVec.ofNat_add, BitVec.add_assoc]

/-- The only bit that the layout of the table changes. -/
def IndexedOnly (before after : HashTls η) : Prop :=
  ∀ h, after.tlsType h = before.tlsType h ∨ after.tlsType h = before.tlsType h ||| gotTlsOffsetDone

omit [DecidableEq β] in
theorem tls_index_hash (f : GotFormat) (single : Bool) (before : HashTls η) (s : TlsIndexState η)
    (placed : PlacedEntry β η) (indexed : IndexedOnly before s.hash) :
    IndexedOnly before (mipsElfInitializeTlsIndex f single s placed).1.hash := by
  have account : ∀ (s : TlsIndexState η) t, (s.account t).hash = s.hash := by
    intro s t
    rw [TlsIndexState.account]
    split <;> split <;> rfl
  simp only [mipsElfInitializeTlsIndex]
  split
  · exact indexed
  · split
    · next h _ =>
        split
        · exact indexed
        · intro h'
          rw [account]
          by_cases same : h' = h
          · rw [same]
            right
            change Function.update _ _ _ h = _
            rw [Function.update_self]
            rcases indexed h with kept | already
            · rw [kept]
            · rw [already, BitVec.or_assoc, BitVec.or_self]
          · change Function.update _ _ _ h' = _ ∨ Function.update _ _ _ h' = _
            rw [Function.update_of_ne same]
            exact indexed h'
    · split
      · split
        · exact indexed
        · rw [account]
          exact indexed
      · rw [account]
        exact indexed

omit [DecidableEq η] in
theorem symbol_share_indexed (info : LinkInfo) (sym : η → TlsSymbol) {before after : HashTls η}
    (indexed : IndexedOnly before after) (symbols : List η) :
    symbolShare info sym after.tlsType symbols = symbolShare info sym before.tlsType symbols := by
  have same : ∀ h, mipsTlsGotRelocs info (after.tlsType h) (some (sym h)) =
      mipsTlsGotRelocs info (before.tlsType h) (some (sym h)) := by
    intro h
    rcases indexed h with kept | set
    · rw [kept]
    · rw [set]
      exact tls_got_relocs_congr info _ (offset_done_flags _)
  simp only [symbolShare, same]

structure SingleLaid (f : GotFormat) (info : LinkInfo) (sym : η → TlsSymbol) (hash : HashTls η)
    (l : SingleLayout β η) (laid : LaidGot β η × HashTls η × BitVec 32) : Prop where
  entries : laid.1.entries.Perm l.table.entries
  indexed : IndexedOnly hash laid.2.1
  needed : laid.2.2 = if f.isVxworks then 0 else
    BitVec.ofNat 32 (tlsShare info sym (l.table.entries.filter (·.key.localP)) +
      symbolShare info sym hash.tlsType l.symbols)

omit [DecidableEq β] in
theorem lay_out_single (f : GotFormat) (info : LinkInfo) (sym : η → TlsSymbol) (hash : HashTls η)
    (l : SingleLayout β η) : SingleLaid f info sym hash l (l.layOutGot f info sym hash) := by
  rw [SingleLayout.layOutGot]
  by_cases vxworks : f.isVxworks = true
  · rw [if_pos vxworks]
    exact ⟨List.Perm.refl _, fun h => Or.inl rfl, by rw [if_pos vxworks]⟩
  · rw [if_neg vxworks]
    have kept := visitAll_kept (mipsElfInitializeTlsIndex f true) PlacedEntry.entry (tls_index_entry f true)
      ⟨l.table.globalGotno + l.table.localGotno, l.table.tlsLdmOffset, hash⟩ (l.indexWalk.order l.table.gotEntries)
    have indexed := visitAll_holds (mipsElfInitializeTlsIndex f true) (fun s => IndexedOnly hash s.hash)
      (fun s placed => tls_index_hash f true hash s placed)
      (s := ⟨l.table.globalGotno + l.table.localGotno, l.table.tlsLdmOffset, hash⟩) (fun h => Or.inl rfl)
      (l.indexWalk.order l.table.gotEntries)
    generalize visitAll (mipsElfInitializeTlsIndex f true) _ (l.indexWalk.order l.table.gotEntries) = after
      at kept indexed
    have perm : (after.2.map PlacedEntry.entry).Perm l.table.entries := by
      rw [kept]
      exact (l.indexWalk.perm _).map _
    refine ⟨perm, indexed, ?_⟩
    dsimp only
    rw [if_neg vxworks, count_global_run, count_local_run info sym, symbol_share_indexed info sym indexed,
      BitVec.ofNat_add, zero_add,
      tls_share_perm info sym ((((l.countWalk.perm after.2).map _).trans perm).filter _)]

end Single

section Several

variable (info : LinkInfo) (sym : η → TlsSymbol) (area : η → GlobalGotArea)

omit [DecidableEq β] [DecidableEq η] in
theorem tls_got_relocs_normal (h : Option TlsSymbol) : mipsTlsGotRelocs info gotNormal h = 0 := by
  rw [mipsTlsGotRelocs]
  simp [gotNormal]

omit [DecidableEq β] [DecidableEq η] in
theorem global_got_offset_needed (f : GotFormat) (arg : GlobalOffsetArg) (placed : PlacedEntry β η) :
    (mipsElfSetGlobalGotOffset f info sym area arg placed).1.neededRelocs =
      arg.neededRelocs + (BitVec.ofNat 32 (entryRelocs info sym placed.entry) +
        BitVec.ofNat 32 (wordRelocs info sym area placed.entry)) := by
  have tls : (if placed.entry.tlsType ≠ gotNormal then
      { arg with neededRelocs := arg.neededRelocs +
          BitVec.ofNat 32 (mipsTlsGotRelocs info placed.entry.tlsType (placed.entry.key.symbolOf sym)) }
      else arg).neededRelocs = arg.neededRelocs + BitVec.ofNat 32 (entryRelocs info sym placed.entry) := by
    by_cases plain : placed.entry.tlsType ≠ gotNormal
    · rw [if_pos plain]
      rfl
    · rw [if_neg plain, entryRelocs, not_not.mp plain, tls_got_relocs_normal]
      exact (BitVec.add_zero _).symm
  rw [← BitVec.add_assoc, ← tls, mipsElfSetGlobalGotOffset, wordRelocs]
  generalize (if placed.entry.tlsType ≠ gotNormal then _ else arg) = arg'
  cases placed.entry.key with
  | address a => exact (BitVec.add_zero _).symm
  | symbol b symndx addend => exact (BitVec.add_zero _).symm
  | «global» b h =>
      by_cases placedHere : area h ≠ .none
      · cases dynamic : info.shared || (info.dynamicSectionsCreated && (sym h).defDynamic && !(sym h).defRegular) <;>
          simp [placedHere, dynamic]
      · simp [placedHere]

omit [DecidableEq π] [DecidableEq β] [DecidableEq η] in
theorem tls_share_eq (g : LaidGot β η) :
    tlsShare info sym g.entries = (g.gotEntries.map fun placed => entryRelocs info sym placed.entry).sum := by
  rw [tlsShare, LaidGot.entries, List.map_map]
  rfl

def tableShare (g : LaidGot β η) : BitVec 32 :=
  BitVec.ofNat 32 (tlsShare info sym g.entries) + wordShare info sym area g

omit [DecidableEq β] [DecidableEq η] in
theorem ofNat_sum {α : Type} (amount : α → Nat) (items : List α) :
    (items.map fun x => BitVec.ofNat 32 (amount x)).sum = BitVec.ofNat 32 (items.map amount).sum := by
  induction items with
  | nil => rfl
  | cons x rest ih => rw [List.map_cons, List.sum_cons, ih, List.map_cons, List.sum_cons, BitVec.ofNat_add]

variable (c : LayoutConf) (walk : π → Walk (PlacedEntry β η))

omit [DecidableEq β] [DecidableEq η] in
theorem set_offsets_needed (m : MultiGots π β η × BitVec 32) (p : π) :
    (setOffsets c info sym area walk m p).2 = m.2 + tableShare info sym area (m.1.got p) := by
  have sum := visitAll_sum (mipsElfSetGlobalGotOffset c.format info sym area) GlobalOffsetArg.neededRelocs
    (fun placed => BitVec.ofNat 32 (entryRelocs info sym placed.entry) +
      BitVec.ofNat 32 (wordRelocs info sym area placed.entry))
    (global_got_offset_needed info sym area c.format) ⟨(m.1.got p).localGotno, 0⟩ ((walk p).order (m.1.got p).gotEntries)
  have shares : ∀ amount : PlacedEntry β η → Nat,
      (((walk p).order (m.1.got p).gotEntries).map fun placed => BitVec.ofNat 32 (amount placed)).sum =
        BitVec.ofNat 32 ((m.1.got p).gotEntries.map amount).sum := by
    intro amount
    rw [ofNat_sum, (((walk p).perm _).map amount).sum_eq]
  rw [List.sum_map_add, shares, shares, ← tls_share_eq] at sum
  rw [setOffsets, tableShare, wordShare]
  generalize visitAll (mipsElfSetGlobalGotOffset c.format info sym area) _ _ = after at sum ⊢
  dsimp only
  rw [sum]
  split
  · simp only [zero_add, add_assoc]
  · simp only [zero_add, add_zero]

omit [DecidableEq β] [DecidableEq η] in
theorem set_offsets_shares (m : MultiGots π β η × BitVec 32) (p q : π) :
    ((setOffsets c info sym area walk m p).1.got q).entries.Perm (m.1.got q).entries ∧
      wordShare info sym area ((setOffsets c info sym area walk m p).1.got q) =
        wordShare info sym area (m.1.got q) := by
  have kept := visitAll_kept (mipsElfSetGlobalGotOffset c.format info sym area) PlacedEntry.entry
    (global_got_offset_entry c.format info sym area) ⟨(m.1.got p).localGotno, 0⟩ ((walk p).order (m.1.got p).gotEntries)
  have perm : ((visitAll (mipsElfSetGlobalGotOffset c.format info sym area) ⟨(m.1.got p).localGotno, 0⟩
      ((walk p).order (m.1.got p).gotEntries)).2.map PlacedEntry.entry).Perm (m.1.got p).entries := by
    rw [kept]
    exact ((walk p).perm _).map _
  rw [setOffsets]
  generalize visitAll (mipsElfSetGlobalGotOffset c.format info sym area) _ _ = after at perm ⊢
  dsimp only
  by_cases own : q = p
  · rw [own, Function.update_self]
    refine ⟨perm, ?_⟩
    have words := (perm.map (wordRelocs info sym area)).sum_eq
    rw [LaidGot.entries, List.map_map, List.map_map] at words
    rw [wordShare, wordShare]
    dsimp only
    congr 2
  · rw [Function.update_of_ne own]
    exact ⟨List.Perm.refl _, rfl⟩

def EntriesKept (before after : π → LaidGot β η) : Prop := ∀ q, (after q).entries.Perm (before q).entries

omit [DecidableEq π] [DecidableEq β] [DecidableEq η] in
theorem EntriesKept.trans {first second third : π → LaidGot β η} (early : EntriesKept first second)
    (late : EntriesKept second third) : EntriesKept first third :=
  fun q => (late q).trans (early q)

structure SecondLoop (tables : List π) (before after : MultiGots π β η × BitVec 32) : Prop where
  ring : after.1.ring = before.1.ring
  bfd2got : after.1.bfd2got = before.1.bfd2got
  kept : EntriesKept before.1.got after.1.got
  words : ∀ q, wordShare info sym area (after.1.got q) = wordShare info sym area (before.1.got q)
  needed : after.2 = before.2 + (tables.map fun p => tableShare info sym area (before.1.got p)).sum

omit [DecidableEq β] [DecidableEq η] in
theorem second_loop_run (tables : List π) (m : MultiGots π β η × BitVec 32) :
    SecondLoop info sym area tables m (tables.foldl (setOffsets c info sym area walk) m) := by
  induction tables generalizing m with
  | nil => exact ⟨rfl, rfl, fun _ => List.Perm.refl _, fun _ => rfl, (add_zero _).symm⟩
  | cons p rest ih =>
      have later := ih (setOffsets c info sym area walk m p)
      have own := set_offsets_shares info sym area c walk m p
      have same : ∀ q, tableShare info sym area ((setOffsets c info sym area walk m p).1.got q) =
          tableShare info sym area (m.1.got q) := by
        intro q
        rw [tableShare, tls_share_perm info sym (own q).1, (own q).2]
        rfl
      refine ⟨later.ring, later.bfd2got, EntriesKept.trans (fun q => (own q).1) later.kept,
        fun q => (later.words q).trans (own q).2, ?_⟩
      rw [List.foldl_cons, later.needed, set_offsets_needed, List.map_cons, List.sum_cons, add_assoc]
      simp only [same]

structure FirstLoop (tables : List π) (before after : MultiGots π β η) : Prop where
  ring : after.ring = tables.reverse ++ before.ring
  bfd2got : after.bfd2got = before.bfd2got
  kept : EntriesKept before.got after.got

omit [DecidableEq β] in
theorem lay_out_got_kept (m : MultiGots π β η) (p : π) : FirstLoop [p] m (layOutGot c walk m p) := by
  refine ⟨rfl, rfl, ?_⟩
  intro q
  rw [layOutGot]
  dsimp only
  by_cases own : q = p
  · rw [own, Function.update_self, LaidGot.entries,
      visitAll_kept (mipsElfInitializeTlsIndex c.format false) PlacedEntry.entry (tls_index_entry c.format false)]
    exact ((walk p).perm _).map _
  · rw [Function.update_of_ne own]

omit [DecidableEq β] in
theorem first_loop_run (tables : List π) (m : MultiGots π β η) :
    FirstLoop tables m (tables.foldl (layOutGot c walk) m) := by
  induction tables generalizing m with
  | nil => exact ⟨rfl, rfl, fun _ => List.Perm.refl _⟩
  | cons p rest ih =>
      have own := lay_out_got_kept c walk m p
      have later := ih (layOutGot c walk m p)
      refine ⟨?_, later.bfd2got.trans own.bfd2got, own.kept.trans later.kept⟩
      rw [List.foldl_cons, later.ring, own.ring, List.reverse_singleton, List.reverse_cons, List.append_assoc]

/-- What `mips_elf_multi_got` leaves, as far as relocations are concerned: it reserves none for the entries
of the primary table. -/
structure RelocsReserved (got : π → LaidGot β η) (bfd2got : β → Option π) (others : List π)
    (laid : LaidOut π β η) : Prop where
  kept : EntriesKept got laid.gots.got
  bfd2got : laid.gots.bfd2got = bfd2got
  needed : laid.neededRelocs = laid.tlsReserved info sym + laid.wordsReserved info sym
  tls : laid.tlsReserved info sym = BitVec.ofNat 32 (others.map fun p => tlsShare info sym (got p).entries).sum

omit [DecidableEq β] in
theorem lay_out_gots_reserved (walks : LayoutWalks π β η) (master : LaidGot β η) (got : π → LaidGot β η)
    (bfd2got : β → Option π) (hash : HashTls η) (primary : π) (others : List π) :
    RelocsReserved info sym got bfd2got others
      (layOutGots c info sym walks master got bfd2got area hash primary others) := by
  have first : FirstLoop (primary :: others) (beforeLayout master got bfd2got hash primary)
      (afterFirst c walks master got bfd2got hash primary others) := first_loop_run c walks.tls _ _
  have second : SecondLoop info sym (sortAreas walks master (got primary) area)
      (afterFirst c walks master got bfd2got hash primary others).ring.dropLast
      (afterFirst c walks master got bfd2got hash primary others, 0)
      (afterSecond c info sym walks master got bfd2got area hash primary others) :=
    second_loop_run info sym _ c walks.offsets _ _
  have begins : EntriesKept got (beforeLayout master got bfd2got hash primary).got := by
    intro q
    change ((withGlobals master got primary q).gotEntries.map PlacedEntry.entry).Perm _
    rw [with_globals_entries]
    rfl
  have rest : (afterFirst c walks master got bfd2got hash primary others).ring.dropLast = others.reverse := by
    rw [first.ring, beforeLayout, List.append_nil, List.reverse_cons, List.dropLast_concat]
  rw [lay_out_gots_eq]
  generalize afterFirst c walks master got bfd2got hash primary others = m at first second rest ⊢
  generalize afterSecond c info sym walks master got bfd2got area hash primary others = after at second ⊢
  have kept := (begins.trans first.kept).trans second.kept
  refine ⟨kept, second.bfd2got.trans first.bfd2got, ?_, ?_⟩
  · simp only [LaidOut.tlsReserved, LaidOut.wordsReserved, second.ring]
    rw [← List.sum_map_add, second.needed, zero_add]
    congr 1
    apply List.map_congr_left
    intro p _
    rw [tableShare, second.words, tls_share_perm info sym (second.kept p)]
  · simp only [LaidOut.tlsReserved, second.ring, rest, ofNat_sum]
    rw [List.map_reverse, List.sum_reverse]
    congr 2
    apply List.map_congr_left
    intro p _
    exact tls_share_perm info sym (kept p)

end Several

end Openisa.Got
