import Openisa.Got.TlsEmission
import Openisa.Got.TlsReserve

/-! Room for the dynamic relocations of thread-local entries. -/

namespace Openisa.Got

open Openisa.Bfd
open Openisa.Library
open Openisa.Library.SlotTable
open Openisa.Library.FirstUse

/-- A link with several tables, from those that `mips_elf_multi_got` keeps. -/
structure SplitLayout (π β η : Type) where
  reservedGotno : BitVec 32
  pages : BitVec 64
  walks : LayoutWalks π β η
  master : LaidGot β η
  got : π → LaidGot β η
  bfd2got : β → Option π
  area : η → GlobalGotArea
  primary : π
  others : List π

inductive TlsLayout (π β η : Type) where
  | single (l : SingleLayout β η)
  | several (l : SplitLayout π β η)

/-- A link, with its symbols when the tables are laid out and while relocations are processed. -/
structure TlsLink (π β η : Type) where
  conf : TlsConf
  sym : η → TlsSymbol
  final : η → TlsSymbol
  hash : HashTls η
  layout : TlsLayout π β η

variable {π β η : Type} [DecidableEq π] [DecidableEq β] [DecidableEq η]

def SplitLayout.laid (c : TlsConf) (sym : η → TlsSymbol) (hash : HashTls η) (l : SplitLayout π β η) : LaidOut π β η :=
  layOutGots ⟨c.format, l.reservedGotno, l.pages⟩ c.info sym l.walks l.master l.got l.bfd2got l.area hash l.primary
    l.others

namespace TlsLink

def start (link : TlsLink π β η) (out : TlsOutput) : TlsGots π β η :=
  match link.layout with
  | .single l =>
      let laid := l.layOutGot link.conf.format link.conf.info link.sym link.hash
      ⟨false, fun _ => some none, none, fun _ => laid.1.gotEntries, laid.2.1, out⟩
  | .several l =>
      let gots := (l.laid link.conf link.sym link.hash).gots
      ⟨true, fun ibfd => (mipsElfGotForIbfd gots ibfd).map some, some l.primary,
        fun got => match got with
          | none => gots.master.gotEntries
          | some p => (gots.got p).gotEntries,
        gots.hash, out⟩

def reserved (link : TlsLink π β η) : BitVec 32 :=
  match link.layout with
  | .single l => (l.layOutGot link.conf.format link.conf.info link.sym link.hash).2.2
  | .several l => (l.laid link.conf link.sym link.hash).tlsReserved link.conf.info link.sym

end TlsLink

def entryHolders (got : Option π) (entries : List (PlacedEntry β η)) (p : GotEntry β η → Bool) :
    List (TlsHolder π η) :=
  (entries.zipIdx.filter fun e => p e.1.entry).map fun e => .entry got e.2

namespace TlsLink

/-- Where `mips_tls_got_index` can find the access types: with a single table, those of global symbols are in
the hash table. -/
def holders (link : TlsLink π β η) (m : TlsGots π β η) : List (TlsHolder π η) :=
  match link.layout with
  | .single l => entryHolders none (m.table none) (·.key.localP) ++ l.symbols.map .symbol
  | .several l => (l.primary :: l.others).flatMap fun p => entryHolders (some p) (m.table (some p)) fun _ => true

/-- No run of calls, in any order and with any repetition, outputs more relocations than are reserved. -/
def RelocsFit (link : TlsLink π β η) : Prop :=
  ∀ (out : TlsOutput) (calls : List (TlsCall π η)), (∀ call ∈ calls, call.holder ∈ link.holders (link.start out)) →
    (calls.foldl (TlsGots.call link.conf link.final) (link.start out)).out.relDyn.length ≤
      out.relDyn.length + link.reserved.toNat

def entries (link : TlsLink π β η) : List (GotEntry β η) :=
  match link.layout with
  | .single l => l.table.entries
  | .several l => (l.primary :: l.others).flatMap fun p => (l.got p).entries

end TlsLink

/-- The types that relocations are recorded with. -/
def TlsType.Known (t : TlsType) : Prop := t &&& 0xf8 = 0

/-- The symbol table was sorted: a symbol may have another index, if it has one. -/
structure Renumbered (h final : TlsSymbol) : Prop where
  same : { final with dynindx := h.dynindx } = h
  zero : BitVec.ofInt 32 final.dynindx = 0 ↔ BitVec.ofInt 32 h.dynindx = 0

/-- What `check_relocs` leaves of the thread-local relocations of the inputs. -/
structure TlsLink.Recorded (link : TlsLink π β η) : Prop where
  distinct : match link.layout with
    | .single l => l.symbols.Nodup
    | .several l => (l.primary :: l.others).Nodup
  types : ∀ entry ∈ link.entries, TlsType.Known entry.tlsType
  ldm : ∀ entry ∈ link.entries, entry.ldm = true → ∀ b h, entry.key ≠ .global b h
  symbols : ∀ h, TlsType.Known (link.hash.tlsType h) ∧ TlsType.ldmP (link.hash.tlsType h) = false
  renumbered : ∀ h, Renumbered (link.sym h) (link.final h)

/-- With several tables, no entry of the primary one needs relocations; the count does not wrap. -/
def TlsLink.Covered (link : TlsLink π β η) : Prop :=
  match link.layout with
  | .single l =>
      let needed := tlsShare link.conf.info link.sym (l.table.entries.filter (·.key.localP)) +
        symbolShare link.conf.info link.sym link.hash.tlsType l.symbols
      if link.conf.format.isVxworks then needed = 0 else needed < 2 ^ 32
  | .several l =>
      (∀ entry ∈ (l.got l.primary).entries, entry.tlsType ≠ gotNormal →
        tlsNeedRelocs link.conf.info (entry.key.symbolOf link.sym) = false) ∧
      (l.others.map fun p => tlsShare link.conf.info link.sym (l.got p).entries).sum < 2 ^ 32

theorem known_done {t : TlsType} (known : TlsType.Known t) : ¬ t &&& gotTlsDone ≠ 0 ∧
    ¬ (t ||| gotTlsOffsetDone) &&& gotTlsDone ≠ 0 := by
  revert t
  simp only [TlsType.Known]
  decide

theorem known_flags {t : TlsType} (known : TlsType.Known t) (asked : t ≠ gotNormal) :
    t &&& gotTlsGd ≠ 0 ∨ t &&& gotTlsIe ≠ 0 ∨ TlsType.ldmP t = true := by
  revert t
  simp only [TlsType.Known]
  decide

theorem known_left (info : LinkInfo) {t : TlsType} (known : TlsType.Known t) (h : Option TlsSymbol) :
    tlsLeft info t h = mipsTlsGotRelocs info t h := by
  rw [tlsLeft, if_neg (known_done known).1]

theorem entry_relocs_zero (info : LinkInfo) {t : TlsType} (known : TlsType.Known t) (h : Option TlsSymbol)
    (ldm : TlsType.ldmP t = true → h = none) :
    mipsTlsGotRelocs info t h = 0 ↔ (t ≠ gotNormal → tlsNeedRelocs info h = false) := by
  constructor
  · intro none asked
    by_contra need
    have needed : tlsNeedRelocs info h = true := by simpa using need
    rw [tls_got_relocs_sum, Nat.add_eq_zero_iff, Nat.add_eq_zero_iff] at none
    rcases none with ⟨⟨noGd, noIe⟩, noLdm⟩
    rcases known_flags known asked with gd | ie | isLdm
    · rw [if_pos gd, if_pos needed] at noGd
      split at noGd <;> omega
    · rw [if_pos ie, if_pos needed] at noIe
      omega
    · have shared : info.shared = true := by rwa [ldm isLdm, need_relocs_none] at needed
      rw [if_pos (of_decide_eq_true isLdm), if_pos ⟨needed, shared⟩] at noLdm
      omega
  · intro none
    by_cases asked : t ≠ gotNormal
    · rw [mipsTlsGotRelocs, none asked]
      rfl
    · rw [not_not.mp asked]
      exact tls_got_relocs_normal info h

theorem Renumbered.relocs {h final : TlsSymbol} (renumbered : Renumbered h final) (info : LinkInfo) (t : TlsType) :
    mipsTlsGotRelocs info t (some final) = mipsTlsGotRelocs info t (some h) := by
  have same := renumbered.same
  have zero : tlsIndx info (some final) ≠ 0 ↔ tlsIndx info (some h) ≠ 0 := by
    rw [← same, tlsIndx, tlsIndx]
    dsimp only
    split
    · exact not_congr renumbered.zero
    · exact Iff.rfl
  have need : tlsNeedRelocs info (some final) = tlsNeedRelocs info (some h) := by
    have index : (tlsIndx info (some final) != 0) = (tlsIndx info (some h) != 0) := by
      rw [Bool.eq_iff_iff, bne_iff_ne, bne_iff_ne]
      exact zero
    rw [tlsNeedRelocs, tlsNeedRelocs, index]
    rw [← same]
  simp only [tls_got_relocs_sum, need, zero]

omit [DecidableEq β] [DecidableEq η] in
theorem symbol_of_renumbered {sym final : η → TlsSymbol} (renumbered : ∀ h, Renumbered (sym h) (final h))
    (info : LinkInfo) (t : TlsType) (key : GotKey β η) :
    mipsTlsGotRelocs info t (key.symbolOf final) = mipsTlsGotRelocs info t (key.symbolOf sym) := by
  cases key with
  | address a => rfl
  | symbol b symndx addend => rfl
  | «global» b h => exact (renumbered h).relocs info t

section Holders

variable {got : Option π} {entries : List (PlacedEntry β η)} {p : GotEntry β η → Bool}

omit [DecidableEq π] [DecidableEq β] [DecidableEq η] in
theorem mem_entry_holders {holder : TlsHolder π η} :
    holder ∈ entryHolders got entries p ↔
      ∃ i placed, entries[i]? = some placed ∧ p placed.entry = true ∧ holder = .entry got i := by
  rw [entryHolders, List.mem_map]
  constructor
  · rintro ⟨e, member, rfl⟩
    rcases List.mem_filter.mp member with ⟨isEntry, chosen⟩
    exact ⟨e.2, e.1, List.mem_zipIdx_iff_getElem?.mp isEntry, chosen, rfl⟩
  · rintro ⟨i, placed, isEntry, chosen, rfl⟩
    exact ⟨(placed, i), List.mem_filter.mpr ⟨List.mem_zipIdx_iff_getElem?.mpr isEntry, chosen⟩, rfl⟩

omit [DecidableEq π] [DecidableEq β] [DecidableEq η] in
theorem entry_holders_nodup (got : Option π) (entries : List (PlacedEntry β η)) (p : GotEntry β η → Bool) :
    (entryHolders got entries p).Nodup := by
  have indices : ((entries.zipIdx.filter fun e => p e.1.entry).map Prod.snd).Nodup := by
    apply List.Nodup.sublist (List.Sublist.map _ List.filter_sublist)
    rw [List.zipIdx_map_snd]
    exact List.nodup_range'
  have through : entryHolders got entries p =
      ((entries.zipIdx.filter fun e => p e.1.entry).map Prod.snd).map fun i => .entry got i := by
    rw [entryHolders, List.map_map]
    rfl
  rw [through]
  exact indices.map fun i j same => (TlsHolder.entry.inj same).2

omit [DecidableEq π] [DecidableEq β] [DecidableEq η] in
theorem entry_holders_left (info : LinkInfo) (sym : η → TlsSymbol) (m : TlsGots π β η) (got : Option π)
    (p : GotEntry β η → Bool)
    (known : ∀ entry ∈ ((m.table got).map PlacedEntry.entry).filter p, TlsType.Known entry.tlsType) :
    allLeft (tlsLeftAt info sym) (entryHolders got (m.table got) p) m =
      tlsShare info sym (((m.table got).map PlacedEntry.entry).filter p) := by
  have own : ∀ e ∈ (m.table got).zipIdx.filter fun e => p e.1.entry,
      tlsLeftAt info sym m (.entry got e.2) = entryRelocs info sym e.1.entry := by
    intro e member
    rcases List.mem_filter.mp member with ⟨isEntry, chosen⟩
    have found : (m.table got)[e.2]? = some e.1 := List.mem_zipIdx_iff_getElem?.mp isEntry
    have isKnown : TlsType.Known e.1.entry.tlsType :=
      known _ (List.mem_filter.mpr ⟨List.mem_map_of_mem (List.fst_mem_of_mem_zipIdx isEntry), chosen⟩)
    simp only [tlsLeftAt, found]
    exact known_left info isKnown _
  calc
    allLeft (tlsLeftAt info sym) (entryHolders got (m.table got) p) m
        = (((m.table got).zipIdx.filter fun e => p e.1.entry).map fun e => entryRelocs info sym e.1.entry).sum := by
          rw [allLeft, entryHolders, List.map_map]
          exact congrArg List.sum (List.map_congr_left own)
    _ = ((((m.table got).zipIdx.map Prod.fst).filter fun placed => p placed.entry).map fun placed =>
          entryRelocs info sym placed.entry).sum := by
          rw [List.filter_map, List.map_map]
          rfl
    _ = tlsShare info sym (((m.table got).map PlacedEntry.entry).filter p) := by
          rw [List.zipIdx_map_fst, tlsShare, List.filter_map, List.map_map]
          rfl

end Holders

omit [DecidableEq π] [DecidableEq β] [DecidableEq η] in
theorem symbols_left (info : LinkInfo) {sym final : η → TlsSymbol} (m : TlsGots π β η) {hash : HashTls η}
    (indexed : IndexedOnly hash m.hash) (known : ∀ h, TlsType.Known (hash.tlsType h))
    (renumbered : ∀ h, Renumbered (sym h) (final h)) (symbols : List η) :
    allLeft (tlsLeftAt info final) (symbols.map .symbol) m = symbolShare info sym hash.tlsType symbols := by
  rw [allLeft, List.map_map, symbolShare]
  congr 1
  apply List.map_congr_left
  intro h _
  change tlsLeft info (m.hash.tlsType h) (some (final h)) = _
  rcases indexed h with kept | set
  · rw [kept, known_left info (known h), (renumbered h).relocs]
  · rw [set, tlsLeft, if_neg (known_done (known h)).2, tls_got_relocs_congr info _ (offset_done_flags _),
      (renumbered h).relocs]

omit [DecidableEq π] [DecidableEq β] [DecidableEq η] in
theorem share_renumbered (info : LinkInfo) {sym final : η → TlsSymbol}
    (renumbered : ∀ h, Renumbered (sym h) (final h)) (entries : List (GotEntry β η)) :
    tlsShare info final entries = tlsShare info sym entries := by
  rw [tlsShare, tlsShare]
  congr 1
  apply List.map_congr_left
  intro entry _
  exact symbol_of_renumbered renumbered info entry.tlsType entry.key

structure Ready (info : LinkInfo) (final : η → TlsSymbol) (holders : List (TlsHolder π η)) (needed : Nat)
    (m : TlsGots π β η) : Prop where
  nodup : holders.Nodup
  plain : ∀ i ∈ holders, PlainAt m i
  left : allLeft (tlsLeftAt info final) holders m = needed

omit [DecidableEq β] in
theorem Ready.fits_iff {c : TlsConf} {final : η → TlsSymbol} {holders : List (TlsHolder π η)} {needed : Nat}
    {m : TlsGots π β η} (ready : Ready c.info final holders needed m) (room : Nat) :
    (∀ calls : List (TlsCall π η), (∀ call ∈ calls, call.holder ∈ holders) →
      (calls.foldl (TlsGots.call c final) m).out.relDyn.length ≤ m.out.relDyn.length + room) ↔ needed ≤ room := by
  rw [← ready.left]
  exact (tls_calls_spend c final holders).fits_iff ready.nodup ready.plain
    (fun holder => ⟨holder, .rMipsTlsGd, 0⟩) (fun _ => rfl) room

omit [DecidableEq π] [DecidableEq β] [DecidableEq η] in
theorem plain_entry {m : TlsGots π β η} {got : Option π} {i : Nat} {entries : List (GotEntry β η)}
    (within : ∀ entry ∈ (m.table got).map PlacedEntry.entry, entry ∈ entries)
    (ldm : ∀ entry ∈ entries, entry.ldm = true → ∀ b h, entry.key ≠ .global b h) : PlainAt m (.entry got i) := by
  intro placed isEntry
  exact ldm placed.entry (within _ (List.mem_map_of_mem (List.mem_of_getElem? isEntry)))

namespace TlsLink

variable {link : TlsLink π β η}

def needed (link : TlsLink π β η) : Nat :=
  match link.layout with
  | .single l => tlsShare link.conf.info link.sym (l.table.entries.filter (·.key.localP)) +
      symbolShare link.conf.info link.sym link.hash.tlsType l.symbols
  | .several l => ((l.primary :: l.others).map fun p => tlsShare link.conf.info link.sym (l.got p).entries).sum

section Ready

variable {c : TlsConf} {sym final : η → TlsSymbol} {hash : HashTls η}

omit [DecidableEq β] in
theorem ready_single (l : SingleLayout β η)
    (recorded : Recorded (⟨c, sym, final, hash, .single l⟩ : TlsLink π β η)) (out : TlsOutput) :
    let link : TlsLink π β η := ⟨c, sym, final, hash, .single l⟩
    Ready c.info final (link.holders (link.start out)) link.needed (link.start out) := by
  intro link
  have laid := lay_out_single c.format c.info sym hash l
  have within : ∀ entry ∈ (l.layOutGot c.format c.info sym hash).1.entries, entry ∈ l.table.entries :=
    fun entry member => laid.entries.subset member
  refine ⟨?_, ?_, ?_⟩
  · apply List.Nodup.append (entry_holders_nodup _ _ _)
    · exact recorded.distinct.map fun h h' same => TlsHolder.symbol.inj same
    · intro holder isEntry isSymbol
      rcases mem_entry_holders.mp isEntry with ⟨i, placed, _, _, rfl⟩
      rcases List.mem_map.mp isSymbol with ⟨h, _, same⟩
      cases same
  · intro holder member
    rcases List.mem_append.mp member with isEntry | isSymbol
    · rcases mem_entry_holders.mp isEntry with ⟨i, placed, _, _, rfl⟩
      exact plain_entry within recorded.ldm
    · rcases List.mem_map.mp isSymbol with ⟨h, _, rfl⟩
      have plain := (recorded.symbols h).2
      have keeps : ∀ t : TlsType, TlsType.ldmP (t ||| gotTlsOffsetDone) = TlsType.ldmP t := by decide
      rcases laid.indexed h with kept | set
      · exact (congrArg TlsType.ldmP kept).trans plain
      · exact (congrArg TlsType.ldmP set).trans ((keeps _).trans plain)
  · have locals := entry_holders_left c.info final (link.start out) none (·.key.localP) (by
        intro entry member
        exact recorded.types entry (within entry (List.mem_filter.mp member).1))
    have globals := symbols_left c.info (link.start out) laid.indexed
      (fun h => (recorded.symbols h).1) recorded.renumbered l.symbols
    have shares := (share_renumbered c.info recorded.renumbered _).trans
      (tls_share_perm c.info sym (laid.entries.filter (·.key.localP)))
    exact (allLeft_append _ _ _ _).trans (congrArg₂ (· + ·) (locals.trans shares) globals)

omit [DecidableEq β] in
theorem ready_several (l : SplitLayout π β η)
    (recorded : Recorded (⟨c, sym, final, hash, .several l⟩ : TlsLink π β η)) (out : TlsOutput) :
    let link : TlsLink π β η := ⟨c, sym, final, hash, .several l⟩
    Ready c.info final (link.holders (link.start out)) link.needed (link.start out) := by
  intro link
  have laid := lay_out_gots_reserved c.info sym l.area ⟨c.format, l.reservedGotno, l.pages⟩ l.walks l.master l.got
    l.bfd2got hash l.primary l.others
  have within : ∀ p ∈ l.primary :: l.others, ∀ entry ∈ ((l.laid c sym hash).gots.got p).entries,
      entry ∈ (l.primary :: l.others).flatMap fun p => (l.got p).entries :=
    fun p isTable entry member => List.mem_flatMap.mpr ⟨p, isTable, (laid.kept p).subset member⟩
  refine ⟨?_, ?_, ?_⟩
  · apply List.nodup_flatMap.mpr
    refine ⟨fun p _ => entry_holders_nodup _ _ _, recorded.distinct.imp ?_⟩
    intro p q different holder isFirst isSecond
    rcases mem_entry_holders.mp isFirst with ⟨i, placed, _, _, rfl⟩
    rcases mem_entry_holders.mp isSecond with ⟨j, placed', _, _, same⟩
    exact different (Option.some.inj (TlsHolder.entry.inj same).1)
  · intro holder member
    rcases List.mem_flatMap.mp member with ⟨p, isTable, isEntry⟩
    rcases mem_entry_holders.mp isEntry with ⟨i, placed, _, _, rfl⟩
    exact plain_entry (within p isTable) recorded.ldm
  · have shares : ∀ p ∈ l.primary :: l.others,
        allLeft (tlsLeftAt c.info final)
            (entryHolders (some p) ((l.laid c sym hash).gots.got p).gotEntries fun _ => true) (link.start out) =
          tlsShare c.info sym (l.got p).entries := by
      intro p isTable
      have own := entry_holders_left c.info final (link.start out) (some p) (fun _ => true) (by
        intro entry member
        exact recorded.types entry (within p isTable entry (List.mem_filter.mp member).1))
      rw [List.filter_true] at own
      exact own.trans ((share_renumbered c.info recorded.renumbered _).trans (tls_share_perm c.info sym (laid.kept p)))
    exact (allLeft_flatMap _ _ _ _).trans (congrArg List.sum (List.map_congr_left shares))

end Ready

omit [DecidableEq β] in
theorem Recorded.ready (recorded : link.Recorded) (out : TlsOutput) :
    Ready link.conf.info link.final (link.holders (link.start out)) link.needed (link.start out) := by
  rcases link with ⟨c, sym, final, hash, layout⟩
  cases layout with
  | single l => exact ready_single l recorded out
  | several l => exact ready_several l recorded out

omit [DecidableEq β] in
theorem needed_fits_iff (recorded : link.Recorded) : link.needed ≤ link.reserved.toNat ↔ link.Covered := by
  rcases link with ⟨c, sym, final, hash, layout⟩
  have types := recorded.types
  have ldm := recorded.ldm
  have wraps : ∀ n : Nat, n ≤ (BitVec.ofNat 32 n).toNat ↔ n < 2 ^ 32 := by
    intro n
    rw [BitVec.toNat_ofNat]
    omega
  cases layout with
  | single l =>
      have reserved := (lay_out_single c.format c.info sym hash l).needed
      change tlsShare c.info sym _ + _ ≤ (l.layOutGot c.format c.info sym hash).2.2.toNat ↔
        if c.format.isVxworks then tlsShare c.info sym _ + _ = 0 else tlsShare c.info sym _ + _ < 2 ^ 32
      rw [reserved]
      by_cases vxworks : c.format.isVxworks = true
      · rw [if_pos vxworks, if_pos vxworks]
        exact Nat.le_zero
      · rw [if_neg vxworks, if_neg vxworks, wraps]
  | several l =>
      have reserved := (lay_out_gots_reserved c.info sym l.area ⟨c.format, l.reservedGotno, l.pages⟩ l.walks l.master
        l.got l.bfd2got hash l.primary l.others).tls
      have primary : tlsShare c.info sym (l.got l.primary).entries = 0 ↔
          ∀ entry ∈ (l.got l.primary).entries, entry.tlsType ≠ gotNormal →
            tlsNeedRelocs c.info (entry.key.symbolOf sym) = false := by
        rw [tlsShare, List.sum_eq_zero_iff]
        simp only [List.mem_map, forall_exists_index, and_imp, forall_apply_eq_imp_iff₂]
        refine forall₂_congr fun entry member => ?_
        have isEntry : entry ∈ (⟨c, sym, final, hash, .several l⟩ : TlsLink π β η).entries :=
          List.mem_flatMap.mpr ⟨l.primary, List.mem_cons_self, member⟩
        apply entry_relocs_zero c.info (types entry isEntry)
        intro isLdm
        cases isKey : entry.key with
        | «global» b h => exact absurd isKey (ldm entry isEntry isLdm b h)
        | address a => rfl
        | symbol b symndx addend => rfl
      change ((l.primary :: l.others).map fun p => tlsShare c.info sym (l.got p).entries).sum ≤
        (LaidOut.tlsReserved c.info sym (l.laid c sym hash)).toNat ↔ _ ∧ _
      rw [SplitLayout.laid, reserved, List.map_cons, List.sum_cons, ← primary]
      constructor
      · intro fits
        have wrapped := wraps (l.others.map fun p => tlsShare c.info sym (l.got p).entries).sum
        have below : (BitVec.ofNat 32 (l.others.map fun p => tlsShare c.info sym (l.got p).entries).sum).toNat ≤
            (l.others.map fun p => tlsShare c.info sym (l.got p).entries).sum := by
          rw [BitVec.toNat_ofNat]
          exact Nat.mod_le _ _
        exact ⟨by omega, wrapped.mp (by omega)⟩
      · rintro ⟨none, small⟩
        have wrapped := (wraps (l.others.map fun p => tlsShare c.info sym (l.got p).entries).sum).mpr small
        omega

omit [DecidableEq β] in
theorem relocs_fit_iff_needed (recorded : link.Recorded) : link.RelocsFit ↔ link.needed ≤ link.reserved.toNat := by
  have same : ∀ out, (link.start out).out = out := by
    intro out
    rw [TlsLink.start]
    split <;> rfl
  constructor
  · intro fits
    have out : TlsOutput := ⟨fun _ => 0, []⟩
    apply ((recorded.ready out).fits_iff link.reserved.toNat).mp
    rw [same]
    exact fits out
  · intro enough out
    have fits := ((recorded.ready out).fits_iff link.reserved.toNat).mpr enough
    rwa [same] at fits

end TlsLink

end Openisa.Got
