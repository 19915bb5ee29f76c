import Openisa.Got.TlsRelocs

/-! Relocations of the inputs as calls of `mips_tls_got_index`. -/

namespace Openisa.Got

open Openisa.Bfd

variable {π β η : Type} [DecidableEq π] [DecidableEq β] [DecidableEq η]

omit [DecidableEq β] [DecidableEq η] in
theorem multi_slot_global {entry : GotEntry β η} {h : η} (slot : entry.multiSlot = .global h) :
    ∃ b, entry.key = .global b h := by
  revert slot
  rw [GotEntry.multiSlot]
  cases entry.ldm <;> cases isKey : entry.key <;> simp_all

omit [DecidableEq β] [DecidableEq η] in
theorem multi_slot_symbol {entry : GotEntry β η} {b : β} {symndx : Nat} {addend : BitVec 64}
    (slot : entry.multiSlot = .symbol b symndx addend) : entry.key = .symbol b symndx addend := by
  revert slot
  rw [GotEntry.multiSlot]
  cases entry.ldm <;> cases isKey : entry.key <;> simp_all

omit [DecidableEq β] [DecidableEq η] in
theorem multi_slot_ldm {entry : GotEntry β η} (slot : entry.multiSlot = .ldm) : entry.ldm = true := by
  revert slot
  rw [GotEntry.multiSlot]
  cases entry.ldm <;> cases entry.key <;> simp

theorem lookup_symbol {several : Bool} {ibfd : β} {symndx : Nat} {h : Option η} {rType : MipsReloc}
    {entry : GotEntry β η} (ldm : rType.tlsLdmRelocP = true → h = none)
    (plain : several = true → entry.ldm = true → ∀ b h', entry.key ≠ .global b h')
    (found : gotEntryEq several (tlsLookupEntry ibfd symndx h rType) entry = true) :
    (h = none ∧ (∀ b h', entry.key ≠ .global b h') ∧ (several = false → entry.key.localP = true)) ∨
      ∃ h' b, h = some h' ∧ entry.key = .global b h' := by
  have normal : TlsType.ldmP gotNormal = false := by decide
  have isLdm : TlsType.ldmP gotTlsLdm = true := by decide
  simp only [tlsLookupEntry] at found
  cases several with
  | false =>
      change mipsElfGotEntryEq _ _ = true at found
      rw [got_entry_eq_iff] at found
      cases ldmReloc : rType.tlsLdmRelocP with
      | true =>
          rw [ldmReloc, if_pos rfl] at found
          have key : entry.key = .symbol ibfd 0 0 := found.2.symm
          exact Or.inl ⟨ldm ldmReloc, by simp [key], fun _ => by rw [key]; rfl⟩
      | false =>
          rw [ldmReloc, if_neg Bool.false_ne_true] at found
          cases h with
          | none =>
              have key : entry.key = .symbol ibfd symndx 0 := found.2.symm
              exact Or.inl ⟨rfl, by simp [key], fun _ => by rw [key]; rfl⟩
          | some h => exact Or.inr ⟨h, ibfd, rfl, found.2.symm⟩
  | true =>
      change mipsElfMultiGotEntryEq _ _ = true at found
      rw [multi_got_entry_eq_iff] at found
      cases ldmReloc : rType.tlsLdmRelocP with
      | true =>
          rw [ldmReloc, if_pos rfl] at found
          have entryLdm : entry.ldm = true := by
            apply multi_slot_ldm
            rw [← found]
            simp [GotEntry.multiSlot, GotEntry.ldm, isLdm]
          exact Or.inl ⟨ldm ldmReloc, plain rfl entryLdm, fun single => by cases single⟩
      | false =>
          rw [ldmReloc, if_neg Bool.false_ne_true] at found
          cases h with
          | none =>
              have key : entry.key = .symbol ibfd symndx 0 := by
                apply multi_slot_symbol
                rw [← found]
                simp [GotEntry.multiSlot, GotEntry.ldm, normal]
              exact Or.inl ⟨rfl, by simp [key], fun single => by cases single⟩
          | some h =>
              have key : ∃ b, entry.key = .global b h := multi_slot_global (by
                rw [← found]
                simp [GotEntry.multiSlot, GotEntry.ldm, normal])
              rcases key with ⟨b, isKey⟩
              exact Or.inr ⟨h, b, rfl, isKey⟩

omit [DecidableEq π] in
theorem find_entry {m : TlsGots π β η} {got : Option π} {wanted : GotEntry β η} {i : Nat}
    (found : m.find got wanted = some i) :
    ∃ placed, (m.table got)[i]? = some placed ∧ gotEntryEq m.several wanted placed.entry = true := by
  rw [TlsGots.find, List.findIdx?_eq_some_iff_getElem] at found
  rcases found with ⟨inside, isSame, _⟩
  exact ⟨(m.table got)[i], List.getElem?_eq_getElem inside, isSame⟩

structure Alike (before m : TlsGots π β η) : Prop where
  several : m.several = before.several
  gotFor : m.gotFor = before.gotFor
  outputGot : m.outputGot = before.outputGot
  keys : ∀ got, (m.table got).map (·.entry.key) = (before.table got).map (·.entry.key)

omit [DecidableEq π] [DecidableEq β] [DecidableEq η] in
theorem Alike.same_key {before m : TlsGots π β η} (alike : Alike before m) {got : Option π} {i : Nat}
    {placed : PlacedEntry β η} (isEntry : (m.table got)[i]? = some placed) :
    ∃ placed', (before.table got)[i]? = some placed' ∧ placed'.entry.key = placed.entry.key := by
  have key := congrArg (·[i]?) (alike.keys got)
  simp only [List.getElem?_map, isEntry, Option.map_some] at key
  rcases Option.map_eq_some_iff.mp key.symm with ⟨placed', isOld, same⟩
  exact ⟨placed', isOld, same⟩

omit [DecidableEq β] in
theorem Alike.call {before m : TlsGots π β η} (alike : Alike before m) (c : TlsConf) (sym : η → TlsSymbol)
    (call : TlsCall π η) : Alike before (m.call c sym call) := by
  rcases call with ⟨holder, rType, value⟩
  cases holder with
  | symbol h => exact ⟨alike.several, alike.gotFor, alike.outputGot, alike.keys⟩
  | entry got i =>
      cases found : (m.table got)[i]? with
      | none =>
          rw [call_missing found]
          exact alike
      | some placed =>
          simp only [TlsGots.call, TlsGots.gotIndex, found]
          refine ⟨alike.several, alike.gotFor, alike.outputGot, ?_⟩
          intro got'
          rw [← alike.keys got']
          by_cases own : got' = got
          · rw [own]
            dsimp only
            rw [Function.update_self]
            apply List.ext_getElem?
            intro j
            rw [List.getElem?_map, List.getElem?_map, List.getElem?_set]
            by_cases same : i = j
            · have inside : i < (m.table got).length := (List.getElem?_eq_some_iff.mp found).1
              rw [if_pos same, if_pos inside, ← same, found]
              rfl
            · rw [if_neg same]
          · dsimp only
            rw [Function.update_of_ne own]

def TlsLink.Closed (link : TlsLink π β η) : Prop :=
  match link.layout with
  | .single l => ∀ h, h ∈ l.symbols
  | .several l => ∀ ibfd p, l.bfd2got ibfd = some p → p ∈ l.primary :: l.others

/-- The holder is one that relocations are counted for, and the symbol is its own. -/
def Handled (link : TlsLink π β η) (out : TlsOutput) (m : TlsGots π β η) (holder : TlsHolder π η)
    (h : Option η) : Prop :=
  holder ∈ link.holders (link.start out) ∧ m.symbolOf holder = h

variable {link : TlsLink π β η} {out : TlsOutput} {m : TlsGots π β η}

omit [DecidableEq π] [DecidableEq β] [DecidableEq η] in
theorem symbol_of_key {got : Option π} {i : Nat} {placed : PlacedEntry β η} (isEntry : (m.table got)[i]? = some placed)
    {h : Option η} (key : (h = none ∧ ∀ b h', placed.entry.key ≠ .global b h') ∨
      ∃ h' b, h = some h' ∧ placed.entry.key = .global b h') : m.symbolOf (.entry got i) = h := by
  rcases placed with ⟨⟨isKey, tlsType⟩, gotidx⟩
  rw [TlsGots.symbolOf, isEntry]
  rcases key with ⟨rfl, notGlobal⟩ | ⟨h', b, rfl, isGlobal⟩
  · cases isKey with
    | «global» b h => exact absurd rfl (notGlobal b h)
    | address a => rfl
    | symbol b symndx addend => rfl
  · cases isGlobal
    rfl

omit [DecidableEq β] in
theorem several_holder {l : SplitLayout π β η} (isSeveral : link.layout = .several l)
    (alike : Alike (link.start out) m) {p : π} (isTable : p ∈ l.primary :: l.others) {i : Nat}
    {placed : PlacedEntry β η} (isEntry : (m.table (some p))[i]? = some placed) :
    .entry (some p) i ∈ link.holders (link.start out) := by
  rcases alike.same_key isEntry with ⟨placed', isOld, _⟩
  rw [TlsLink.holders, isSeveral]
  exact List.mem_flatMap.mpr ⟨p, isTable, mem_entry_holders.mpr ⟨i, placed', isOld, rfl, rfl⟩⟩

omit [DecidableEq β] in
theorem single_start {l : SingleLayout β η} (isSingle : link.layout = .single l) (alike : Alike (link.start out) m) :
    m.several = false ∧ ∀ ibfd, (m.gotFor ibfd).getD m.outputGot = none := by
  have several := alike.several
  have gotFor := alike.gotFor
  rw [TlsLink.start, isSingle] at several gotFor
  refine ⟨several, ?_⟩
  intro ibfd
  rw [gotFor]
  rfl

omit [DecidableEq β] in
theorem several_start {l : SplitLayout π β η} (isSeveral : link.layout = .several l)
    (alike : Alike (link.start out) m) :
    m.several = true ∧ m.outputGot = some l.primary ∧ ∀ ibfd, m.gotFor ibfd = (l.bfd2got ibfd).map some := by
  have several := alike.several
  have outputGot := alike.outputGot
  have gotFor := alike.gotFor
  rw [TlsLink.start, isSeveral] at several outputGot gotFor
  have map : (l.laid link.conf link.sym link.hash).gots.bfd2got = l.bfd2got :=
    (lay_out_gots_reserved link.conf.info link.sym l.area _ _ _ _ _ _ _ _).bfd2got
  refine ⟨several, outputGot, ?_⟩
  intro ibfd
  rw [gotFor, ← map]
  rfl

theorem single_handled {l : SingleLayout β η} (isSingle : link.layout = .single l) (known : ∀ h, h ∈ l.symbols)
    (alike : Alike (link.start out) m) {ibfd : β} {symndx : Nat} {h : Option η} {rType : MipsReloc}
    (ldm : rType.tlsLdmRelocP = true → h = none) {holder : TlsHolder π η}
    (resolved : localTlsHolder m ibfd symndx h rType = some holder) : Handled link out m holder h := by
  rcases single_start isSingle alike with ⟨several, master⟩
  rw [localTlsHolder, master] at resolved
  cases found : m.find none (tlsLookupEntry ibfd symndx h rType) with
  | none =>
      simp only [found] at resolved
      cases resolved
  | some i =>
      simp only [found] at resolved
      rcases find_entry found with ⟨placed, isEntry, isSame⟩
      rw [several] at isSame resolved
      rw [isEntry] at resolved
      rcases lookup_symbol ldm (fun single => by cases single) isSame with
        ⟨noSymbol, notGlobal, isLocal⟩ | ⟨h', b, isSymbol, key⟩
      · have entryHolder : holder = .entry none i := by
          rcases placed with ⟨⟨key, tlsType⟩, gotidx⟩
          cases key with
          | «global» b h => exact absurd rfl (notGlobal b h)
          | address a => exact (Option.some.inj resolved).symm
          | symbol b symndx addend => exact (Option.some.inj resolved).symm
        rw [entryHolder]
        refine ⟨?_, symbol_of_key isEntry (Or.inl ⟨noSymbol, notGlobal⟩)⟩
        rcases alike.same_key isEntry with ⟨placed', isOld, key⟩
        rw [TlsLink.holders, isSingle]
        apply List.mem_append_left
        refine mem_entry_holders.mpr ⟨i, placed', isOld, ?_, rfl⟩
        rw [key]
        exact isLocal rfl
      · rcases placed with ⟨⟨isKey, tlsType⟩, gotidx⟩
        cases key
        rw [isSymbol] at resolved
        cases resolved
        refine ⟨?_, isSymbol.symm⟩
        rw [TlsLink.holders, isSingle]
        exact List.mem_append_right _ (List.mem_map_of_mem (known h'))

theorem several_handled {l : SplitLayout π β η} (isSeveral : link.layout = .several l)
    (alike : Alike (link.start out) m) (plain : ∀ i ∈ link.holders (link.start out), PlainAt m i) {p : π}
    (isTable : p ∈ l.primary :: l.others) {ibfd : β} {symndx : Nat} {h : Option η} {rType : MipsReloc}
    (ldm : rType.tlsLdmRelocP = true → h = none) {i : Nat}
    (found : m.find (some p) (tlsLookupEntry ibfd symndx h rType) = some i) :
    Handled link out m (.entry (some p) i) h := by
  rcases find_entry found with ⟨placed, isEntry, isSame⟩
  have inHolders := several_holder isSeveral alike isTable isEntry
  rw [(several_start isSeveral alike).1] at isSame
  refine ⟨inHolders, symbol_of_key isEntry ?_⟩
  rcases lookup_symbol ldm (fun _ => plain _ inHolders placed isEntry) isSame with
    ⟨noSymbol, notGlobal, _⟩ | isGlobal
  · exact Or.inl ⟨noSymbol, notGlobal⟩
  · exact Or.inr isGlobal

theorem local_handled (closed : link.Closed) (alike : Alike (link.start out) m)
    (plain : ∀ i ∈ link.holders (link.start out), PlainAt m i) {ibfd : β} {symndx : Nat} {h : Option η}
    {rType : MipsReloc} (ldm : rType.tlsLdmRelocP = true → h = none) {holder : TlsHolder π η}
    (resolved : localTlsHolder m ibfd symndx h rType = some holder) : Handled link out m holder h := by
  rw [TlsLink.Closed] at closed
  cases layout : link.layout with
  | single l =>
      rw [layout] at closed
      exact single_handled layout closed alike ldm resolved
  | several l =>
      rw [layout] at closed
      rcases several_start layout alike with ⟨several, outputGot, gotFor⟩
      have table : ∃ p ∈ l.primary :: l.others, (m.gotFor ibfd).getD m.outputGot = some p := by
        rw [gotFor, outputGot]
        cases mapped : l.bfd2got ibfd with
        | none => exact ⟨l.primary, List.mem_cons_self, rfl⟩
        | some p => exact ⟨p, closed ibfd p mapped, rfl⟩
      rcases table with ⟨p, isTable, got⟩
      rw [localTlsHolder, got] at resolved
      cases found : m.find (some p) (tlsLookupEntry ibfd symndx h rType) with
      | none =>
          simp only [found] at resolved
          cases resolved
      | some i =>
          have entryHolder : holder = .entry (some p) i := by
            rw [several] at resolved
            simp only [found] at resolved
            split at resolved
            · next single => cases single
            · exact (Option.some.inj resolved).symm
          rw [entryHolder]
          exact several_handled layout alike plain isTable ldm found

theorem global_handled (closed : link.Closed) (alike : Alike (link.start out) m)
    (plain : ∀ i ∈ link.holders (link.start out), PlainAt m i) {ibfd : β} {h : η} {holder : TlsHolder π η}
    (resolved : globalTlsHolder m ibfd h = some holder) : Handled link out m holder (some h) := by
  rw [TlsLink.Closed] at closed
  cases layout : link.layout with
  | single l =>
      rw [layout] at closed
      rw [globalTlsHolder, (single_start layout alike).1] at resolved
      cases resolved
      refine ⟨?_, rfl⟩
      rw [TlsLink.holders, layout]
      exact List.mem_append_right _ (List.mem_map_of_mem (closed h))
  | several l =>
      rw [layout] at closed
      rcases several_start layout alike with ⟨several, _, gotFor⟩
      rw [globalTlsHolder, several, if_pos rfl, gotFor] at resolved
      cases mapped : l.bfd2got ibfd with
      | none =>
          rw [mapped] at resolved
          cases resolved
      | some p =>
          rw [mapped] at resolved
          rcases Option.map_eq_some_iff.mp resolved with ⟨i, found, rfl⟩
          have asLocal : m.find (some p) (tlsLookupEntry ibfd 0 (some h) .rMipsTlsGd) = some i := found
          exact several_handled layout alike plain (closed ibfd p mapped) (fun ldm => by cases ldm) asLocal

theorem request_call (closed : link.Closed) (alike : Alike (link.start out) m)
    (plain : ∀ i ∈ link.holders (link.start out), PlainAt m i) (request : TlsRequest β η) :
    (request.serve link.conf link.final m).1 = m ∨
      ∃ call : TlsCall π η, call.holder ∈ link.holders (link.start out) ∧
        (request.serve link.conf link.final m).1 = m.call link.conf link.final call := by
  have called : ∀ {holder : TlsHolder π η} {h : Option η} {rType : MipsReloc} {value : BfdVma},
      Handled link out m holder h →
      ∃ call : TlsCall π η, call.holder ∈ link.holders (link.start out) ∧
        (m.gotIndex link.conf link.final holder h rType value).1 = m.call link.conf link.final call := by
    intro holder h rType value handled
    refine ⟨⟨holder, rType, value⟩, handled.1, ?_⟩
    rw [TlsGots.call, handled.2]
  cases request with
  | ofLocal ibfd symndx h rType value =>
      rw [TlsRequest.serve]
      have ldm : rType.tlsLdmRelocP = true →
          (if rType.tlsLdmRelocP then ((0 : Nat), (none : Option η), (0 : BfdVma)) else (symndx, h, value)).2.1 = none := by
        intro isLdm
        rw [if_pos isLdm]
      generalize (if rType.tlsLdmRelocP then ((0 : Nat), (none : Option η), (0 : BfdVma)) else (symndx, h, value)) =
        asked at ldm ⊢
      dsimp only
      cases resolved : localTlsHolder m ibfd asked.1 asked.2.1 rType with
      | none => exact Or.inl rfl
      | some holder => exact Or.inr (called (local_handled closed alike plain ldm resolved))
  | ofGlobal ibfd h rType value =>
      simp only [TlsRequest.serve]
      cases resolved : globalTlsHolder m ibfd h with
      | none => exact Or.inl rfl
      | some holder => exact Or.inr (called (global_handled closed alike plain resolved))

theorem requests_run (out : TlsOutput) (recorded : link.Recorded) (closed : link.Closed) (requests : List (TlsRequest β η)) :
    ∃ calls : List (TlsCall π η), (∀ call ∈ calls, call.holder ∈ link.holders (link.start out)) ∧
      requests.foldl (fun m request => (request.serve link.conf link.final m).1) (link.start out) =
        calls.foldl (TlsGots.call link.conf link.final) (link.start out) := by
  have run : ∀ m : TlsGots π β η, Alike (link.start out) m → (∀ i ∈ link.holders (link.start out), PlainAt m i) →
      ∃ calls : List (TlsCall π η), (∀ call ∈ calls, call.holder ∈ link.holders (link.start out)) ∧
        requests.foldl (fun m request => (request.serve link.conf link.final m).1) m =
          calls.foldl (TlsGots.call link.conf link.final) m := by
    induction requests with
    | nil => exact fun m _ _ => ⟨[], fun _ member => absurd member List.not_mem_nil, rfl⟩
    | cons request rest ih =>
        intro m alike plain
        rw [List.foldl_cons]
        rcases request_call closed alike plain request with unserved | ⟨call, known, served⟩
        · rw [unserved]
          exact ih m alike plain
        · rw [served]
          have kept := (tls_calls_spend link.conf link.final (link.holders (link.start out))).kept m call plain known
          rcases ih _ (alike.call link.conf link.final call) kept with ⟨calls, all, same⟩
          refine ⟨call :: calls, ?_, same⟩
          intro call' member
          rcases List.mem_cons.mp member with rfl | later
          · exact known
          · exact all call' later
  exact run _ ⟨rfl, rfl, rfl, fun _ => rfl⟩ (recorded.ready out).plain

/-- The room suffices for every run of calls exactly when, with several tables, no entry of the primary one needs
relocations, and the count does not wrap; and so it does for the relocations of the inputs, in any order. -/
theorem tls_relocs_fit_iff (link : TlsLink π β η) (recorded : link.Recorded) :
    (link.RelocsFit ↔ link.Covered) ∧ (link.Closed → link.Covered → ∀ out (requests : List (TlsRequest β η)),
      (requests.foldl (fun m request => (request.serve link.conf link.final m).1) (link.start out)).out.relDyn.length ≤
        out.relDyn.length + link.reserved.toNat) := by
  have fits : link.RelocsFit ↔ link.Covered :=
    (TlsLink.relocs_fit_iff_needed recorded).trans (TlsLink.needed_fits_iff recorded)
  refine ⟨fits, fun closed covered out requests => ?_⟩
  obtain ⟨calls, known, same⟩ := requests_run out recorded closed requests
  rw [same]
  exact fits.mpr covered out calls known

def sampleTlsConf : TlsConf := ⟨⟨.big, false, true, false, 0x10000⟩, ⟨true, true⟩, 0x8000, 0x7000, 0⟩

def preemptibleSymbol : TlsSymbol := ⟨true, false, 5, true, false, false, true⟩

/-- A table with one entry, as `check_relocs` and the split leave it. -/
def oneEntryGot (entry : GotEntry Nat Nat) (localGotno tlsGotno : BitVec 32) : LaidGot Nat Nat :=
  ⟨0, 0, tlsGotno, localGotno, 0, 0, 0, minusOne, [⟨entry, -1⟩]⟩

/-- A shared library with two tables: a General Dynamic entry for a global symbol in the one of the given number,
and an entry for an address in the other. -/
def twoTableLink (tls : Nat) : TlsLink Nat Nat Nat where
  conf := sampleTlsConf
  sym _ := preemptibleSymbol
  final _ := preemptibleSymbol
  hash := ⟨fun _ => 0, fun _ => 0⟩
  layout := .several {
    reservedGotno := 2
    pages := 1
    walks := ⟨.forward, .forward, fun _ => .forward, fun _ => .forward⟩
    master := ⟨0, 0, 2, 1, 0, 0, 0, minusOne, []⟩
    got := fun p => if p = tls then oneEntryGot ⟨.global p 7, gotTlsGd⟩ 0 2
      else oneEntryGot ⟨.symbol p 3 0, gotNormal⟩ 1 0
    bfd2got := fun b => if b = 0 ∨ b = 1 then some b else none
    area := fun _ => .none
    primary := 0
    others := [1] }

theorem preemptible_same : Renumbered preemptibleSymbol preemptibleSymbol := ⟨rfl, Iff.rfl⟩

theorem two_table_recorded (tls : Nat) : (twoTableLink tls).Recorded := by
  have table : ∀ entry ∈ (twoTableLink tls).entries,
      (∃ p, entry = ⟨.global p 7, gotTlsGd⟩) ∨ ∃ p, entry = ⟨.symbol p 3 0, gotNormal⟩ := by
    intro entry member
    rcases List.mem_flatMap.mp member with ⟨p, _, isEntry⟩
    change entry ∈ LaidGot.entries (if p = tls then _ else _) at isEntry
    split at isEntry
    · exact Or.inl ⟨p, List.mem_singleton.mp isEntry⟩
    · exact Or.inr ⟨p, List.mem_singleton.mp isEntry⟩
  have known : TlsType.Known gotTlsGd ∧ TlsType.Known gotNormal := ⟨rfl, rfl⟩
  have plain : TlsType.ldmP gotTlsGd = false ∧ TlsType.ldmP gotNormal = false := by decide
  refine ⟨(by decide : [0, 1].Nodup), ?_, ?_, fun _ => ⟨known.2, plain.2⟩, fun _ => preemptible_same⟩
  · intro entry member
    rcases table entry member with ⟨p, rfl⟩ | ⟨p, rfl⟩
    · exact known.1
    · exact known.2
  · intro entry member ldm
    rcases table entry member with ⟨p, rfl⟩ | ⟨p, rfl⟩
    · exact absurd (plain.1.symm.trans ldm) Bool.false_ne_true
    · exact absurd (plain.2.symm.trans ldm) Bool.false_ne_true

theorem second_table_covered : (twoTableLink 1).Covered := by
  refine ⟨?_, by decide⟩
  intro entry member asked
  rw [List.mem_singleton.mp member] at asked
  exact absurd rfl asked

theorem two_table_closed (tls : Nat) : (twoTableLink tls).Closed := by
  intro b p mapped
  change (if b = 0 ∨ b = 1 then some b else none) = some p at mapped
  split at mapped
  · next table =>
    cases mapped
    rcases table with rfl | rfl
    · exact List.mem_cons_self
    · exact List.mem_cons_of_mem _ List.mem_cons_self
  · cases mapped

theorem tls_relocs_fit_second_table : (twoTableLink 1).RelocsFit ∧
    ((TlsRequest.ofGlobal 1 7 .rMipsTlsGd 0).serve sampleTlsConf (fun _ => preemptibleSymbol)
      ((twoTableLink 1).start ⟨fun _ => 0, []⟩)).1.out.relDyn.length ≤ 0 + (twoTableLink 1).reserved.toNat := by
  obtain ⟨fits, inputs⟩ := tls_relocs_fit_iff (twoTableLink 1) (two_table_recorded 1)
  exact ⟨fits.mpr second_table_covered, inputs (two_table_closed 1) second_table_covered ⟨fun _ => 0, []⟩
    [.ofGlobal 1 7 .rMipsTlsGd 0]⟩

theorem primary_tls_unreserved : ¬ (twoTableLink 0).RelocsFit ∧ (twoTableLink 0).reserved = 0 ∧
    ((TlsRequest.ofGlobal 0 7 .rMipsTlsGd 0).serve sampleTlsConf (fun _ => preemptibleSymbol)
      ((twoTableLink 0).start ⟨fun _ => 0, []⟩)).1.out.relDyn.length = 2 := by
  refine ⟨?_, by decide, by decide⟩
  intro fits
  have within := fits ⟨fun _ => 0, []⟩ [⟨.entry (some 0) 0, .rMipsTlsGd, 0⟩] (by
    intro call member
    rw [List.mem_singleton.mp member]
    decide)
  revert within
  decide

end Openisa.Got
