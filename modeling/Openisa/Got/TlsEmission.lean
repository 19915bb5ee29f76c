import Openisa.Got.TlsSlots

/-! How many relocations a run of calls outputs: each entry needs its own once. -/

namespace Openisa.Got

open Openisa.Bfd
open Openisa.Library
open Openisa.Library.FirstUse

theorem output_relocation_length (c : TlsConf) (indx : BitVec 32) (rType32 rType64 : MipsReloc) (offset : BfdVma)
    (out : TlsOutput) :
    (c.outputDynamicRelocation indx rType32 rType64 offset out).relDyn.length = out.relDyn.length + 1 :=
  List.length_append

theorem gd_length (c : TlsConf) (indx : BitVec 32) (needRelocs : Bool) (value gotOffset : BfdVma) (out : TlsOutput) :
    (initializeGd c indx needRelocs value gotOffset out).relDyn.length =
      out.relDyn.length + if needRelocs then (if indx ≠ 0 then 2 else 1) else 0 := by
  cases needRelocs with
  | false => rfl
  | true =>
      by_cases indexed : indx ≠ 0
      · simp only [initializeGd, if_pos indexed, ↓reduceIte, output_relocation_length]
      · simp only [initializeGd, if_neg indexed, ↓reduceIte]
        exact output_relocation_length c indx _ _ gotOffset out

theorem ie_length (c : TlsConf) (indx : BitVec 32) (needRelocs : Bool) (value gotOffset : BfdVma) (out : TlsOutput) :
    (initializeIe c indx needRelocs value gotOffset out).relDyn.length =
      out.relDyn.length + if needRelocs then 1 else 0 := by
  cases needRelocs with
  | false => rfl
  | true => exact output_relocation_length c indx _ _ gotOffset _

theorem ldm_length (c : TlsConf) (indx : BitVec 32) (gotOffset : BfdVma) (out : TlsOutput) :
    (initializeLdm c indx gotOffset out).relDyn.length = out.relDyn.length + if c.info.shared then 1 else 0 := by
  rw [initializeLdm]
  cases c.info.shared with
  | false => rfl
  | true => exact output_relocation_length c indx _ _ gotOffset _

def tlsLeft (info : LinkInfo) (tlsType : TlsType) (h : Option TlsSymbol) : Nat :=
  if tlsType &&& gotTlsDone ≠ 0 then 0 else mipsTlsGotRelocs info tlsType h

theorem need_relocs_none (info : LinkInfo) : tlsNeedRelocs info none = info.shared := by
  rw [tlsNeedRelocs, tlsIndx]
  simp

theorem tls_got_relocs_sum (info : LinkInfo) (tlsType : TlsType) (h : Option TlsSymbol) :
    mipsTlsGotRelocs info tlsType h =
      (if tlsType &&& gotTlsGd ≠ 0 then
          (if tlsNeedRelocs info h then (if tlsIndx info h ≠ 0 then 2 else 1) else 0) else 0) +
        (if tlsType &&& gotTlsIe ≠ 0 then (if tlsNeedRelocs info h then 1 else 0) else 0) +
        if tlsType &&& gotTlsLdm ≠ 0 then (if tlsNeedRelocs info h ∧ info.shared then 1 else 0) else 0 := by
  rw [mipsTlsGotRelocs]
  cases tlsNeedRelocs info h with
  | false => simp
  | true =>
      have added : ∀ (n : Nat) (asked : Prop) [Decidable asked],
          (if asked then n + 1 else n) = n + if asked then 1 else 0 := by
        intro n asked _
        split <;> rfl
      simp only [Bool.not_true, Bool.false_eq_true, ↓reduceIte, true_and, ← ite_and]
      rw [added, added]

theorem asked_length {asked : Prop} [Decidable asked] {step : TlsOutput → TlsOutput} {n : Nat} (out : TlsOutput)
    (adds : (step out).relDyn.length = out.relDyn.length + n) :
    (if asked then step out else out).relDyn.length = out.relDyn.length + if asked then n else 0 := by
  by_cases isAsked : asked
  · rw [if_pos isAsked, if_pos isAsked, adds]
  · rw [if_neg isAsked, if_neg isAsked, Nat.add_zero]

theorem tls_slots_length (c : TlsConf) (gotOffset : BfdVma) (tlsType : TlsType) (h : Option TlsSymbol)
    (value : BfdVma) (out : TlsOutput) (plain : TlsType.ldmP tlsType = true → h = none) :
    (mipsElfInitializeTlsSlots c gotOffset tlsType h value out).2.relDyn.length =
      out.relDyn.length + tlsLeft c.info tlsType h := by
  simp only [mipsElfInitializeTlsSlots, tlsLeft]
  by_cases done : tlsType &&& gotTlsDone ≠ 0
  · rw [if_pos done, if_pos done, Nat.add_zero]
  · rw [if_neg done, if_neg done, asked_length _ (ldm_length c _ _ _), asked_length _ (ie_length c _ _ value _ _),
      asked_length _ (gd_length c _ _ value gotOffset out), tls_got_relocs_sum, Nat.add_assoc, Nat.add_assoc,
      Nat.add_assoc]
    congr 3
    by_cases ldm : tlsType &&& gotTlsLdm ≠ 0
    · rw [if_pos ldm, if_pos ldm, plain (decide_eq_true ldm), need_relocs_none]
      simp only [and_self]
    · rw [if_neg ldm, if_neg ldm]

theorem tls_done_or (tlsType : TlsType) : tlsType &&& gotTlsDone ≠ 0 → tlsType = tlsType ||| gotTlsDone := by
  revert tlsType
  decide

theorem tls_slots_type (c : TlsConf) (gotOffset : BfdVma) (tlsType : TlsType) (h : Option TlsSymbol)
    (value : BfdVma) (out : TlsOutput) :
    (mipsElfInitializeTlsSlots c gotOffset tlsType h value out).1 = tlsType ||| gotTlsDone := by
  simp only [mipsElfInitializeTlsSlots]
  by_cases done : tlsType &&& gotTlsDone ≠ 0
  · rw [if_pos done]
    exact tls_done_or tlsType done
  · rw [if_neg done]

theorem left_done (info : LinkInfo) (tlsType : TlsType) (h : Option TlsSymbol) :
    tlsLeft info (tlsType ||| gotTlsDone) h = 0 := by
  have done : ∀ t : TlsType, (t ||| gotTlsDone) &&& gotTlsDone ≠ 0 := by decide
  rw [tlsLeft, if_pos (done tlsType)]

theorem ldm_done (tlsType : TlsType) : TlsType.ldmP (tlsType ||| gotTlsDone) = TlsType.ldmP tlsType := by
  revert tlsType
  decide

variable {π β η : Type} [DecidableEq π] [DecidableEq β] [DecidableEq η]

def PlacedEntry.initialized (placed : PlacedEntry β η) : PlacedEntry β η :=
  { placed with entry := { placed.entry with tlsType := placed.entry.tlsType ||| gotTlsDone } }

def tlsLeftAt (info : LinkInfo) (sym : η → TlsSymbol) (m : TlsGots π β η) : TlsHolder π η → Nat
  | .symbol h => tlsLeft info (m.hash.tlsType h) (some (sym h))
  | .entry got i =>
      match (m.table got)[i]? with
      | none => 0
      | some placed => tlsLeft info placed.entry.tlsType (placed.entry.key.symbolOf sym)

/-- An LDM entry is for no global symbol. -/
def PlainAt (m : TlsGots π β η) : TlsHolder π η → Prop
  | .symbol h => TlsType.ldmP (m.hash.tlsType h) = false
  | .entry got i =>
      ∀ placed, (m.table got)[i]? = some placed → placed.entry.ldm = true → ∀ b h, placed.entry.key ≠ .global b h

variable {c : TlsConf} {sym : η → TlsSymbol} {m : TlsGots π β η} {rType : MipsReloc} {value : BfdVma}

omit [DecidableEq π] [DecidableEq β] [DecidableEq η] in
theorem symbol_of_entry {got : Option π} {i : Nat} {placed : PlacedEntry β η}
    (isEntry : (m.table got)[i]? = some placed) :
    (m.symbolOf (.entry got i)).map sym = placed.entry.key.symbolOf sym := by
  rcases placed with ⟨⟨key, tlsType⟩, gotidx⟩
  rw [TlsGots.symbolOf, isEntry]
  cases key <;> rfl

omit [DecidableEq β] in
theorem call_symbol (h : η) (plain : PlainAt m (.symbol h)) :
    (m.call c sym ⟨.symbol h, rType, value⟩).hash.tlsType =
        Function.update m.hash.tlsType h (m.hash.tlsType h ||| gotTlsDone) ∧
      (m.call c sym ⟨.symbol h, rType, value⟩).out.relDyn.length =
        m.out.relDyn.length + tlsLeftAt c.info sym m (.symbol h) := by
  have sameType := tls_slots_type c (m.hash.tlsGotOffset h) (m.hash.tlsType h) (some (sym h)) value m.out
  have length := tls_slots_length c (m.hash.tlsGotOffset h) (m.hash.tlsType h) (some (sym h)) value m.out
    (fun ldm => absurd (plain.symm.trans ldm) Bool.false_ne_true)
  refine ⟨?_, length⟩
  rw [← sameType]
  rfl

omit [DecidableEq β] in
theorem call_entry {got : Option π} {i : Nat} {placed : PlacedEntry β η}
    (isEntry : (m.table got)[i]? = some placed) (plain : PlainAt m (.entry got i)) :
    (m.call c sym ⟨.entry got i, rType, value⟩).table =
        Function.update m.table got ((m.table got).set i placed.initialized) ∧
      (m.call c sym ⟨.entry got i, rType, value⟩).out.relDyn.length =
        m.out.relDyn.length + tlsLeftAt c.info sym m (.entry got i) := by
  have isSymbol : (m.symbolOf (.entry got i)).map sym = placed.entry.key.symbolOf sym := symbol_of_entry isEntry
  have sameType := tls_slots_type c (BitVec.ofInt 64 placed.gotidx) placed.entry.tlsType
    (placed.entry.key.symbolOf sym) value m.out
  have length := tls_slots_length c (BitVec.ofInt 64 placed.gotidx) placed.entry.tlsType
    (placed.entry.key.symbolOf sym) value m.out (by
      intro ldm
      have notGlobal := plain placed isEntry ldm
      cases isKey : placed.entry.key with
      | global b h => exact absurd isKey (notGlobal b h)
      | address a => rfl
      | symbol b s a => rfl)
  simp only [TlsGots.call, TlsGots.gotIndex, isEntry, isSymbol, tlsLeftAt]
  refine ⟨?_, length⟩
  rw [PlacedEntry.initialized, ← sameType]
  rfl

omit [DecidableEq β] in
theorem call_missing {got : Option π} {i : Nat} (missing : (m.table got)[i]? = none) :
    m.call c sym ⟨.entry got i, rType, value⟩ = m := by
  simp only [TlsGots.call, TlsGots.gotIndex, missing]

omit [DecidableEq β] in
theorem call_table (h : η) : (m.call c sym ⟨.symbol h, rType, value⟩).table = m.table := rfl

omit [DecidableEq β] in
theorem call_hash (got : Option π) (i : Nat) : (m.call c sym ⟨.entry got i, rType, value⟩).hash = m.hash := by
  cases found : (m.table got)[i]? with
  | none => rw [call_missing found]
  | some placed => simp only [TlsGots.call, TlsGots.gotIndex, found]

omit [DecidableEq β] [DecidableEq η] in
theorem update_get {got got' : Option π} {i j : Nat} {placed placed' : PlacedEntry β η}
    (isEntry : (m.table got)[i]? = some placed) :
    (Function.update m.table got ((m.table got).set i placed') got')[j]? =
      if got' = got ∧ j = i then some placed' else (m.table got')[j]? := by
  by_cases sameGot : got' = got
  · rw [sameGot, Function.update_self, List.getElem?_set]
    by_cases same : i = j
    · have inside : i < (m.table got).length := (List.getElem?_eq_some_iff.mp isEntry).1
      rw [if_pos same, if_pos inside, if_pos ⟨rfl, same.symm⟩]
    · rw [if_neg same, if_neg fun both => same both.2.symm]
  · rw [Function.update_of_ne sameGot, if_neg fun both => sameGot both.1]

omit [DecidableEq β] in
theorem call_plain (holder i : TlsHolder π η) (own : PlainAt m holder) (plain : PlainAt m i) :
    PlainAt (m.call c sym ⟨holder, rType, value⟩) i := by
  cases holder with
  | symbol h =>
      cases i with
      | symbol h' =>
          change TlsType.ldmP (TlsGots.hash _ |>.tlsType h') = false
          rw [(call_symbol h own).1]
          by_cases same : h' = h
          · rw [same, Function.update_self, ldm_done]
            exact own
          · rw [Function.update_of_ne same]
            exact plain
      | entry got j =>
          rw [PlainAt, call_table]
          exact plain
  | entry got j =>
      cases i with
      | symbol h =>
          rw [PlainAt, call_hash]
          exact plain
      | entry got' j' =>
          cases found : (m.table got)[j]? with
          | none =>
              rw [call_missing found]
              exact plain
          | some placed =>
              rw [PlainAt, (call_entry found own).1]
              intro placed' isEntry ldm
              rw [update_get found] at isEntry
              split at isEntry
              · cases isEntry
                rw [GotEntry.ldm, PlacedEntry.initialized, ldm_done] at ldm
                exact own placed found ldm
              · exact plain placed' isEntry ldm

omit [DecidableEq β] in
theorem call_emptied (holder : TlsHolder π η) (own : PlainAt m holder) :
    tlsLeftAt c.info sym (m.call c sym ⟨holder, rType, value⟩) holder = 0 := by
  cases holder with
  | symbol h => rw [tlsLeftAt, (call_symbol h own).1, Function.update_self, left_done]
  | entry got i =>
      cases found : (m.table got)[i]? with
      | none => rw [call_missing found, tlsLeftAt, found]
      | some placed =>
          simp only [tlsLeftAt, (call_entry found own).1, update_get found, and_self, ↓reduceIte]
          exact left_done c.info placed.entry.tlsType _

omit [DecidableEq β] in
theorem call_others (holder i : TlsHolder π η) (own : PlainAt m holder) (other : i ≠ holder) :
    tlsLeftAt c.info sym (m.call c sym ⟨holder, rType, value⟩) i = tlsLeftAt c.info sym m i := by
  cases holder with
  | symbol h =>
      cases i with
      | symbol h' =>
          have different : h' ≠ h := fun same => other (same ▸ rfl)
          rw [tlsLeftAt, (call_symbol h own).1, Function.update_of_ne different]
          rfl
      | entry got j => rw [tlsLeftAt, call_table, tlsLeftAt]
  | entry got j =>
      cases i with
      | symbol h => rw [tlsLeftAt, call_hash, tlsLeftAt]
      | entry got' j' =>
          cases found : (m.table got)[j]? with
          | none => rw [call_missing found]
          | some placed =>
              have different : ¬ (got' = got ∧ j' = j) := fun same => other (same.1 ▸ same.2 ▸ rfl)
              rw [tlsLeftAt, (call_entry found own).1, update_get found, if_neg different, tlsLeftAt]

omit [DecidableEq β] in
theorem call_length (holder : TlsHolder π η) (own : PlainAt m holder) :
    (m.call c sym ⟨holder, rType, value⟩).out.relDyn.length =
      m.out.relDyn.length + tlsLeftAt c.info sym m holder := by
  cases holder with
  | symbol h => exact (call_symbol h own).2
  | entry got i =>
      cases found : (m.table got)[i]? with
      | none => rw [call_missing found, tlsLeftAt, found, Nat.add_zero]
      | some placed => exact (call_entry found own).2

omit [DecidableEq β] in
theorem tls_calls_spend (c : TlsConf) (sym : η → TlsSymbol) (holders : List (TlsHolder π η)) :
    Spends holders (fun m : TlsGots π β η => ∀ i ∈ holders, PlainAt m i) (TlsGots.call c sym) TlsCall.holder
      (fun m => m.out.relDyn.length) (tlsLeftAt c.info sym) where
  kept _ call plain known i member := call_plain call.holder i (plain _ known) (plain i member)
  spent _ call plain known := call_length call.holder (plain _ known)
  emptied _ call plain known := call_emptied call.holder (plain _ known)
  others _ call i plain known other := call_others call.holder i (plain _ known) other

end Openisa.Got
