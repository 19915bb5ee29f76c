import Openisa.Bfd.Howto
import Openisa.Library.LinkChain

/-! The external symbols of the debugging information: one record for each entry of the hash table. -/

namespace Openisa.Debug

open Openisa.Bfd
open Openisa.Library.LinkChain

inductive SymType where
  | stGlobal | stLabel | stProc
  | other (number : Nat)
  deriving DecidableEq, Repr

inductive SymClass where
  | scText | scData | scBss | scAbs | scUndefined | scSData | scSBss | scRData | scCommon | scSCommon
  | scInit | scFini
  | other (number : Nat)
  deriving DecidableEq, Repr

structure Extr where
  jmptbl : Bool
  cobolMain : Bool
  weakext : Bool
  reserved : Nat
  ifd : Int
  value : BfdVma
  st : SymType
  sc : SymClass
  symReserved : Nat
  index : Nat
  deriving DecidableEq, Repr

structure OutputPart where
  name : String
  vma : BfdVma
  deriving DecidableEq, Repr

structure DefSection where
  outputOffset : BfdVma
  outputSection : Option OutputPart
  deriving DecidableEq, Repr

inductive HashKind (η : Type) where
  | new | undefined | undefweak | warning
  | defined (value : BfdVma)
  | defweak (value : BfdVma)
  | common (size : BfdVma)
  | indirect (link : η)
  deriving DecidableEq, Repr

/-- `type` is the ELF type of the symbol, and `sec` where the entry is defined or its lazy-binding stub lies. -/
structure ExtEntry (η : Type) where
  name : String
  kind : HashKind η
  type : Nat
  sec : Option DefSection
  indx : Int
  defDynamic : Bool
  refDynamic : Bool
  defRegular : Bool
  refRegular : Bool
  needsLazyStub : Bool
  pltOffset : BfdVma
  esym : Extr
  deriving DecidableEq, Repr

inductive Strip where
  | all | some | other
  deriving DecidableEq, Repr

/-- `bfd_ecoff_debug_one_external` is told the name and the record. -/
structure ExtsymInfo where
  strip : Strip
  keepHash : String → Bool
  gp : BfdVma
  procedureCount : BfdVma
  newabi : Bool
  oneExternal : String → Extr → Bool

variable {η : Type}

/-- The number of the first kind of entry, which the code compares with an ELF type. -/
def bfdLinkHashNew : Nat := 0

def stripP (einfo : ExtsymInfo) (h : ExtEntry η) : Bool :=
  if h.indx = -2 then false
  else if (h.defDynamic || h.refDynamic || h.type == bfdLinkHashNew) && !h.defRegular && !h.refRegular then true
  else einfo.strip == .all || (einfo.strip == .some && !einfo.keepHash h.name)

def classOfSection (name : String) : SymClass :=
  if name = ".text" then .scText
  else if name = ".data" then .scData
  else if name = ".sdata" then .scSData
  else if name = ".rodata" ∨ name = ".rdata" then .scRData
  else if name = ".bss" then .scBss
  else if name = ".sbss" then .scSBss
  else if name = ".init" then .scInit
  else if name = ".fini" then .scFini
  else .scAbs

def undefinedClass (einfo : ExtsymInfo) (name : String) : SymClass × SymType × BfdVma :=
  if name = "_procedure_table" ∨ name = "_procedure_string_table" then (.scData, .stLabel, 0)
  else if name = "_procedure_table_size" then (.scAbs, .stLabel, einfo.procedureCount)
  else if name = "_gp_disp" ∧ einfo.newabi = false then (.scAbs, .stLabel, einfo.gp)
  else (.scUndefined, .stGlobal, 0)

def definedClass (sec : Option DefSection) : SymClass :=
  match sec.bind DefSection.outputSection with
  | none => .scUndefined
  | some part => classOfSection part.name

def newExternal (einfo : ExtsymInfo) (h : ExtEntry η) : Extr :=
  let (sc, st, value) := match h.kind with
    | .undefined | .undefweak => undefinedClass einfo h.name
    | .defined _ | .defweak _ => (definedClass h.sec, .stGlobal, 0)
    | _ => (.scAbs, .stGlobal, 0)
  { jmptbl := false, cobolMain := false, weakext := false, reserved := 0, ifd := -1, value := value, st := st
    sc := sc, symReserved := 0, index := 0xfffff }

def describedExternal (einfo : ExtsymInfo) (h : ExtEntry η) : Extr :=
  if h.esym.ifd = -2 then newExternal einfo h else h.esym

/-- The address of `offset` in a section of the output; 0 where there is none. -/
def addressIn (sec : Option DefSection) (offset : BfdVma) : BfdVma :=
  match sec with
  | none => 0
  | some sec =>
      match sec.outputSection with
      | none => 0
      | some part => offset + sec.outputOffset + part.vma

def definedCommon : SymClass → SymClass
  | .scCommon => .scBss
  | .scSCommon => .scSBss
  | sc => sc

def withDefinition (h : ExtEntry η) (value : BfdVma) (esym : Extr) : Extr :=
  { esym with sc := definedCommon esym.sc, value := addressIn h.sec value }

def withStub (hd : ExtEntry η) (esym : Extr) : Extr :=
  if hd.needsLazyStub then { esym with st := .stProc, value := addressIn hd.sec hd.pltOffset } else esym

def indirectLink (table : η → ExtEntry η) (h : η) : Option η :=
  match (table h).kind with
  | .indirect link => some link
  | _ => none

/-- The loop that looks for the real symbol, for so many turns. It takes the link of `h`, where it starts,
at every turn. -/
def realSymbol (table : η → ExtEntry η) (h : η) (fuel : Nat) : Option η :=
  loop (indirectLink table) (fun _ => (indirectLink table h).getD h) fuel h

def externalRecord (einfo : ExtsymInfo) (table : η → ExtEntry η) (fuel : Nat) (h : η) : Option Extr :=
  let esym := describedExternal einfo (table h)
  match (table h).kind with
  | .common size => some { esym with value := size }
  | .defined value | .defweak value => some (withDefinition (table h) value esym)
  | _ => (realSymbol table h fuel).map fun hd => withStub (table hd) esym

inductive ExtsymOutcome where
  | stripped
  | written (name : String) (esym : Extr)
  | failed
  deriving DecidableEq, Repr

def mipsElfOutputExtsym (einfo : ExtsymInfo) (table : η → ExtEntry η) (fuel : Nat) (h : η) :
    Option ExtsymOutcome :=
  if stripP einfo (table h) then some .stripped
  else (externalRecord einfo table fuel h).map fun esym =>
    if einfo.oneExternal (table h).name esym then .written (table h).name esym else .failed

def looksForTarget (h : ExtEntry η) : Bool :=
  match h.kind with
  | .common _ | .defined _ | .defweak _ => false
  | _ => true

def outcomeWith (einfo : ExtsymInfo) (table : η → ExtEntry η) (h target : η) : ExtsymOutcome :=
  let esym := withStub (table target) (describedExternal einfo (table h))
  if einfo.oneExternal (table h).name esym then .written (table h).name esym else .failed

theorem real_symbol_short (table : η → ExtEntry η) {h target : η} {n : Nat}
    (chain : Chain (indirectLink table) h n target) (short : n ≤ 1) : realSymbol table h 2 = some target := by
  apply loop_from_start chain _ short
  intro u leads
  simp [leads]

theorem real_symbol_long (table : η → ExtEntry η) {h target : η} {n : Nat}
    (chain : Chain (indirectLink table) h n target) (long : 1 < n) (fuel : Nat) :
    realSymbol table h fuel = none := by
  apply loop_from_start_stuck chain _ long
  intro u leads
  simp [leads]

theorem record_of_target {einfo : ExtsymInfo} {table : η → ExtEntry η} {h : η}
    (looks : looksForTarget (table h) = true) (fuel : Nat) :
    externalRecord einfo table fuel h =
      (realSymbol table h fuel).map fun hd => withStub (table hd) (describedExternal einfo (table h)) := by
  unfold externalRecord
  unfold looksForTarget at looks
  split at looks
  · cases looks
  · cases looks
  · cases looks
  · rfl

theorem outcome_of_target {einfo : ExtsymInfo} {table : η → ExtEntry η} {h : η}
    (kept : stripP einfo (table h) = false) (looks : looksForTarget (table h) = true) (fuel : Nat) :
    mipsElfOutputExtsym einfo table fuel h = (realSymbol table h fuel).map (outcomeWith einfo table h) := by
  unfold mipsElfOutputExtsym
  rw [kept, record_of_target looks, if_neg (by decide), Option.map_map]
  rfl

/-- For a chain of indirect entries the loop ends at the real symbol, and the record has the stub of this
symbol, exactly when the chain has at most one link. -/
theorem real_symbol_found_iff (einfo : ExtsymInfo) (table : η → ExtEntry η) (h target : η) (n : Nat)
    (chain : Chain (indirectLink table) h n target) :
    ((∃ fuel, realSymbol table h fuel = some target) ↔ n ≤ 1) ∧
      (stripP einfo (table h) = false → looksForTarget (table h) = true →
        ((∃ fuel, mipsElfOutputExtsym einfo table fuel h = some (outcomeWith einfo table h target)) ↔ n ≤ 1)) := by
  have short := real_symbol_short table chain
  have long := real_symbol_long table chain
  refine ⟨⟨?_, fun few => ⟨2, short few⟩⟩, fun kept looks => ⟨?_, fun few => ⟨2, ?_⟩⟩⟩
  · rintro ⟨fuel, ended⟩
    by_contra many
    rw [long (Nat.lt_of_not_le many)] at ended
    cases ended
  · rintro ⟨fuel, ended⟩
    by_contra many
    rw [outcome_of_target kept looks, long (Nat.lt_of_not_le many)] at ended
    cases ended
  · rw [outcome_of_target kept looks, short few]
    rfl

def plainExtr : Extr :=
  { jmptbl := false, cobolMain := false, weakext := false, reserved := 0, ifd := -2, value := 0
    st := .stGlobal, sc := .scAbs, symReserved := 0, index := 0 }

def plainEntry (kind : HashKind Nat) : ExtEntry Nat :=
  { name := "f", kind := kind, type := 2, sec := none, indx := 0, defDynamic := false, refDynamic := false
    defRegular := true, refRegular := true, needsLazyStub := false, pltOffset := 0, esym := plainExtr }

def keepAll : ExtsymInfo := ⟨.other, fun _ => true, 0, 0, false, fun _ _ => true⟩

/-- Entry 0 is indirect to entry 1, this to entry 2, which is undefined with a stub. -/
def twoLinks : Nat → ExtEntry Nat
  | 0 => plainEntry (.indirect 1)
  | 1 => plainEntry (.indirect 2)
  | _ => { plainEntry .undefined with needsLazyStub := true }

theorem real_symbol_found_one_link :
    ((∃ fuel, realSymbol twoLinks 1 fuel = some 2) ↔ 1 ≤ 1) ∧
      (stripP keepAll (twoLinks 1) = false → looksForTarget (twoLinks 1) = true →
        ((∃ fuel, mipsElfOutputExtsym keepAll twoLinks fuel 1 = some (outcomeWith keepAll twoLinks 1 2)) ↔
          1 ≤ 1)) :=
  real_symbol_found_iff keepAll twoLinks 1 2 1 (.link rfl (.last rfl))

theorem two_links_never_end :
    Chain (indirectLink twoLinks) 0 2 2 ∧ (∀ fuel, realSymbol twoLinks 0 fuel = none) ∧
      ∀ fuel, mipsElfOutputExtsym keepAll twoLinks fuel 0 = none := by
  have chain : Chain (indirectLink twoLinks) 0 2 2 := .link rfl (.link rfl (.last rfl))
  have stuck := real_symbol_long twoLinks chain (by decide)
  refine ⟨chain, stuck, fun fuel => ?_⟩
  rw [outcome_of_target rfl rfl, stuck]
  rfl

end Openisa.Debug
