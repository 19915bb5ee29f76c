import Openisa.Got.Entry

/-! Splitting the master table into one for each input, and merging these again while they fit. -/

namespace Openisa.Got

open Openisa.Library.SlotTable

variable {β η : Type} [DecidableEq β]

/-- Whether an entry without TLS access is counted among the local ones. -/
def GotEntry.localP (area : η → GlobalGotArea) (entry : GotEntry β η) : Bool :=
  match entry.key with
  | .global _ h => area h == .none
  | .symbol _ _ _ => true
  -- The entries of an input are symbols: only a link that is past counting has addresses.
  | .address _ => true

/-- `mips_elf_get_got_for_bfd` starts every table so. -/
def GotInfo.created : GotInfo β η := ⟨0, 0, 0, 0, 0, -1, [], [], -1⟩

/-- The part of `struct mips_elf_got_per_bfd_arg` that changes. A table goes by the input it was made
for; `current` is the last of the other tables, before those its `next` chain leads to. -/
structure GotPerBfdArg (β η : Type) where
  inputs : List β
  bfd2got : β → Option β
  gots : β → GotInfo β η
  primary : Option β
  current : List β

structure GotLimits where
  maxCount : BitVec 32
  maxPages : BitVec 32
  globalCount : BitVec 32
  deriving DecidableEq, Repr

namespace GotPerBfdArg

def start : GotPerBfdArg β η := ⟨[], fun _ => none, fun _ => .created, none, []⟩

def setGot (arg : GotPerBfdArg β η) (g : β) (info : GotInfo β η) : GotPerBfdArg β η :=
  { arg with gots := Function.update arg.gots g info }

def mapTo (arg : GotPerBfdArg β η) (bfd g : β) : GotPerBfdArg β η :=
  { arg with bfd2got := Function.update arg.bfd2got bfd (some g) }

@[simp] theorem setGot_bfd2got (arg : GotPerBfdArg β η) (g : β) (info : GotInfo β η) :
    (arg.setGot g info).bfd2got = arg.bfd2got := rfl

@[simp] theorem setGot_same (arg : GotPerBfdArg β η) (g : β) (info : GotInfo β η) :
    (arg.setGot g info).gots g = info := Function.update_self ..

theorem setGot_other (arg : GotPerBfdArg β η) {g g' : β} (other : g' ≠ g) (info : GotInfo β η) :
    (arg.setGot g info).gots g' = arg.gots g' := Function.update_of_ne other ..

theorem setGot_setGot (arg : GotPerBfdArg β η) (g : β) (first second : GotInfo β η) :
    (arg.setGot g first).setGot g second = arg.setGot g second := by
  simp [setGot]

theorem setGot_self (arg : GotPerBfdArg β η) (g : β) : arg.setGot g (arg.gots g) = arg := by
  simp [setGot]

end GotPerBfdArg

variable [DecidableEq η]

def mipsElfGetGotForBfd (arg : GotPerBfdArg β η) (inputBfd : β) : GotPerBfdArg β η × β :=
  match arg.bfd2got inputBfd with
  | some g => (arg, g)
  | none =>
      (({ arg with inputs := arg.inputs ++ [inputBfd] }.mapTo inputBfd inputBfd).setGot inputBfd .created,
        inputBfd)

/-- Put an entry into a table unless its slot is taken, and count what it needs. -/
def GotInfo.addEntry (area : η → GlobalGotArea) (g : GotInfo β η) (entry : GotEntry β η) :
    GotInfo β η :=
  if g.gotEntries.any (mipsElfMultiGotEntryEq entry) then g else
  let g := { g with gotEntries := g.gotEntries ++ [entry] }
  if entry.tlsType ≠ 0 then
    let g := if entry.tlsType &&& (gotTlsGd ||| gotTlsLdm) ≠ 0 then { g with tlsGotno := g.tlsGotno + 2 } else g
    if entry.tlsType &&& gotTlsIe ≠ 0 then { g with tlsGotno := g.tlsGotno + 1 } else g
  else if entry.localP area then { g with localGotno := g.localGotno + 1 }
  else { g with globalGotno := g.globalGotno + 1 }

def GotInfo.addPages (g : GotInfo β η) (entry : PageEntry β) : GotInfo β η :=
  if g.gotPageEntries.any (mipsGotPageEntryEq entry) then g else
  { g with gotPageEntries := g.gotPageEntries ++ [entry]
           pageGotno := g.pageGotno + entry.numPages.setWidth 32 }

def mipsElfMakeGotPerBfd (area : η → GlobalGotArea) (arg : GotPerBfdArg β η) (entry : GotEntry β η) :
    GotPerBfdArg β η :=
  match entry.key.abfd with
  | none => arg
  | some abfd =>
      let (arg, g) := mipsElfGetGotForBfd arg abfd
      arg.setGot g ((arg.gots g).addEntry area entry)

def mipsElfMakeGotPagesPerBfd (arg : GotPerBfdArg β η) (entry : PageEntry β) : GotPerBfdArg β η :=
  let (arg, g) := mipsElfGetGotForBfd arg entry.abfd
  arg.setGot g ((arg.gots g).addPages entry)

/-- The orders in which the tables of one input are walked when they are merged into others. -/
structure TableWalk (β η : Type) where
  entries : Walk (GotEntry β η)
  pages : Walk (PageEntry β)

def mergeEstimate (limits : GotLimits) (isPrimary : Bool) (source target : GotInfo β η) : BitVec 32 :=
  let estimate := limits.maxPages
  let estimate := if estimate ≥ source.pageGotno + target.pageGotno
    then source.pageGotno + target.pageGotno else estimate
  let estimate := estimate + (source.localGotno + target.localGotno)
  let estimate := estimate + (source.tlsGotno + target.tlsGotno)
  if isPrimary then estimate + limits.globalCount
  else estimate + (source.globalGotno + target.globalGotno)

/-- Merge the table `g` of `bfd` with `target`, unless that could overflow. -/
def mipsElfMergeGotWith (area : η → GlobalGotArea) (limits : GotLimits) (walk : TableWalk β η)
    (bfd g target : β) (arg : GotPerBfdArg β η) : Option (GotPerBfdArg β η) :=
  if mergeEstimate limits (arg.primary == some target) (arg.gots g) (arg.gots target) > limits.maxCount then none
  else
    let source := arg.gots g
    let arg := arg.mapTo bfd target
    let arg := (walk.entries.order source.gotEntries).foldl (mipsElfMakeGotPerBfd area) arg
    some ((walk.pages.order source.gotPageEntries).foldl mipsElfMakeGotPagesPerBfd arg)

def startEstimate (limits : GotLimits) (g : GotInfo β η) : BitVec 32 :=
  let estimate := limits.maxPages
  let estimate := if estimate > g.pageGotno then g.pageGotno else estimate
  let estimate := estimate + (g.localGotno + g.tlsGotno)
  estimate + (if g.tlsGotno > 0 then limits.globalCount else g.globalGotno)

def mergeWithCurrent (area : η → GlobalGotArea) (limits : GotLimits) (walk : TableWalk β η)
    (bfd g : β) (arg : GotPerBfdArg β η) : GotPerBfdArg β η :=
  match arg.current with
  | [] => { arg with current := [g] }
  | current :: next =>
      match mipsElfMergeGotWith area limits walk bfd g current arg with
      | some arg => arg
      | none => { arg with current := g :: current :: next }

def mipsElfMergeGots (area : η → GlobalGotArea) (limits : GotLimits) (walk : β → TableWalk β η)
    (arg : GotPerBfdArg β η) (bfd : β) : GotPerBfdArg β η :=
  match arg.bfd2got bfd with
  | none => arg
  | some g =>
      if startEstimate limits (arg.gots g) ≤ limits.maxCount then
        match arg.primary with
        | none => { arg with primary := some g }
        | some primary =>
            match mipsElfMergeGotWith area limits (walk bfd) bfd g primary arg with
            | some arg => arg
            | none => mergeWithCurrent area limits (walk bfd) bfd g arg
      else mergeWithCurrent area limits (walk bfd) bfd g arg

/-- The tables of a link before it knows whether one table will do. -/
structure MasterGot (β η : Type) [DecidableEq β] [DecidableEq η] where
  gotEntries : List (GotEntry β η)
  gotPageEntries : List (PageEntry β)
  distinct : Distinct mipsElfGotEntryEq gotEntries
  pagesDistinct : Distinct mipsGotPageEntryEq gotPageEntries
  /-- No entry stands for an address yet. -/
  known : ∀ e ∈ gotEntries, e.key.abfd ≠ none
  /-- An LDM entry has no other access type, and is a local entry with symbol index 0. -/
  ldmAlone : ∀ e ∈ gotEntries, e.ldm = true →
    e.tlsType = gotTlsLdm ∧ ∃ abfd, e.key = .symbol abfd 0 0
  /-- A thread-local entry has an access type: `GOT_TLS_DONE` and its like are set later. -/
  types : ∀ e ∈ gotEntries, e.tlsType ≠ 0 → e.tlsType &&& (gotTlsGd ||| gotTlsLdm ||| gotTlsIe) ≠ 0

/-- The orders in which `mips_elf_multi_got` walks the tables. -/
structure MultiGotWalk (β η : Type) where
  master : TableWalk β η
  inputs : Walk β
  merged : β → TableWalk β η

def splitGots (area : η → GlobalGotArea) (walk : TableWalk β η) (master : MasterGot β η) :
    GotPerBfdArg β η :=
  let arg := (walk.entries.order master.gotEntries).foldl (mipsElfMakeGotPerBfd area) .start
  (walk.pages.order master.gotPageEntries).foldl mipsElfMakeGotPagesPerBfd arg

/-- `mips_elf_multi_got` up to the tables it keeps. -/
def mipsElfMultiGot (area : η → GlobalGotArea) (limits : GotLimits) (walk : MultiGotWalk β η)
    (master : MasterGot β η) : GotPerBfdArg β η :=
  let arg := splitGots area walk.master master
  (walk.inputs.order arg.inputs).foldl (mipsElfMergeGots area limits walk.merged) arg

end Openisa.Got
