import Mathlib.Data.BitVec
import Mathlib.Data.List.Sort
import Openisa.Bfd.Words
import Openisa.Library.JoinRun
import Openisa.Library.StepTotals

/-! The `.gptab` sections, which say how the small data area depends on the `-G` value, and how a final link combines
them. -/

namespace Openisa.Sections

open Openisa.Bfd
open Openisa.Library
open Openisa.Library.ByteStore
open Openisa.Library.StepTotals

/-- An entry of a table: with this `-G` value there are so many bytes of small data. -/
structure Elf32Gptab where
  gtGValue : Nat
  gtBytes : BfdVma
  deriving DecidableEq, Repr

/-- `bfd_mips_elf32_swap_gptab_in`. -/
def swapGptabIn (order : Endian) (d : Store) (loc : Nat) : Elf32Gptab :=
  ⟨(bfdGet32 order d loc).toNat, bfdGet32 order d (loc + 4)⟩

/-- What `bfd_mips_elf32_swap_gptab_out` writes. -/
def gptabWords (e : Elf32Gptab) : List BfdVma := [BitVec.ofNat 64 e.gtGValue, e.gtBytes]

/-- A `.gptab` section. Its first entry is a header, with the `-G` value that was used. -/
structure GptabSection where
  order : Endian
  size : Nat
  contents : Store

inductive LinkOrder where
  | indirect (inputSection : GptabSection)
  | data
  | other

inductive GptabError where
  | abort
  | badContents
  deriving DecidableEq, Repr

section Combine

def lookAt (val : Nat) (max : Option Elf32Gptab) (e : Elf32Gptab) : Option Elf32Gptab :=
  if e.gtGValue < val && max.all (·.gtGValue < e.gtGValue) then some e else max

/-- The entry with the next smallest `-G` value. -/
def nextSmallest (val : Nat) (tab : List Elf32Gptab) : Option Elf32Gptab := tab.foldl (lookAt val) none

/-- So many bytes more from a `-G` value on. A new entry starts with what the next smallest value implies. -/
def combineEntry (tab : List Elf32Gptab) (val : Nat) (add : BfdVma) : List Elf32Gptab :=
  let raised := tab.map fun e => if val ≤ e.gtGValue then { e with gtBytes := e.gtBytes + add } else e
  if tab.any (·.gtGValue = val) then raised
  else raised ++ [⟨val, add + (nextSmallest val raised).elim 0 (·.gtBytes)⟩]

abbrev Combining := List Elf32Gptab × BfdVma

def combineNext (inputSection : GptabSection) (st : Combining) (gpentry : Nat) : Except GptabError Combining :=
  if gpentry + 8 ≤ inputSection.size then
    let e := swapGptabIn inputSection.order inputSection.contents gpentry
    .ok (combineEntry st.1 e.gtGValue (e.gtBytes - st.2), e.gtBytes)
  else .error .badContents

/-- `for (gpentry = 8; gpentry < size; gpentry += 8)`. -/
def gpentries (size : Nat) : List Nat := (List.range ((size - 1) / 8)).map fun k => 8 * (k + 1)

def combineSection (tab : List Elf32Gptab) (inputSection : GptabSection) : Except GptabError (List Elf32Gptab) :=
  ((gpentries inputSection.size).foldlM (combineNext inputSection) (tab, 0)).map Prod.fst

def combineLinkOrder (tab : List Elf32Gptab) : LinkOrder → Except GptabError (List Elf32Gptab)
  | .indirect inputSection => combineSection tab inputSection
  | .data => .ok tab
  | .other => .error .abort

/-- `gptab_compare`, whose difference is cut off to an `int`. -/
def gptabCompare (a1 a2 : Elf32Gptab) : Int := ((a1.gtGValue : Int) - a2.gtGValue).bmod (2 ^ 32)

def sortGptab (tab : List Elf32Gptab) : List Elf32Gptab :=
  if 1 < tab.length then tab.insertionSort fun a1 a2 => gptabCompare a1 a2 ≤ 0 else tab

/-- The part of `_bfd_mips_elf_final_link` for a `.gptab` section of the output. -/
def finalLinkGptab (order : Endian) (gpSize : Nat) (mapHead : List LinkOrder) : Except GptabError GptabSection :=
  (mapHead.foldlM combineLinkOrder []).map fun tab =>
    let table := ⟨gpSize, 0⟩ :: sortGptab tab
    ⟨order, 8 * table.length, putWords (bfdPut32 order) (table.flatMap gptabWords) (fun _ => 0) 0⟩

end Combine

def GptabSection.entries (s : GptabSection) : List Elf32Gptab := (gpentries s.size).map (swapGptabIn s.order s.contents)

def Elf32Gptab.step (e : Elf32Gptab) : Nat × BfdVma := (e.gtGValue, e.gtBytes)

/-- The bytes of small data that a table has for a `-G` value. -/
def GptabSection.bytes (s : GptabSection) (g : Nat) : BfdVma := reached 0 (s.entries.map Elf32Gptab.step) g

def inputSections (mapHead : List LinkOrder) : List GptabSection :=
  mapHead.filterMap fun
    | .indirect inputSection => some inputSection
    | _ => none

section Table

variable {tab : List Elf32Gptab} {steps : List (Nat × BfdVma)}

theorem precedes_next {seen : List Elf32Gptab} {max : Option Elf32Gptab} {val : Nat}
    (precedes : Precedes (seen.map Elf32Gptab.step) val (max.map Elf32Gptab.step)) (e : Elf32Gptab) :
    Precedes ((seen ++ [e]).map Elf32Gptab.step) val
      ((lookAt val max e).map Elf32Gptab.step) := by
  rw [List.map_append, List.map_singleton, lookAt]
  cases max with
  | none =>
    by_cases low : e.gtGValue < val
    · simp only [low, decide_true, Option.all_none, Bool.and_self, if_true, Option.map_some]
      refine ⟨List.mem_append_right _ (List.mem_singleton.mpr rfl), low, fun e' member below => ?_⟩
      rcases List.mem_append.mp member with old | new
      · exact absurd below (precedes e' old)
      · rw [List.mem_singleton.mp new]
    · simp only [low, decide_false, Bool.false_and, Bool.false_eq_true, if_false, Option.map_none]
      intro e' member
      rcases List.mem_append.mp member with old | new
      · exact precedes e' old
      · rw [List.mem_singleton.mp new]
        exact low
  | some max =>
    obtain ⟨present, below, greatest⟩ := precedes
    by_cases better : e.gtGValue < val ∧ max.gtGValue < e.gtGValue
    · rw [if_pos (by simpa using better)]
      refine ⟨List.mem_append_right _ (List.mem_singleton.mpr rfl), better.1, fun e' member low => ?_⟩
      rcases List.mem_append.mp member with old | new
      · exact (greatest e' old low).trans better.2.le
      · rw [List.mem_singleton.mp new]
    · rw [if_neg (by simpa using better)]
      refine ⟨List.mem_append_left _ present, below, fun e' member low => ?_⟩
      rcases List.mem_append.mp member with old | new
      · exact greatest e' old low
      · rw [List.mem_singleton.mp new] at low ⊢
        exact not_lt.mp fun higher => better ⟨low, higher⟩

theorem nextSmallest_precedes (val : Nat) (tab : List Elf32Gptab) :
    Precedes (tab.map Elf32Gptab.step) val ((nextSmallest val tab).map Elf32Gptab.step) := by
  have looks : ∀ (rest seen : List Elf32Gptab) (max : Option Elf32Gptab),
      Precedes (seen.map Elf32Gptab.step) val (max.map Elf32Gptab.step) →
        Precedes ((seen ++ rest).map Elf32Gptab.step) val ((rest.foldl (lookAt val) max).map Elf32Gptab.step) := by
    intro rest
    induction rest with
    | nil =>
      intro seen max precedes
      rw [List.append_nil]
      exact precedes
    | cons e rest ih =>
      intro seen max precedes
      rw [List.foldl_cons, List.append_cons]
      exact ih (seen ++ [e]) _ (precedes_next precedes e)
  exact looks tab [] none (fun _ absent => absurd absent List.not_mem_nil)

theorem raised_steps (tab : List Elf32Gptab) (val : Nat) (add : BfdVma) :
    (tab.map fun e => if val ≤ e.gtGValue then { e with gtBytes := e.gtBytes + add } else e).map Elf32Gptab.step =
      raise val add (tab.map Elf32Gptab.step) := by
  rw [raise, List.map_map, List.map_map]
  refine List.map_congr_left fun e _ => ?_
  by_cases high : val ≤ e.gtGValue <;> simp [Elf32Gptab.step, high]

theorem combineEntry_tabulates (tabulates : Tabulates (tab.map Elf32Gptab.step) steps) (val : Nat) (add : BfdVma) :
    Tabulates ((combineEntry tab val add).map Elf32Gptab.step) (steps ++ [(val, add)]) := by
  have present : tab.any (·.gtGValue = val) = true ↔ val ∈ (tab.map Elf32Gptab.step).map Prod.fst := by
    simp [Elf32Gptab.step]
  unfold combineEntry
  dsimp only
  split
  · next exact =>
    rw [raised_steps]
    exact tabulates.raise (present.mp exact) add
  · next new =>
    have precedes := nextSmallest_precedes val
      (tab.map fun e => if val ≤ e.gtGValue then { e with gtBytes := e.gtBytes + add } else e)
    rw [raised_steps] at precedes
    have inserted := tabulates.insert (fun old => new (present.mpr old)) (precedes_raise precedes) add
    rw [List.map_append, raised_steps, List.map_singleton, Elf32Gptab.step]
    convert inserted using 5
    rw [Option.elim_map]
    rfl

end Table

section Link

variable {tab tab' : List Elf32Gptab} {steps : List (Nat × BfdVma)}

theorem combineRest_tabulates (inputSection : GptabSection) (gpentries : List Nat) {last last' : BfdVma}
    (tabulates : Tabulates (tab.map Elf32Gptab.step) steps)
    (ran : gpentries.foldlM (combineNext inputSection) (tab, last) = .ok (tab', last')) :
    Tabulates (tab'.map Elf32Gptab.step) (steps ++ stepsOf last
      ((gpentries.map (swapGptabIn inputSection.order inputSection.contents)).map Elf32Gptab.step)) := by
  induction gpentries generalizing tab last steps with
  | nil =>
    cases ran
    rw [List.map_nil, List.map_nil, stepsOf, List.append_nil]
    exact tabulates
  | cons gpentry gpentries ih =>
    rw [List.foldlM_cons, combineNext] at ran
    split at ran
    · have rest := ih (combineEntry_tabulates tabulates _ _) ran
      rw [List.append_assoc, List.singleton_append] at rest
      exact rest
    · cases ran

theorem combineSection_tabulates {inputSection : GptabSection} (tabulates : Tabulates (tab.map Elf32Gptab.step) steps)
    (ran : combineSection tab inputSection = .ok tab') :
    Tabulates (tab'.map Elf32Gptab.step) (steps ++ stepsOf 0 (inputSection.entries.map Elf32Gptab.step)) := by
  unfold combineSection at ran
  cases folded : (gpentries inputSection.size).foldlM (combineNext inputSection) (tab, 0) with
  | error e =>
    rw [folded] at ran
    cases ran
  | ok combined =>
    rw [folded] at ran
    cases ran
    exact combineRest_tabulates inputSection _ tabulates folded

def linkSteps (mapHead : List LinkOrder) : List (Nat × BfdVma) :=
  ((inputSections mapHead).map fun s => stepsOf 0 (s.entries.map Elf32Gptab.step)).flatten

theorem linkOrders_tabulate {mapHead : List LinkOrder} (tabulates : Tabulates (tab.map Elf32Gptab.step) steps)
    (ran : mapHead.foldlM combineLinkOrder tab = .ok tab') :
    Tabulates (tab'.map Elf32Gptab.step) (steps ++ linkSteps mapHead) := by
  induction mapHead generalizing tab steps with
  | nil =>
    cases ran
    simpa [linkSteps, inputSections] using tabulates
  | cons p mapHead ih =>
    rw [List.foldlM_cons] at ran
    cases p with
    | indirect inputSection =>
      cases combined : combineSection tab inputSection with
      | error e =>
        rw [combineLinkOrder, combined] at ran
        cases ran
      | ok next =>
        rw [combineLinkOrder, combined] at ran
        have rest := ih (combineSection_tabulates tabulates combined) ran
        simpa [linkSteps, inputSections, List.append_assoc] using rest
    | data =>
      simpa [linkSteps, inputSections] using ih tabulates ran
    | other => cases ran

end Link

end Openisa.Sections
