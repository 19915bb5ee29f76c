import Openisa.Bfd.Reference
import Openisa.Bfd.SpecialStatus

/-! Which relocations against undefined symbols lead to a call of the `undefined_symbol` callback in
a final link. -/

namespace Openisa.Bfd

open Openisa.Library.ByteStore

structure StrongUndefined (symbol : Asymbol) : Prop where
  undefined : symbol.asection.kind = .undefined
  strong : symbol.flags.isWeak = false

variable {lib : BfdLib} {order : Endian} {ctx : LinkContext} {job : LinkOrder}

theorem gprel16_reloc_undefined (outsymbols : Option (List OutSymbol)) (entry : Arelent) (symbol : Asymbol)
    (undefined : symbol.asection.kind = .undefined) (data : DataPtr) (inputSection : Asection)
    (s : RelocState) :
    bfdMipsElf32Gprel16Reloc lib order outsymbols entry symbol data inputSection false s =
      ⟨.undefined, entry, s, none⟩ := by
  simp [bfdMipsElf32Gprel16Reloc, gprel16AtLocation, mipsElfFinalGp, undefined]

/-- The relocations whose symbol the loop asks about: the gp-relative ones, as long as gp is not known
before the loop. -/
def Asked (job : LinkOrder) (parent : Arelent) : Prop :=
  parent.howto.specialFunction = some .bfdMipsElf32Gprel16Reloc ∧ job.gpFound = false

theorem undefined_parent (verdicts : ctx.lib.OkOrOverflow) (special : ctx.lib.ReturnsSpecial)
    (final : job.relocatable = false) (parent : Arelent) (undefined : parent.sym.asection.kind = .undefined)
    (f : SpecialFunction) (isF : parent.howto.specialFunction = some f)
    (installing : installingSpecialP f = true) (s : RelocState) :
    (Asked job parent → relocateParent ctx job parent s = ⟨.undefined, parent, s, none⟩) ∧
      (¬ Asked job parent → fieldStatusP (relocateParent ctx job parent s).status = true) := by
  constructor
  · rintro ⟨isGprel, notFound⟩
    have direct : runSpecialFunction ctx.lib ctx.order ctx.outsymbols .bfdMipsElf32Gprel16Reloc parent
        job.data job.inputSection false s = ⟨.undefined, parent, s, none⟩ :=
      gprel16_reloc_undefined ctx.outsymbols parent parent.sym undefined job.data job.inputSection s
    simp only [relocateParent, isGprel, notFound, Bool.false_and, Bool.false_eq_true, if_false,
      Option.map_some, final]
    rw [special, direct]
    · exact fun continued => by cases continued
    · rw [direct]
      exact fun continued => BfdRelocStatus.noConfusion continued
  · intro unasked
    by_cases isGprel : f = .bfdMipsElf32Gprel16Reloc
    · subst isGprel
      have found : job.gpFound = true := by
        cases known : job.gpFound with
        | true => rfl
        | false => exact absurd ⟨isF, known⟩ unasked
      simp only [relocateParent, isF, found, Bool.true_and, beq_self_eq_true, if_true]
      exact gprel16_with_gp_status verdicts _ _ _ _ _ _ _
    · rw [relocate_parent_installing verdicts special f installing isGprel parent isF
        (fun kept => by rw [final] at kept; cases kept)]
      exact run_special_status ctx.order verdicts _ f installing isGprel _ _ _ _ _

/-- A turn asked the callback about the relocation, and did not count it as done. -/
structure Step.ReportsUndefined (step : Step) (inputSection : Asection) (parent : Arelent) : Prop where
  reloc : step.reloc = parent
  called : step.diagnostic = some (.undefinedSymbol parent.sym.name inputSection parent.address)
  unresolved : step.status ≠ .ok

/-- The step that a loop adds when it reaches the relocation after `front`. -/
def stepAfter (ctx : LinkContext) (job : LinkOrder) (front back : List Arelent) (parent : Arelent)
    (s : LinkState) : Option Step :=
  (relocateLoop ctx job (front ++ parent :: back) s).2.steps[(relocateLoop ctx job front s).2.steps.length]?

theorem turn_steps (parent : Arelent) (s : LinkState) : (s.turn ctx job parent).steps = s.steps ++
    [⟨parent, (relocateParent ctx job parent s.reloc).entry, (relocateParent ctx job parent s.reloc).status,
      (respond job.inputSection (relocateParent ctx job parent s.reloc)).diagnostic⟩] := rfl

theorem loop_steps (relocs : List Arelent) (s : LinkState) :
    ∃ later, (relocateLoop ctx job relocs s).2.steps = s.steps ++ later := by
  induction relocs generalizing s with
  | nil => exact ⟨[], (List.append_nil _).symm⟩
  | cons parent rest ih =>
      rw [relocateLoop]
      split
      · obtain ⟨later, steps⟩ := ih (s.turn ctx job parent)
        rw [steps, turn_steps, List.append_assoc]
        exact ⟨_, rfl⟩
      · rw [turn_steps]
        exact ⟨_, rfl⟩

theorem step_after_reached (front back : List Arelent) (parent : Arelent) (s : LinkState)
    (reached : (relocateLoop ctx job front s).1 = .data) :
    stepAfter ctx job front back parent s =
      let r := relocateParent ctx job parent (relocateLoop ctx job front s).2.reloc
      some ⟨parent, r.entry, r.status, (respond job.inputSection r).diagnostic⟩ := by
  have tail : ∃ later, (relocateLoop ctx job (front ++ parent :: back) s).2.steps =
      ((relocateLoop ctx job front s).2.turn ctx job parent).steps ++ later := by
    rw [relocate_loop_append front _ s reached, relocateLoop]
    split
    · exact loop_steps back _
    · exact ⟨[], (List.append_nil _).symm⟩
  obtain ⟨later, steps⟩ := tail
  rw [stepAfter, steps, turn_steps, List.append_assoc, List.getElem?_append_right (Nat.le_refl _),
    Nat.sub_self]
  rfl

/-- A relocation against an undefined symbol that a final link reaches leads to the callback exactly
when it is gp-relative and gp was not found. -/
theorem undefined_symbol_reported_iff (ctx : LinkContext) (job : LinkOrder) (verdicts : ctx.lib.OkOrOverflow)
    (special : ctx.lib.ReturnsSpecial)
    (final : job.relocatable = false) (front back : List Arelent) (parent : Arelent)
    (undefined : StrongUndefined parent.sym) (f : SpecialFunction)
    (isF : parent.howto.specialFunction = some f) (installing : installingSpecialP f = true)
    (s : LinkState) (reached : (relocateLoop ctx job front s).1 = .data) :
    (∃ step, stepAfter ctx job front back parent s = some step ∧
        step.ReportsUndefined job.inputSection parent) ↔
      f = .bfdMipsElf32Gprel16Reloc ∧ job.gpFound = false := by
  have asked_iff : (f = .bfdMipsElf32Gprel16Reloc ∧ job.gpFound = false) ↔ Asked job parent := by
    rw [Asked, isF, Option.some.injEq]
  obtain ⟨asked, unasked⟩ := undefined_parent verdicts special final parent undefined.undefined f isF
    installing (relocateLoop ctx job front s).2.reloc
  rw [asked_iff, step_after_reached front back parent s reached]
  constructor
  · rintro ⟨step, found, report⟩
    by_contra notAsked
    have status := unasked notAsked
    obtain rfl := Option.some.inj found
    have called := report.called
    have noReport : ∀ r : SpecialResult, fieldStatusP r.status = true →
        ∀ name section' address, (respond job.inputSection r).diagnostic ≠
          some (.undefinedSymbol name section' address) := by
      intro r field name section' address
      cases verdict : r.status with
      | ok | overflow | outofrange => simp [respond, verdict, Response.diagnostic]
      | «continue» | notsupported | undefined | dangerous =>
          rw [verdict] at field
          cases field
    exact noReport _ status _ _ _ called
  · intro isAsked
    refine ⟨_, rfl, ?_⟩
    simp only [asked isAsked]
    exact ⟨rfl, rfl, fun done => BfdRelocStatus.noConfusion done⟩

def undefinedSymbol : Asymbol :=
  ⟨"missing", ⟨.undefined, ⟨0⟩, 0, 0⟩, 0, ⟨false, false, false, false⟩⟩

theorem undefined_symbol_reported_gprel :
    ∃ step, stepAfter referenceContext (finalJob (sectionAt 0x1000 8)) [] []
        (relocAt .rMipsGprel16 4 undefinedSymbol) (startLink fun _ => 0) = some step ∧
      step.ReportsUndefined (sectionAt 0x1000 8) (relocAt .rMipsGprel16 4 undefinedSymbol) :=
  (undefined_symbol_reported_iff referenceContext (finalJob (sectionAt 0x1000 8))
    reference_ok_or_overflow reference_returns_special rfl [] [] (relocAt .rMipsGprel16 4 undefinedSymbol)
    ⟨rfl, rfl⟩ .bfdMipsElf32Gprel16Reloc rfl rfl (startLink fun _ => 0) rfl).mpr ⟨rfl, rfl⟩

theorem undefined_symbol_resolved_silently :
    ¬ ∃ step, stepAfter referenceContext (finalJob (sectionAt 0x1000 8)) [] []
        (relocAt .rMipsHi16 4 undefinedSymbol) (startLink fun _ => 0) = some step ∧
      step.ReportsUndefined (sectionAt 0x1000 8) (relocAt .rMipsHi16 4 undefinedSymbol) := by
  have silent : stepAfter referenceContext (finalJob (sectionAt 0x1000 8)) [] []
      (relocAt .rMipsHi16 4 undefinedSymbol) (startLink fun _ => 0) =
        some ⟨relocAt .rMipsHi16 4 undefinedSymbol, relocAt .rMipsHi16 4 undefinedSymbol, .ok, none⟩ := rfl
  rintro ⟨step, found, report⟩
  rw [silent] at found
  obtain rfl := Option.some.inj found
  exact report.unresolved rfl

end Openisa.Bfd
