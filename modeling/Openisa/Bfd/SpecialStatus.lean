import Openisa.Bfd.RelocatedContents

/-! The statuses that the special functions return, and what of them arrives in the loop. -/

namespace Openisa.Bfd

open Openisa.Library.ByteStore

def installingSpecialP : SpecialFunction → Bool
  | .bfdMipsElfGenericReloc | .bfdMipsElfHi16Reloc | .bfdMipsElfGot16Reloc | .bfdMipsElfLo16Reloc
  | .bfdMipsElf32Gprel16Reloc => true
  | _ => false

/-- The status says that the field was looked at, and says nothing about the symbol. -/
def fieldStatusP : BfdRelocStatus → Bool
  | .ok | .overflow | .outofrange => true
  | _ => false

variable {lib : BfdLib} {order : Endian} {ctx : LinkContext} {job : LinkOrder}

theorem field_status_of_verdict {status : BfdRelocStatus} (verdict : status = .ok ∨ status = .overflow) :
    fieldStatusP status = true := by
  rcases verdict with rfl | rfl <;> rfl

theorem generic_reloc_status (verdicts : lib.OkOrOverflow) (entry : Arelent) (symbol : Asymbol)
    (data : DataPtr) (inputSection : Asection) (relocatable : Bool) (s : RelocState) :
    fieldStatusP
      (bfdMipsElfGenericReloc lib order entry symbol data inputSection relocatable s).status = true := by
  rw [bfdMipsElfGenericReloc]
  split
  · rfl
  · dsimp only
    split
    · rfl
    · split
      · exact field_status_of_verdict (verdicts _ _ _ _ _)
      · rfl

theorem hi16_reloc_status (entry : Arelent) (data : DataPtr) (inputSection : Asection)
    (relocatable : Bool) (s : RelocState) :
    fieldStatusP (bfdMipsElfHi16Reloc entry data inputSection relocatable s).status = true := by
  rw [bfdMipsElfHi16Reloc]
  split <;> rfl

theorem drain_status (verdicts : lib.OkOrOverflow) (symbol : Asymbol) (data : DataPtr) (relocatable : Bool)
    (pending : List MipsHi16) (s : RelocState) :
    fieldStatusP (drainHi16List lib order symbol data relocatable pending s).1 = true := by
  induction pending generalizing s with
  | nil => rfl
  | cons hi next ih =>
      simp only [drainHi16List]
      split
      · exact generic_reloc_status verdicts _ _ _ _ _ _
      · exact ih _

theorem lo16_reloc_status (verdicts : lib.OkOrOverflow) (entry : Arelent) (symbol : Asymbol)
    (data : DataPtr) (inputSection : Asection) (relocatable : Bool) (s : RelocState) :
    fieldStatusP
      (bfdMipsElfLo16Reloc lib order entry symbol data inputSection relocatable s).status = true := by
  rw [bfdMipsElfLo16Reloc]
  split
  · rfl
  · dsimp only
    split
    · exact drain_status verdicts _ _ _ _ _
    · exact generic_reloc_status verdicts _ _ _ _ _ _

theorem gprel16_with_gp_status (verdicts : lib.OkOrOverflow) (symbol : Asymbol) (entry : Arelent)
    (inputSection : Asection) (relocatable : Bool) (data : DataPtr) (gp : BfdVma) (s : RelocState) :
    fieldStatusP (bfdMipsElfGprel16WithGp lib order symbol entry inputSection relocatable data gp s).status =
      true := by
  rw [bfdMipsElfGprel16WithGp]
  split
  · rfl
  · dsimp only
    generalize (if (!relocatable || symbol.flags.sectionSym) = true then
      entry.addend + (gprelRelocation symbol - gp) else entry.addend) = val
    split
    · split
      · exact field_status_of_verdict (verdicts _ _ _ _ _)
      · rfl
    · rfl

theorem run_special_status (order : Endian) (verdicts : lib.OkOrOverflow) (outsymbols : Option (List OutSymbol))
    (f : SpecialFunction) (installing : installingSpecialP f = true) (other : f ≠ .bfdMipsElf32Gprel16Reloc)
    (entry : Arelent) (data : DataPtr) (inputSection : Asection) (relocatable : Bool) (s : RelocState) :
    fieldStatusP
      (runSpecialFunction lib order outsymbols f entry data inputSection relocatable s).status = true := by
  cases f with
  | bfdMipsElfGenericReloc => exact generic_reloc_status verdicts _ _ _ _ _ _
  | bfdMipsElfHi16Reloc => exact hi16_reloc_status _ _ _ _ _
  | bfdMipsElfGot16Reloc =>
      rw [runSpecialFunction, bfdMipsElfGot16Reloc]
      split
      · exact generic_reloc_status verdicts _ _ _ _ _ _
      · exact hi16_reloc_status _ _ _ _ _
  | bfdMipsElfLo16Reloc => exact lo16_reloc_status verdicts _ _ _ _ _ _
  | bfdMipsElf32Gprel16Reloc => exact absurd rfl other
  | mipsElfGprel32Reloc => cases installing
  | mips16GprelReloc => cases installing
  | mips3264bitReloc => cases installing
  | bfdElfGenericReloc => cases installing
  | bfdElfRelVtableRelocFn => cases installing

theorem field_status_finished {status : BfdRelocStatus} (field : fieldStatusP status = true) :
    status ≠ .continue ∧ status ≠ .undefined := by
  revert field
  cases status <;> decide

/-- The loop gets the result of such a special function as it is, unless a partial link skips the
relocation. -/
theorem relocate_parent_installing (verdicts : ctx.lib.OkOrOverflow) (special : ctx.lib.ReturnsSpecial)
    (f : SpecialFunction) (installing : installingSpecialP f = true) (other : f ≠ .bfdMipsElf32Gprel16Reloc)
    (parent : Arelent) (isF : parent.howto.specialFunction = some f)
    (present : job.relocatable = true → parent.sym.asection.kind ≠ .absolute) (s : RelocState) :
    relocateParent ctx job parent s = runSpecialFunction ctx.lib ctx.order ctx.outsymbols f parent job.data
      job.inputSection job.relocatable s := by
  have status := run_special_status ctx.order verdicts ctx.outsymbols f installing other parent
    job.data job.inputSection job.relocatable s
  have generic : (some f == some SpecialFunction.bfdMipsElf32Gprel16Reloc) = false := by
    simpa using other
  simp only [relocateParent, isF, generic, Bool.and_false, Option.map_some, Bool.false_eq_true, if_false]
  exact special _ _ _ _ _ _ present (field_status_finished status).1

end Openisa.Bfd
