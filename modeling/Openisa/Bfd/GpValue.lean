import Openisa.Bfd.RelocatedContents
import Openisa.Bfd.Reference
import Openisa.Bfd.SignedField

/-! The value of gp that the generic path takes from the entry of `_gp`, and the one that the final
link computes from the same entry. -/

namespace Openisa.Bfd

open Openisa.Library
open Openisa.Library.ByteStore

/-- A `struct bfd_link_hash_entry` with the sections of definitions. -/
inductive GpEntry where
  | new | undefined | undefweak | common
  | defined (value : BfdVma) (asection : Asection)
  | defweak (value : BfdVma) (asection : Asection)
  | indirect (link : GpEntry)
  | warning (link : GpEntry)
  deriving DecidableEq, Repr

namespace GpEntry

def hashEntry : GpEntry → LinkHashEntry
  | new => .new
  | undefined => .undefined
  | undefweak => .undefweak
  | common => .common
  | defined value _ => .defined value
  | defweak value _ => .defweak value
  | indirect link => .indirect link.hashEntry
  | warning link => .warning link.hashEntry

end GpEntry

structure GpDefinition where
  value : BfdVma
  asection : Asection
  weak : Bool
  deriving DecidableEq, Repr

def GpEntry.definition : GpEntry → Option GpDefinition
  | defined value asection => some ⟨value, asection, false⟩
  | defweak value asection => some ⟨value, asection, true⟩
  | indirect link | warning link => link.definition
  | new | undefined | undefweak | common => none

namespace GpDefinition

def base (g : GpDefinition) : BfdVma := g.asection.outputSection.vma + g.asection.outputOffset

def address (g : GpDefinition) : BfdVma := g.value + g.base

end GpDefinition

/-- `bfd_link_hash_lookup` with its last argument set follows indirect and warning entries. -/
structure FollowsLinks (follow : GpEntry → GpEntry) : Prop where
  indirect : ∀ link, follow (.indirect link) = follow link
  warning : ∀ link, follow (.warning link) = follow link
  other : ∀ h, (∀ link, h ≠ .indirect link ∧ h ≠ .warning link) → follow h = h

/-- What `_bfd_mips_elf_final_link` looks at to get a value for the GP register. -/
structure GpSource where
  elfGp : BfdVma
  gp : Option GpEntry
  isVxworks : Bool
  globalOffsetTable : Option GpEntry
  relocatable : Bool
  lowestGprel : BfdVma
  gpOffset : BfdVma

def strongAddress (follow : GpEntry → GpEntry) (h : Option GpEntry) : Option BfdVma :=
  match h.map follow with
  | some (.defined value asection) =>
      some (value + asection.outputSection.vma + asection.outputOffset)
  | _ => none

/-- `elf_gp` of the output file once the final link has looked for a value. -/
def finalLinkGp (follow : GpEntry → GpEntry) (source : GpSource) : BfdVma :=
  if source.elfGp ≠ 0 then source.elfGp else
  match strongAddress follow source.gp with
  | some gp => gp
  | none =>
      match if source.isVxworks then strongAddress follow source.globalOffsetTable else none with
      | some gp => gp
      | none => if source.relocatable then source.lowestGprel + source.gpOffset else source.elfGp

variable {ctx : LinkContext} {follow : GpEntry → GpEntry}

theorem lookup_gp_definition (h : GpEntry) (g : GpDefinition) (isDefinition : h.definition = some g) :
    lookupGp (some h.hashEntry) = some (true, g.value) := by
  induction h with
  | defined value asection | defweak value asection =>
      obtain rfl := Option.some.inj isDefinition
      rfl
  | indirect link ih | warning link ih => exact ih isDefinition
  | new | undefined | undefweak | common => cases isDefinition

theorem strong_address_definition (follows : FollowsLinks follow) (h : GpEntry) (g : GpDefinition)
    (isDefinition : h.definition = some g) :
    strongAddress follow (some h) = if g.weak then none else some g.address := by
  induction h with
  | defined value asection =>
      obtain rfl := Option.some.inj isDefinition
      rw [strongAddress, Option.map_some, follows.other _ fun link => ⟨by simp, by simp⟩]
      simp [GpDefinition.address, GpDefinition.base, BitVec.add_assoc]
  | defweak value asection =>
      obtain rfl := Option.some.inj isDefinition
      rw [strongAddress, Option.map_some, follows.other _ fun link => ⟨by simp, by simp⟩]
      rfl
  | indirect link ih =>
      rw [strongAddress, Option.map_some, follows.indirect]
      exact ih isDefinition
  | warning link ih =>
      rw [strongAddress, Option.map_some, follows.warning]
      exact ih isDefinition
  | new | undefined | undefweak | common => cases isDefinition

/-- What a final link takes for gp without a strong definition of `_gp`. -/
def gpFallback (follow : GpEntry → GpEntry) (isVxworks : Bool) (globalOffsetTable : Option GpEntry) : BfdVma :=
  ((if isVxworks then strongAddress follow globalOffsetTable else none).getD 0)

/-- A gp-relative relocation whose addend stands in the field. -/
structure GprelReloc (entry : Arelent) : Prop where
  known : entry.howto = mipsElf32RtypeToHowto entry.howto.type
  gprel : entry.howto.type = .rMipsGprel16 ∨ entry.howto.type = .rMipsLiteral
  addend : entry.addend = 0

def gprelField (order : Endian) (entry : Arelent) (d : Store) : Int :=
  signedField order entry.howto d entry.address.toNat

theorem GprelReloc.layout {entry : Arelent} (reloc : GprelReloc entry) :
    entry.howto.SignedField ∧ entry.howto.rightshift = 0 ∧ entry.howto.partialInplace = true ∧
      entry.howto.specialFunction = some .bfdMipsElf32Gprel16Reloc := by
  rw [reloc.known]
  rcases reloc.gprel with gprel | literal
  · rw [gprel]
    decide
  · rw [literal]
    decide

theorem relocate_parent_gprel (sums : ctx.lib.StoresSum) (job : LinkOrder) (found : job.gpFound = true)
    (final : job.relocatable = false) (entry : Arelent) (reloc : GprelReloc entry)
    (inside : ¬ entry.address > job.inputSection.limit) (s : RelocState) :
    let val := gprelRelocation entry.sym - job.gp
    (relocateParent ctx job entry s).status =
        (ctx.lib.relocateContents entry.howto ctx.order val (s.mem job.data) entry.address.toNat).1 ∧
      (relocateParent ctx job entry s).state.mem job.data =
        addToWord ctx.order entry.howto val (s.mem job.data) entry.address.toNat := by
  rcases reloc.layout with ⟨field, _, inplace, special⟩
  have value : entry.addend + (gprelRelocation entry.sym - job.gp) = gprelRelocation entry.sym - job.gp := by
    rw [reloc.addend]
    exact BitVec.zero_add _
  have stored : (ctx.lib.relocateContents entry.howto ctx.order (gprelRelocation entry.sym - job.gp)
      (s.mem job.data) entry.address.toNat).2 = addToWord ctx.order entry.howto
        (gprelRelocation entry.sym - job.gp) (s.mem job.data) entry.address.toNat :=
    relocate_contents_word sums entry.howto field.word _ _ _
  simp only [relocateParent, found, special, beq_self_eq_true, Bool.and_self, if_true,
    bfdMipsElfGprel16WithGp, if_neg inside, final, Bool.not_false, Bool.true_or, value, inplace]
  split
  · exact ⟨rfl, by rw [RelocState.setData_mem]; exact stored⟩
  · rename_i ok
    exact ⟨(not_not.mp ok).symm, by rw [RelocState.setData_mem]; exact stored⟩

/-- The generic path and the final link use one gp, the address of `_gp`, and a gp-relative
relocation that succeeds leaves the distance from it beside the addend. -/
structure OneGp (ctx : LinkContext) (follow : GpEntry → GpEntry) (source : GpSource) (h : GpEntry)
    (g : GpDefinition) : Prop where
  used : lookupGp (some h.hashEntry) = some (true, g.address)
  final : finalLinkGp follow source = g.address
  stored : ∀ gp, lookupGp (some h.hashEntry) = some (true, gp) →
    ∀ inputSection data entry s, GprelReloc entry →
      let r := relocateParent ctx ⟨inputSection, data, false, true, gp⟩ entry s
      r.status = .ok → gprelField ctx.order entry (r.state.mem data) =
        signedAddress (gprelRelocation entry.sym - g.address) + gprelField ctx.order entry (s.mem data)

theorem final_link_gp_definition (follows : FollowsLinks follow) (h : GpEntry) (g : GpDefinition)
    (isDefinition : h.definition = some g) (source : GpSource) (isGp : source.gp = some h)
    (unset : source.elfGp = 0) (final : source.relocatable = false) :
    finalLinkGp follow source = if g.weak then
      gpFallback follow source.isVxworks source.globalOffsetTable else g.address := by
  rw [finalLinkGp, if_neg (not_not.mpr unset), isGp, strong_address_definition follows h g isDefinition]
  by_cases weak : g.weak = true
  · rw [if_pos weak, if_pos weak, final, unset, gpFallback]
    dsimp only
    generalize (if source.isVxworks = true then strongAddress follow source.globalOffsetTable else none) = other
    cases other <;> rfl
  · rw [if_neg weak, if_neg weak]

theorem GpDefinition.address_eq_iff (g : GpDefinition) : g.address = g.value ↔ g.base = 0 := by
  rw [GpDefinition.address]
  exact BitVec.add_right_eq_self

theorem gprel_stored (sums : ctx.lib.StoresSum) (checks : ctx.lib.ChecksSigned)
    (verdicts : ctx.lib.OkOrOverflow) (inputSection : Asection) (data : DataPtr) (entry : Arelent) (s : RelocState)
    (reloc : GprelReloc entry) (gp : BfdVma) :
    let r := relocateParent ctx ⟨inputSection, data, false, true, gp⟩ entry s
    r.status = .ok → gprelField ctx.order entry (r.state.mem data) =
      signedAddress (gprelRelocation entry.sym - gp) + gprelField ctx.order entry (s.mem data) := by
  intro r ok
  by_cases inside : entry.address > inputSection.limit
  · rcases reloc.layout with ⟨_, _, _, special⟩
    have outside : r.status = .outofrange := by
      simp only [r, relocateParent, special, beq_self_eq_true, Bool.and_self, if_true,
        bfdMipsElfGprel16WithGp, if_pos inside]
    rw [ok] at outside
    cases outside
  · have turn := relocate_parent_gprel sums ⟨inputSection, data, false, true, gp⟩ rfl rfl entry reloc inside s
    rcases reloc.layout with ⟨field, shift, _, _⟩
    have status : r.status = _ := turn.1
    rw [ok] at status
    have room := (signed_verdict ctx.order checks verdicts entry.howto field _ _ _).mp status.symm
    have sum := signed_field_sum ctx.order entry.howto field _ _ _ room
    rw [shift, Int.pow_zero, Int.ediv_one] at sum
    have stored : r.state.mem data = _ := turn.2
    rw [gprelField, stored]
    exact sum

/-- Both paths agree on gp exactly when `_gp` lies in a section at address 0 and is not weak, or is
what the final link falls back on. -/
theorem one_gp_iff (sums : ctx.lib.StoresSum) (checks : ctx.lib.ChecksSigned)
    (verdicts : ctx.lib.OkOrOverflow) (follows : FollowsLinks follow) (h : GpEntry) (g : GpDefinition)
    (isDefinition : h.definition = some g) (source : GpSource) (isGp : source.gp = some h)
    (unset : source.elfGp = 0) (final : source.relocatable = false) :
    OneGp ctx follow source h g ↔ g.base = 0 ∧ (g.weak = false ∨
      gpFallback follow source.isVxworks source.globalOffsetTable = g.value) := by
  have searched := lookup_gp_definition h g isDefinition
  have linked := final_link_gp_definition follows h g isDefinition source isGp unset final
  constructor
  · intro one
    have used := one.used
    rw [searched, Option.some.injEq, Prod.mk.injEq] at used
    have base := g.address_eq_iff.mp used.2.symm
    refine ⟨base, ?_⟩
    have same := one.final
    rw [linked] at same
    by_cases weak : g.weak = true
    · rw [if_pos weak] at same
      exact Or.inr (same.trans used.2.symm)
    · exact Or.inl (Bool.eq_false_iff.mpr weak)
  · rintro ⟨base, strong⟩
    have address := g.address_eq_iff.mpr base
    refine ⟨?_, ?_, ?_⟩
    · rw [searched, address]
    · rw [linked]
      rcases strong with strong | fallback
      · rw [strong]
        rfl
      · rw [fallback, address]
        exact ite_self _
    · intro gp found inputSection data entry s reloc r ok
      rw [searched, Option.some.injEq, Prod.mk.injEq] at found
      rw [address, found.2]
      exact gprel_stored sums checks verdicts inputSection data entry s reloc gp ok

/-- `bfd_link_hash_lookup` along the links. -/
def referenceFollow : GpEntry → GpEntry
  | .indirect link | .warning link => referenceFollow link
  | h => h

def sampleGpSource (h : GpEntry) : GpSource := ⟨0, some h, false, none, false, 0, 0⟩

theorem reference_follows : FollowsLinks referenceFollow where
  indirect _ := rfl
  warning _ := rfl
  other h plain := by
    cases h with
    | indirect link => exact absurd rfl (plain link).1
    | warning link => exact absurd rfl (plain link).2
    | new | undefined | undefweak | common => rfl
    | defined value asection | defweak value asection => rfl

def absoluteGp : GpEntry := .warning (.indirect (.defined 0x418000 (sectionAt 0 0)))

theorem one_gp_absolute :
    OneGp referenceContext referenceFollow (sampleGpSource absoluteGp) absoluteGp
      ⟨0x418000, sectionAt 0 0, false⟩ :=
  (one_gp_iff reference_stores_sum reference_checks_signed reference_ok_or_overflow reference_follows
    absoluteGp ⟨0x418000, sectionAt 0 0, false⟩ rfl (sampleGpSource absoluteGp) rfl rfl rfl).mpr
      ⟨by decide, Or.inl rfl⟩

def relativeGp : GpEntry := .defined 0x7ff0 (sectionAt 0x410000 0x10000)

theorem two_gp_values :
    ¬ OneGp referenceContext referenceFollow (sampleGpSource relativeGp) relativeGp
      ⟨0x7ff0, sectionAt 0x410000 0x10000, false⟩ := by
  intro one
  have used := one.used
  revert used
  decide

end Openisa.Bfd
