import Openisa.Header.MergedHeader

/-! What the header of the linked file says of the files that went into it. -/

namespace Openisa.Header

open Openisa.Library

def reordered (ibfd obfd : HeaderBfd) : HeaderBfd :=
  { obfd with eFlags := obfd.eFlags ||| ibfd.eFlags &&& efMipsNoreorder }

/-- The ways in which a merge finds nothing wrong. -/
inductive Merged (ibfd obfd : HeaderBfd) : HeaderBfd → Prop
  | foreign : ibfd.isMipsElf = false ∨ obfd.isMipsElf = false → Merged ibfd obfd obfd
  | first : ibfd.isMipsElf = true → obfd.elfFlagsInit = false → Merged ibfd obfd (adoptFirst ibfd (reordered ibfd obfd))
  | same : ibfd.isMipsElf = true → obfd.elfFlagsInit = true →
      (comparedFlags ibfd (reordered ibfd obfd)).1 = (comparedFlags ibfd (reordered ibfd obfd)).2 →
      Merged ibfd obfd (reordered ibfd obfd)
  | empty : ibfd.isMipsElf = true → obfd.elfFlagsInit = true → nullInputBfd ibfd = true →
      Merged ibfd obfd (reordered ibfd obfd)
  | compared : ibfd.isMipsElf = true → obfd.elfFlagsInit = true → nullInputBfd ibfd = false →
      (compareFlags ibfd (reordered ibfd obfd)).ok = true →
      Merged ibfd obfd (compareFlags ibfd (reordered ibfd obfd)).obfd

variable {verify : HeaderBfd → HeaderBfd → Bool}

theorem merged_of_true {ibfd obfd : HeaderBfd}
    (good : (bfdMipsElfMergePrivateBfdData verify ibfd obfd).1 = true) :
    Merged ibfd obfd (bfdMipsElfMergePrivateBfdData verify ibfd obfd).2.1 := by
  unfold bfdMipsElfMergePrivateBfdData at good ⊢
  dsimp only at good ⊢
  split_ifs at good ⊢ with endian foreign target first same empty
  · rw [Bool.or_eq_true, Bool.not_eq_true', Bool.not_eq_true'] at foreign
    exact Merged.foreign foreign
  all_goals have mips : ibfd.isMipsElf = true ∧ obfd.isMipsElf = true := by simpa using foreign
  · exact Merged.first mips.1 (by simpa using first)
  · exact Merged.same mips.1 (by simpa using first) same
  · exact Merged.empty mips.1 (by simpa using first) empty
  · exact Merged.compared mips.1 (by simpa using first) (by simpa using empty) good

/-- One after another, the input files are merged into the output; the answer is whether nothing was
found wrong with any of them. -/
def mergeInputs (verify : HeaderBfd → HeaderBfd → Bool) : List HeaderBfd → HeaderBfd → Bool × HeaderBfd
  | [], obfd => (true, obfd)
  | ibfd :: inputs, obfd =>
      let (ok, merged, _) := bfdMipsElfMergePrivateBfdData verify ibfd obfd
      let (rest, linked) := mergeInputs verify inputs merged
      (ok && rest, linked)

theorem run_of_mergeInputs {inputs : List HeaderBfd} {obfd : HeaderBfd}
    (good : (mergeInputs verify inputs obfd).1 = true) :
    Run Merged inputs obfd (mergeInputs verify inputs obfd).2 := by
  induction inputs generalizing obfd with
  | nil => exact Run.nil obfd
  | cons ibfd inputs ih =>
    rw [mergeInputs] at good ⊢
    simp only [Bool.and_eq_true] at good
    exact Run.cons (merged_of_true good.1) (ih good.2)

/-- A file whose header is compared with that of the output. -/
def TakesPart (ibfd : HeaderBfd) : Prop := ibfd.isMipsElf = true ∧ nullInputBfd ibfd = false

/-- A file as the linker reads it: the machine of a MIPS file is the one that its flags name. -/
structure ReadFor (obfd ibfd : HeaderBfd) : Prop where
  names : ibfd.isMipsElf = true → NamesMachine ibfd
  arch : ibfd.isMipsElf = true → ibfd.archInfo.arch = obfd.archInfo.arch

/-- The output before the first file. -/
structure FreshOutput (obfd : HeaderBfd) : Prop where
  mips : obfd.isMipsElf = true
  uninitialised : obfd.elfFlagsInit = false
  theDefault : obfd.archInfo.theDefault = true

/-- The output once a file has given it flags. -/
structure Begun (obfd : HeaderBfd) : Prop where
  mips : obfd.isMipsElf = true
  initialised : obfd.elfFlagsInit = true
  names : NamesMachine obfd

section Step

variable {ibfd obfd out : HeaderBfd}

theorem reordered_field {part : Flagword} (apart : efMipsNoreorder &&& part = 0) :
    (reordered ibfd obfd).eFlags &&& part = obfd.eFlags &&& part :=
  or_masked_field apart

theorem reordered_names (output : NamesMachine obfd) : NamesMachine (reordered ibfd obfd) := by
  have fields : (reordered ibfd obfd).eFlags &&& (efMipsArch ||| efMipsMach) =
      obfd.eFlags &&& (efMipsArch ||| efMipsMach) := reordered_field (by decide)
  exact (bfdElfMipsMach_congr fields).trans output

theorem adoptFirst_fresh (fresh : FreshOutput obfd) (read : ReadFor obfd ibfd) (mips : ibfd.isMipsElf = true) :
    adoptFirst ibfd (reordered ibfd obfd) =
      { obfd with elfFlagsInit := true, eFlags := ibfd.eFlags, eiClass := ibfd.eiClass, archInfo := ibfd.archInfo } := by
  unfold adoptFirst
  rw [if_pos ⟨(read.arch mips).symm, Or.inl fresh.theDefault⟩]
  rfl

theorem merge_begun (read : ibfd.isMipsElf = true → NamesMachine ibfd) (begun : Begun obfd) :
    Begun (bfdMipsElfMergePrivateBfdData verify ibfd obfd).2.1 := by
  unfold bfdMipsElfMergePrivateBfdData
  dsimp only
  have noted : Begun (reordered ibfd obfd) := ⟨begun.mips, begun.initialised, reordered_names begun.names⟩
  split
  · exact begun
  · split
    · exact begun
    · split
      · exact begun
      · rename_i foreign _
        have mips : ibfd.isMipsElf = true ∧ obfd.isMipsElf = true := by simpa using foreign
        split
        · next first => exact absurd first (by simp [begun.initialised])
        · split
          · exact noted
          · split
            · exact noted
            · obtain ⟨same, initialised, -⟩ := HeaderBfd.same_fields (compareFlags_others ibfd (reordered ibfd obfd))
              exact ⟨same.trans noted.mips, initialised.trans noted.initialised,
                compareFlags_namesMachine ibfd _ (read mips.1) noted.names⟩

theorem Merged.begun_cases (merged : Merged ibfd obfd out) (begun : Begun obfd) :
    (out = obfd ∧ ¬TakesPart ibfd) ∨
      (out = reordered ibfd obfd ∧
        ((comparedFlags ibfd (reordered ibfd obfd)).1 = (comparedFlags ibfd (reordered ibfd obfd)).2 ∨ ¬TakesPart ibfd)) ∨
      (TakesPart ibfd ∧ out = (compareFlags ibfd (reordered ibfd obfd)).obfd ∧
        Compatible ibfd (reordered ibfd obfd) out) := by
  cases merged with
  | foreign other =>
    rcases other with input | output
    · exact Or.inl ⟨rfl, fun takes => by simp [takes.1] at input⟩
    · simp [begun.mips] at output
  | first _ uninitialised => simp [begun.initialised] at uninitialised
  | same _ _ equal => exact Or.inr (Or.inl ⟨rfl, Or.inl equal⟩)
  | empty _ _ null => exact Or.inr (Or.inl ⟨rfl, Or.inr fun takes => by simp [takes.2] at null⟩)
  | compared mips _ counts good => exact Or.inr (Or.inr ⟨⟨mips, counts⟩, rfl, compareFlags_ok ibfd _ good⟩)

theorem Merged.begun (merged : Merged ibfd obfd out) (read : ibfd.isMipsElf = true → NamesMachine ibfd)
    (begun : Begun obfd) : Begun out := by
  have noted : Begun (reordered ibfd obfd) := ⟨begun.mips, begun.initialised, reordered_names begun.names⟩
  rcases merged.begun_cases begun with ⟨same, _⟩ | ⟨same, _⟩ | ⟨takes, same, _⟩
  · exact same ▸ begun
  · exact same ▸ noted
  · obtain ⟨mips, initialised, -⟩ := HeaderBfd.same_fields (compareFlags_others ibfd (reordered ibfd obfd))
    rw [same]
    exact ⟨mips.trans noted.mips, initialised.trans noted.initialised,
      compareFlags_namesMachine ibfd _ (read takes.1) noted.names⟩

theorem same_words_field (part : Flagword)
    (equal : (comparedFlags ibfd (reordered ibfd obfd)).1 = (comparedFlags ibfd (reordered ibfd obfd)).2)
    (kept : ~~~(efMipsNoreorder ||| efMipsXgot ||| efMipsUcode) &&& part = part)
    (abicalls : (efMipsPic ||| efMipsCpic) &&& part = 0) (apart : efMipsNoreorder &&& part = 0) :
    ibfd.eFlags &&& part = obfd.eFlags &&& part := by
  obtain ⟨new, old⟩ := comparedFlags_field ibfd (reordered ibfd obfd) kept abicalls
  rw [← new, equal, old, reordered_field apart]

theorem same_words_mach (read : NamesMachine ibfd) (begun : Begun obfd)
    (equal : (comparedFlags ibfd (reordered ibfd obfd)).1 = (comparedFlags ibfd (reordered ibfd obfd)).2) :
    ibfd.archInfo.mach = obfd.archInfo.mach := by
  have fields : ibfd.eFlags &&& (efMipsArch ||| efMipsMach) = obfd.eFlags &&& (efMipsArch ||| efMipsMach) :=
    same_words_field _ equal (by decide) (by decide) (by decide)
  rw [← show bfdElfMipsMach ibfd.eFlags = ibfd.archInfo.mach from read,
    ← show bfdElfMipsMach obfd.eFlags = obfd.archInfo.mach from begun.names, bfdElfMipsMach_congr fields]

theorem Merged.mach_le (merged : Merged ibfd obfd out) (read : ibfd.isMipsElf = true → NamesMachine ibfd)
    (begun : Begun obfd) :
    obfd.archInfo.mach ≤ out.archInfo.mach ∧ (TakesPart ibfd → ibfd.archInfo.mach ≤ out.archInfo.mach) := by
  rcases merged.begun_cases begun with ⟨same, absent⟩ | ⟨same, equal | absent⟩ | ⟨_, _, compatible⟩
  · exact ⟨same ▸ le_refl _, fun takes => absurd takes absent⟩
  · rw [same]
    exact ⟨le_refl _, fun takes => (same_words_mach (read takes.1) begun equal).le⟩
  · rw [same]
    exact ⟨le_refl _, fun takes => absurd takes absent⟩
  · exact ⟨compatible.old_le, fun _ => compatible.new_le⟩

theorem Merged.mach_taken (merged : Merged ibfd obfd out) (begun : Begun obfd) :
    out.archInfo.mach = obfd.archInfo.mach ∨ (TakesPart ibfd ∧ out.archInfo.mach = ibfd.archInfo.mach) := by
  rcases merged.begun_cases begun with ⟨same, _⟩ | ⟨same, _⟩ | ⟨takes, same, _⟩
  · exact Or.inl (by rw [same])
  · exact Or.inl (by rw [same]; rfl)
  · rcases compareFlags_isa ibfd (reordered ibfd obfd) with ⟨arch, _⟩ | ⟨arch, _⟩
    · exact Or.inl (by rw [same, arch]; rfl)
    · exact Or.inr ⟨takes, by rw [same, arch]⟩

theorem Merged.bits (merged : Merged ibfd obfd out) (begun : Begun obfd) :
    mips32bitFlagsP out.eFlags = mips32bitFlagsP obfd.eFlags ∧
      (TakesPart ibfd → mips32bitFlagsP out.eFlags = mips32bitFlagsP ibfd.eFlags) := by
  have noted : mips32bitFlagsP (reordered ibfd obfd).eFlags = mips32bitFlagsP obfd.eFlags :=
    mips32bitFlagsP_congr (reordered_field (by decide))
  rcases merged.begun_cases begun with ⟨same, absent⟩ | ⟨same, equal | absent⟩ | ⟨_, _, compatible⟩
  · exact ⟨by rw [same], fun takes => absurd takes absent⟩
  · rw [same, noted]
    exact ⟨rfl, fun _ => (mips32bitFlagsP_congr (same_words_field _ equal (by decide) (by decide) (by decide))).symm⟩
  · rw [same, noted]
    exact ⟨rfl, fun takes => absurd takes absent⟩
  · exact ⟨by rw [compatible.out_bits, ← compatible.bits, noted], fun _ => compatible.out_bits⟩

def Has (abfd : HeaderBfd) (flag : Flagword) : Prop := abfd.eFlags &&& flag ≠ 0

instance (abfd : HeaderBfd) (flag : Flagword) : Decidable (Has abfd flag) := inferInstanceAs (Decidable (_ ≠ _))

theorem has_congr {f g : HeaderBfd} {flag : Flagword} (same : f.eFlags &&& flag = g.eFlags &&& flag) :
    Has f flag ↔ Has g flag := by
  rw [Has, Has, same]

theorem has_or {f g h : HeaderBfd} {flag : Flagword}
    (joined : f.eFlags &&& flag = g.eFlags &&& flag ||| h.eFlags &&& flag) : Has f flag ↔ Has g flag ∨ Has h flag := by
  rw [Has, Has, Has, joined, Ne, or_eq_zero]
  exact not_and_or

theorem Merged.extension (merged : Merged ibfd obfd out) (begun : Begun obfd) {flag : Flagword}
    (inside : efMipsArchAse &&& flag = flag) : Has out flag ↔ Has obfd flag ∨ (TakesPart ibfd ∧ Has ibfd flag) := by
  have reach : efMipsNoreorder &&& flag = 0 := by
    rw [← inside, ← BitVec.and_assoc]
    exact BitVec.zero_and
  have noted : Has (reordered ibfd obfd) flag ↔ Has obfd flag := has_congr (reordered_field reach)
  rcases merged.begun_cases begun with ⟨same, absent⟩ | ⟨same, equal | absent⟩ | ⟨takes, same, _⟩
  · rw [same]
    exact ⟨Or.inl, fun either => either.resolve_right fun takes => absent takes.1⟩
  · have fields : ibfd.eFlags &&& flag = obfd.eFlags &&& flag :=
      agree_part inside (same_words_field efMipsArchAse equal (by decide) (by decide) (by decide))
    rw [same, noted, has_congr fields]
    exact ⟨Or.inl, fun either => either.elim id And.right⟩
  · rw [same, noted]
    exact ⟨Or.inl, fun either => either.resolve_right fun takes => absent takes.1⟩
  · have joined := compareFlags_ase ibfd (reordered ibfd obfd)
    rw [← BitVec.and_or_distrib_right] at joined
    have part := agree_part inside joined
    rw [BitVec.and_or_distrib_right] at part
    rw [same, has_or part, noted]
    exact ⟨fun either => either.imp id fun has => ⟨takes, has⟩, fun either => either.imp id And.right⟩

def Mixed (abfd : HeaderBfd) : Prop := Has abfd efMipsArchAseM16 ∧ Has abfd efMipsArchAseMicromips

theorem mixed_of_equal (equal : ibfd.eFlags &&& efMipsArchAse = obfd.eFlags &&& efMipsArchAse)
    (m16 : Has obfd efMipsArchAseM16 ∨ (TakesPart ibfd ∧ Has ibfd efMipsArchAseM16))
    (micro : Has obfd efMipsArchAseMicromips ∨ (TakesPart ibfd ∧ Has ibfd efMipsArchAseMicromips)) : Mixed obfd := by
  have same16 : Has ibfd efMipsArchAseM16 ↔ Has obfd efMipsArchAseM16 := has_congr (agree_part (by decide) equal)
  have sameMicro : Has ibfd efMipsArchAseMicromips ↔ Has obfd efMipsArchAseMicromips :=
    has_congr (agree_part (by decide) equal)
  rw [same16] at m16
  rw [sameMicro] at micro
  exact ⟨m16.elim id And.right, micro.elim id And.right⟩

theorem Merged.unmixed (merged : Merged ibfd obfd out) (begun : Begun obfd) (input : ¬Mixed ibfd)
    (output : ¬Mixed obfd) : ¬Mixed out := by
  rintro ⟨m16, micro⟩
  rw [merged.extension begun (by decide)] at m16 micro
  have noted : (reordered ibfd obfd).eFlags &&& efMipsArchAse = obfd.eFlags &&& efMipsArchAse :=
    reordered_field (by decide)
  rcases merged.begun_cases begun with ⟨_, absent⟩ | ⟨_, equal | absent⟩ | ⟨_, _, compatible⟩
  · exact output ⟨m16.resolve_right fun has => absent has.1, micro.resolve_right fun has => absent has.1⟩
  · exact output (mixed_of_equal (same_words_field _ equal (by decide) (by decide) (by decide)) m16 micro)
  · exact output ⟨m16.resolve_right fun has => absent has.1, micro.resolve_right fun has => absent has.1⟩
  · rcases compatible.extensions with equal | ⟨microWith16, m16WithMicro⟩
    · exact output (mixed_of_equal (equal.trans noted) m16 micro)
    · have note16 : Has (reordered ibfd obfd) efMipsArchAseM16 ↔ Has obfd efMipsArchAseM16 :=
        has_congr (agree_part (by decide) noted)
      have noteMicro : Has (reordered ibfd obfd) efMipsArchAseMicromips ↔ Has obfd efMipsArchAseMicromips :=
        has_congr (agree_part (by decide) noted)
      rcases m16 with old16 | ⟨_, new16⟩
      · rcases micro with oldMicro | ⟨_, newMicro⟩
        · exact output ⟨old16, oldMicro⟩
        · exact m16WithMicro ⟨note16.mpr old16, newMicro⟩
      · rcases micro with oldMicro | ⟨_, newMicro⟩
        · exact microWith16 ⟨noteMicro.mpr oldMicro, new16⟩
        · exact input ⟨new16, newMicro⟩

theorem Merged.noreorder (merged : Merged ibfd obfd out) (begun : Begun obfd) :
    Has out efMipsNoreorder ↔ Has obfd efMipsNoreorder ∨ (ibfd.isMipsElf = true ∧ Has ibfd efMipsNoreorder) := by
  have noted : Has (reordered ibfd obfd) efMipsNoreorder ↔ Has obfd efMipsNoreorder ∨ Has ibfd efMipsNoreorder :=
    has_or or_masked_same
  cases merged with
  | foreign other =>
    rcases other with input | output
    · simp [input]
    · simp [begun.mips] at output
  | first _ uninitialised => simp [begun.initialised] at uninitialised
  | same mips _ _ => rw [noted, mips]; simp
  | empty mips _ _ => rw [noted, mips]; simp
  | compared mips _ _ _ =>
    have field : (compareFlags ibfd (reordered ibfd obfd)).obfd.eFlags &&& efMipsNoreorder =
        (reordered ibfd obfd).eFlags &&& efMipsNoreorder := by
      rw [compareFlags_field ibfd _ (by decide) (by decide) (by decide) (by decide) (by decide)]
      exact Comparison.abicalls_field ibfd _ (by decide) (by decide)
    rw [has_congr field, noted, mips]
    simp

/-- An input counts as position independent when it says so or is a shared object. -/
def PicInput (ibfd : HeaderBfd) : Prop := ibfd.dynamic = true ∨ Has ibfd efMipsPic

theorem comparedFlags_pic (ibfd obfd : HeaderBfd) :
    ((comparedFlags ibfd obfd).1 &&& efMipsPic ≠ 0 ↔ PicInput ibfd) ∧
      (comparedFlags ibfd obfd).2 &&& efMipsPic = obfd.eFlags &&& efMipsPic := by
  have kept : ~~~(efMipsNoreorder ||| efMipsXgot ||| efMipsUcode) &&& efMipsPic = efMipsPic := by decide
  have whole : (efMipsPic ||| efMipsCpic) &&& efMipsPic = efMipsPic := by decide
  have set : efMipsPic ≠ 0 := by decide
  unfold comparedFlags PicInput Has
  dsimp only
  refine ⟨?_, by rw [BitVec.and_assoc, kept]⟩
  split
  · next shared =>
    rw [BitVec.and_or_distrib_right, whole, Ne, or_eq_zero]
    exact ⟨fun _ => Or.inl shared, fun _ none => set none.2⟩
  · next plain => rw [BitVec.and_assoc, kept]; simp [plain]

theorem Merged.pic (merged : Merged ibfd obfd out) (begun : Begun obfd) :
    Has out efMipsPic ↔ Has obfd efMipsPic ∧ (TakesPart ibfd → PicInput ibfd) := by
  have noted : Has (reordered ibfd obfd) efMipsPic ↔ Has obfd efMipsPic := has_congr (reordered_field (by decide))
  obtain ⟨new, old⟩ := comparedFlags_pic ibfd (reordered ibfd obfd)
  rcases merged.begun_cases begun with ⟨same, absent⟩ | ⟨same, equal | absent⟩ | ⟨takes, same, _⟩
  · rw [same]
    exact ⟨fun has => ⟨has, fun takes => absurd takes absent⟩, And.left⟩
  · rw [same, noted]
    refine ⟨fun has => ⟨has, fun _ => ?_⟩, And.left⟩
    rw [← new, equal, old]
    exact noted.mpr has
  · rw [same, noted]
    exact ⟨fun has => ⟨has, fun takes => absurd takes absent⟩, And.left⟩
  · have field : (compareFlags ibfd (reordered ibfd obfd)).obfd.eFlags &&& efMipsPic =
        (reordered ibfd obfd).eFlags &&& ((comparedFlags ibfd (reordered ibfd obfd)).1 &&& efMipsPic) := by
      rw [compareFlags_field ibfd _ (by decide) (by decide) (by decide) (by decide) (by decide)]
      exact Comparison.abicalls_pic ibfd _
    rw [same, ← noted, ← new, Has, Has, field, flag_and_iff (show efMipsPic = BitVec.twoPow 32 1 by decide)]
    exact ⟨fun both => ⟨both.1, fun _ => both.2⟩, fun both => ⟨both.1, both.2 takes⟩⟩

end Step

/-- What `_bfd_mips_elf_final_write_processing` makes of the flags. -/
def finalWriteFlags (abfd : HeaderBfd) : Flagword :=
  if abfd.eFlags &&& efMipsMach = 0 then mipsSetIsaFlags abfd.archInfo.mach abfd.eFlags else abfd.eFlags

theorem names_finalWriteFlags {abfd : HeaderBfd} (names : NamesMachine abfd) :
    bfdElfMipsMach (finalWriteFlags abfd) = abfd.archInfo.mach := by
  unfold finalWriteFlags
  split
  · rw [bfdElfMipsMach_set, ← show bfdElfMipsMach abfd.eFlags = abfd.archInfo.mach from names]
    exact written_bfdElfMipsMach abfd.eFlags
  · exact names

def linkOutput : HeaderBfd :=
  ⟨"a.out", "elf32-tradlittlemips", true, false, false, false, [], 0, 0, false, ⟨10, .mips3000, true, "mips"⟩⟩

def startObject : HeaderBfd :=
  ⟨"crt1.o", "elf32-tradlittlemips", true, false, false, false, [⟨".text", 64, false⟩], 0x50001007, 1, true,
    ⟨10, .mipsisa32, false, "mips:isa32"⟩⟩

def compactObject : HeaderBfd :=
  ⟨"main.o", "elf32-tradlittlemips", true, false, false, false, [⟨".text", 32, false⟩], 0x74001005, 1, true,
    ⟨10, .mipsisa32r2, false, "mips:isa32r2"⟩⟩

theorem linkOutput_fresh : FreshOutput linkOutput := ⟨rfl, rfl, rfl⟩

theorem objects_read : ∀ i ∈ [startObject, compactObject], ReadFor linkOutput i := by
  intro i member
  simp only [List.mem_cons, List.not_mem_nil, or_false] at member
  rcases member with rfl | rfl
  · exact ⟨fun _ => by unfold NamesMachine; decide, fun _ => rfl⟩
  · exact ⟨fun _ => by unfold NamesMachine; decide, fun _ => rfl⟩

theorem objects_merge : (mergeInputs (fun _ _ => true) [startObject, compactObject] linkOutput).1 = true := by
  decide

section Link

variable {first : HeaderBfd} {rest inputs : List HeaderBfd} {obfd : HeaderBfd}

/-- The output before the first file, or with flags that name its machine. -/
def Consistent (arch : Nat) (abfd : HeaderBfd) : Prop :=
  (FreshOutput abfd ∧ abfd.archInfo.arch = arch) ∨ Begun abfd

theorem adoptFirst_begun {ibfd : HeaderBfd} (fresh : FreshOutput obfd) (read : ReadFor obfd ibfd)
    (mips : ibfd.isMipsElf = true) : Begun (adoptFirst ibfd (reordered ibfd obfd)) := by
  rw [adoptFirst_fresh fresh read mips]
  exact ⟨fresh.mips, rfl, read.names mips⟩

theorem merge_consistent {ibfd : HeaderBfd} {arch : Nat} (names : ibfd.isMipsElf = true → NamesMachine ibfd)
    (same : ibfd.isMipsElf = true → ibfd.archInfo.arch = arch) (consistent : Consistent arch obfd) :
    Consistent arch (bfdMipsElfMergePrivateBfdData verify ibfd obfd).2.1 := by
  rcases consistent with ⟨fresh, own⟩ | begun
  · have read : ReadFor obfd ibfd := ⟨names, fun mips => (same mips).trans own.symm⟩
    unfold bfdMipsElfMergePrivateBfdData
    dsimp only
    split
    · exact Or.inl ⟨fresh, own⟩
    · split
      · exact Or.inl ⟨fresh, own⟩
      · split
        · exact Or.inl ⟨fresh, own⟩
        · rename_i foreign _
          have mips : ibfd.isMipsElf = true ∧ obfd.isMipsElf = true := by simpa using foreign
          split
          · exact Or.inr (adoptFirst_begun fresh read mips.1)
          · next initialised => simp [fresh.uninitialised] at initialised
  · exact Or.inr (merge_begun names begun)

theorem mergeInputs_consistent {arch : Nat} (names : ∀ i ∈ inputs, i.isMipsElf = true → NamesMachine i)
    (same : ∀ i ∈ inputs, i.isMipsElf = true → i.archInfo.arch = arch) (consistent : Consistent arch obfd) :
    Consistent arch (mergeInputs verify inputs obfd).2 := by
  induction inputs generalizing obfd with
  | nil => exact consistent
  | cons ibfd inputs ih =>
    exact ih (fun i member => names i (List.mem_cons_of_mem _ member))
      (fun i member => same i (List.mem_cons_of_mem _ member))
      (merge_consistent (names ibfd List.mem_cons_self) (same ibfd List.mem_cons_self) consistent)

/-- Whatever the merges have found wrong, the header that is written in the end is read back for the
machine of the output. -/
theorem linked_header_read_back (fresh : FreshOutput obfd) (read : ∀ i ∈ inputs, ReadFor obfd i)
    (initialised : (mergeInputs verify inputs obfd).2.elfFlagsInit = true) :
    bfdElfMipsMach (finalWriteFlags (mergeInputs verify inputs obfd).2) =
      (mergeInputs verify inputs obfd).2.archInfo.mach := by
  rcases mergeInputs_consistent (fun i member => (read i member).names) (fun i member => (read i member).arch)
    (Or.inl ⟨fresh, rfl⟩) with ⟨still, _⟩ | begun
  · rw [still.uninitialised] at initialised
    cases initialised
  · exact names_finalWriteFlags begun.names

theorem linked_header_read_back_objects :
    bfdElfMipsMach (finalWriteFlags (mergeInputs (fun _ _ => true) [startObject, compactObject] linkOutput).2) =
      (mergeInputs (fun _ _ => true) [startObject, compactObject] linkOutput).2.archInfo.mach :=
  linked_header_read_back linkOutput_fresh objects_read (by decide)

theorem run_after_first {out : HeaderBfd} (fresh : FreshOutput obfd) (mips : first.isMipsElf = true)
    (read : ReadFor obfd first) (run : Run Merged (first :: rest) obfd out) :
    ∃ begun : HeaderBfd, Begun begun ∧ begun.eFlags = first.eFlags ∧ begun.archInfo = first.archInfo ∧
      Run Merged rest begun out := by
  cases run with
  | cons merged after =>
    cases merged with
    | foreign other =>
      rcases other with input | output
      · simp [mips] at input
      · simp [fresh.mips] at output
    | first _ _ =>
      refine ⟨_, adoptFirst_begun fresh read mips, ?_, ?_, after⟩
      · rw [adoptFirst_fresh fresh read mips]
      · rw [adoptFirst_fresh fresh read mips]
    | same _ initialised _ => simp [fresh.uninitialised] at initialised
    | empty _ initialised _ => simp [fresh.uninitialised] at initialised
    | compared _ initialised _ _ => simp [fresh.uninitialised] at initialised

theorem begun_run (read : ∀ i ∈ rest, ReadFor obfd i) :
    ∀ i ∈ rest, ∀ s t, Merged i s t → Begun s → Begun t :=
  fun i member _ _ merged begun => merged.begun (read i member).names begun

theorem begun_isGreatest {begun out : HeaderBfd} (started : Begun begun) (read : ∀ i ∈ rest, ReadFor obfd i)
    (run : Run Merged rest begun out) :
    IsGreatest (insert begun.archInfo.mach {m | ∃ i ∈ rest, TakesPart i ∧ i.archInfo.mach = m}) out.archInfo.mach :=
  run.isGreatest (fun o => o.archInfo.mach) (fun i => i.archInfo.mach) TakesPart (begun_run read)
    (fun i member _ _ merged holds => merged.mach_le (read i member).names holds)
    (fun _ _ _ _ merged holds => merged.mach_taken holds) started

theorem begun_bits {begun out : HeaderBfd} (started : Begun begun) (read : ∀ i ∈ rest, ReadFor obfd i)
    (run : Run Merged rest begun out) :
    mips32bitFlagsP out.eFlags = mips32bitFlagsP begun.eFlags ∧
      ∀ i ∈ rest, TakesPart i → mips32bitFlagsP out.eFlags = mips32bitFlagsP i.eFlags := by
  constructor
  · have keeps : ∀ i ∈ rest, ∀ s t, Merged i s t → Begun s ∧ mips32bitFlagsP s.eFlags = mips32bitFlagsP begun.eFlags →
        Begun t ∧ mips32bitFlagsP t.eFlags = mips32bitFlagsP begun.eFlags := by
      intro i member s t merged holds
      exact ⟨merged.begun (read i member).names holds.1, (merged.bits holds.1).1.trans holds.2⟩
    exact (run.invariant keeps ⟨started, rfl⟩).2
  · exact run.each (begun_run read) (fun _ _ _ _ merged holds => (merged.bits holds).2)
      (fun _ _ _ _ _ merged holds agreed takes => (merged.bits holds).1.trans (agreed takes)) started

/-- A link without complaints is for the greatest of the machines of its files, and is 32-bit code or not
as every one of them is. -/
theorem linked_machine (fresh : FreshOutput obfd) (mips : first.isMipsElf = true)
    (read : ∀ i ∈ first :: rest, ReadFor obfd i) (good : (mergeInputs verify (first :: rest) obfd).1 = true) :
    IsGreatest (insert first.archInfo.mach {m | ∃ i ∈ rest, TakesPart i ∧ i.archInfo.mach = m})
        (mergeInputs verify (first :: rest) obfd).2.archInfo.mach ∧
      ∀ i ∈ first :: rest, i = first ∨ TakesPart i →
        mips32bitFlagsP (mergeInputs verify (first :: rest) obfd).2.eFlags = mips32bitFlagsP i.eFlags := by
  obtain ⟨begun, started, flags, arch, run⟩ :=
    run_after_first fresh mips (read first List.mem_cons_self) (run_of_mergeInputs good)
  have readRest : ∀ i ∈ rest, ReadFor obfd i := fun i member => read i (List.mem_cons_of_mem _ member)
  obtain ⟨begunBits, restBits⟩ := begun_bits started readRest run
  rw [flags] at begunBits
  refine ⟨arch ▸ begun_isGreatest started readRest run, fun i member which => ?_⟩
  rcases List.mem_cons.mp member with same | later
  · exact same ▸ begunBits
  · rcases which with same | takes
    · exact same ▸ begunBits
    · exact restBits i later takes

theorem linked_machine_objects :
    BfdMach.mipsisa32 ≤ (mergeInputs (fun _ _ => true) [startObject, compactObject] linkOutput).2.archInfo.mach :=
  (linked_machine linkOutput_fresh rfl objects_read objects_merge).1.2 (Set.mem_insert _ _)

/-- The extensions and the reordering flag of the output are those of any of the files, and it is position
independent when all of them are. -/
theorem linked_flags (fresh : FreshOutput obfd) (mips : first.isMipsElf = true)
    (read : ∀ i ∈ first :: rest, ReadFor obfd i) (good : (mergeInputs verify (first :: rest) obfd).1 = true) :
    (∀ flag, efMipsArchAse &&& flag = flag →
        (Has (mergeInputs verify (first :: rest) obfd).2 flag ↔ Has first flag ∨ ∃ i ∈ rest, TakesPart i ∧ Has i flag)) ∧
      (Has (mergeInputs verify (first :: rest) obfd).2 efMipsNoreorder ↔
        Has first efMipsNoreorder ∨ ∃ i ∈ rest, i.isMipsElf = true ∧ Has i efMipsNoreorder) ∧
      (Has (mergeInputs verify (first :: rest) obfd).2 efMipsPic ↔
        Has first efMipsPic ∧ ∀ i ∈ rest, TakesPart i → PicInput i) := by
  obtain ⟨begun, started, flags, -, run⟩ :=
    run_after_first fresh mips (read first List.mem_cons_self) (run_of_mergeInputs good)
  have readRest : ∀ i ∈ rest, ReadFor obfd i := fun i member => read i (List.mem_cons_of_mem _ member)
  have begins : ∀ flag, Has begun flag ↔ Has first flag := fun flag => by rw [Has, Has, flags]
  refine ⟨fun flag inside => ?_, ?_, ?_⟩
  · rw [← begins]
    exact run.any_iff (begun_run readRest) (fun _ _ _ _ merged holds => merged.extension holds inside) started
  · rw [← begins]
    exact run.any_iff (begun_run readRest) (fun _ _ _ _ merged holds => merged.noreorder holds) started
  · rw [← begins]
    exact run.all_iff (begun_run readRest) (fun _ _ _ _ merged holds => merged.pic holds) started

theorem linked_flags_objects :
    Has (mergeInputs (fun _ _ => true) [startObject, compactObject] linkOutput).2 efMipsArchAseM16 ↔
      Has startObject efMipsArchAseM16 ∨ ∃ i ∈ [compactObject], TakesPart i ∧ Has i efMipsArchAseM16 :=
  (linked_flags linkOutput_fresh rfl objects_read objects_merge).1 efMipsArchAseM16 (by decide)

/-- Without complaints, MIPS16 code and microMIPS code are not linked together. -/
theorem linked_unmixed (fresh : FreshOutput obfd) (mips : first.isMipsElf = true)
    (read : ∀ i ∈ first :: rest, ReadFor obfd i) (alone : ∀ i ∈ first :: rest, ¬Mixed i)
    (good : (mergeInputs verify (first :: rest) obfd).1 = true) :
    ∀ i ∈ first :: rest, ∀ j ∈ first :: rest, i = first ∨ TakesPart i → j = first ∨ TakesPart j →
      Has i efMipsArchAseM16 → ¬Has j efMipsArchAseMicromips := by
  obtain ⟨begun, started, flags, -, run⟩ :=
    run_after_first fresh mips (read first List.mem_cons_self) (run_of_mergeInputs good)
  have readRest : ∀ i ∈ rest, ReadFor obfd i := fun i member => read i (List.mem_cons_of_mem _ member)
  have begins : ∀ flag, Has begun flag ↔ Has first flag := fun flag => by rw [Has, Has, flags]
  have startsUnmixed : ¬Mixed begun := by
    rw [Mixed, begins, begins]
    exact alone first List.mem_cons_self
  have keeps : ∀ i ∈ rest, ∀ s t, Merged i s t → Begun s ∧ ¬Mixed s → Begun t ∧ ¬Mixed t := by
    intro i member s t merged holds
    exact ⟨merged.begun (readRest i member).names holds.1,
      merged.unmixed holds.1 (alone i (List.mem_cons_of_mem _ member)) holds.2⟩
  have unmixed := (run.invariant keeps ⟨started, startsUnmixed⟩).2
  -- whatever extension a file has that takes part, the output has in the end
  have shows : ∀ flag, efMipsArchAse &&& flag = flag → ∀ i ∈ first :: rest, i = first ∨ TakesPart i → Has i flag →
      Has (mergeInputs verify (first :: rest) obfd).2 flag := by
    intro flag inside i member which has
    refine (run.any_iff (begun_run readRest) (fun _ _ _ _ merged holds => merged.extension holds inside) started).mpr ?_
    rw [begins]
    rcases which with same | takes
    · exact Or.inl (same ▸ has)
    · rcases List.mem_cons.mp member with same | later
      · exact Or.inl (same ▸ has)
      · exact Or.inr ⟨i, later, takes, has⟩
  intro i memberI j memberJ whichI whichJ m16 micro
  exact unmixed ⟨shows _ (by decide) i memberI whichI m16, shows _ (by decide) j memberJ whichJ micro⟩

theorem linked_unmixed_objects : ¬Has startObject efMipsArchAseMicromips :=
  linked_unmixed linkOutput_fresh rfl objects_read (by unfold Mixed; decide) objects_merge compactObject (by decide)
    startObject (by decide) (Or.inr ⟨rfl, by decide⟩) (Or.inl rfl) (by decide)

theorem linked_set (fresh : FreshOutput obfd) (takes : ∀ i ∈ first :: rest, TakesPart i)
    (read : ∀ i ∈ first :: rest, ReadFor obfd i) (good : (mergeInputs verify (first :: rest) obfd).1 = true) :
    IsGreatest {m | ∃ i ∈ first :: rest, i.archInfo.mach = m} (mergeInputs verify (first :: rest) obfd).2.archInfo.mach ∧
      ∀ flag, efMipsArchAse &&& flag = flag ∨ flag = efMipsNoreorder →
        (Has (mergeInputs verify (first :: rest) obfd).2 flag ↔ ∃ i ∈ first :: rest, Has i flag) := by
  obtain ⟨begun, started, flags, arch, run⟩ :=
    run_after_first fresh (takes first List.mem_cons_self).1 (read first List.mem_cons_self) (run_of_mergeInputs good)
  have readRest : ∀ i ∈ rest, ReadFor obfd i := fun i member => read i (List.mem_cons_of_mem _ member)
  have takesRest : ∀ i ∈ rest, TakesPart i := fun i member => takes i (List.mem_cons_of_mem _ member)
  constructor
  · have machines : {m | ∃ i ∈ first :: rest, i.archInfo.mach = m} =
        insert begun.archInfo.mach {m | ∃ i ∈ rest, TakesPart i ∧ i.archInfo.mach = m} := by
      ext m
      simp only [List.mem_cons, exists_eq_or_imp, Set.mem_ofPred_eq, Set.mem_insert_iff, arch]
      refine or_congr eq_comm ⟨?_, ?_⟩
      · exact fun ⟨i, member, same⟩ => ⟨i, member, takesRest i member, same⟩
      · exact fun ⟨i, member, _, same⟩ => ⟨i, member, same⟩
    rw [machines]
    exact begun_isGreatest started readRest run
  · intro flag which
    simp only [List.mem_cons, exists_eq_or_imp]
    rw [← show Has begun flag ↔ Has first flag by rw [Has, Has, flags]]
    have joins : ∀ i ∈ rest, ∀ s t, Merged i s t → Begun s → (Has t flag ↔ Has s flag ∨ Has i flag) := by
      intro i member s t merged holds
      rcases which with inside | rfl
      · rw [merged.extension holds inside]
        simp [takesRest i member]
      · rw [merged.noreorder holds]
        simp [(takesRest i member).1]
    exact run.any_iff (begun_run readRest) joins started

/-- Two links of the same files in different orders, both without complaints, are for the same machine and
have the same extensions and reordering flag. -/
theorem linked_order {first' : HeaderBfd} {rest' : List HeaderBfd} (fresh : FreshOutput obfd)
    (reordering : (first :: rest).Perm (first' :: rest')) (takes : ∀ i ∈ first :: rest, TakesPart i)
    (read : ∀ i ∈ first :: rest, ReadFor obfd i) (good : (mergeInputs verify (first :: rest) obfd).1 = true)
    (good' : (mergeInputs verify (first' :: rest') obfd).1 = true) :
    (mergeInputs verify (first :: rest) obfd).2.archInfo.mach = (mergeInputs verify (first' :: rest') obfd).2.archInfo.mach ∧
      ∀ flag, efMipsArchAse &&& flag = flag ∨ flag = efMipsNoreorder →
        (Has (mergeInputs verify (first :: rest) obfd).2 flag ↔ Has (mergeInputs verify (first' :: rest') obfd).2 flag) := by
  obtain ⟨greatest, joined⟩ := linked_set fresh takes read good
  obtain ⟨greatest', joined'⟩ := linked_set fresh (fun i member => takes i (reordering.mem_iff.mpr member))
    (fun i member => read i (reordering.mem_iff.mpr member)) good'
  constructor
  · simp only [reordering.mem_iff] at greatest
    exact greatest.unique greatest'
  · intro flag which
    rw [joined flag which, joined' flag which]
    simp only [reordering.mem_iff]

theorem linked_order_objects :
    (mergeInputs (fun _ _ => true) [startObject, compactObject] linkOutput).2.archInfo.mach =
        (mergeInputs (fun _ _ => true) [compactObject, startObject] linkOutput).2.archInfo.mach ∧
      ∀ flag, efMipsArchAse &&& flag = flag ∨ flag = efMipsNoreorder →
        (Has (mergeInputs (fun _ _ => true) [startObject, compactObject] linkOutput).2 flag ↔
          Has (mergeInputs (fun _ _ => true) [compactObject, startObject] linkOutput).2 flag) :=
  linked_order linkOutput_fresh (List.Perm.swap _ _ _) (by unfold TakesPart; decide) objects_read objects_merge (by decide)

end Link

end Openisa.Header
