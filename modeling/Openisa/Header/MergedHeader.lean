import Openisa.Header.ComparedFlags
import Openisa.Library.JoinRun

/-! The headers of all input files merged into that of the output, one after another. -/

namespace Openisa.Header

open Openisa.Library

/-- The machines in their order: a machine stands below what extends it. -/
instance : PartialOrder BfdMach where
  le base extension := mipsMachExtendsP base extension = true
  le_refl := mipsMachExtendsP_refl
  le_trans _ _ _ := mipsMachExtendsP_trans
  le_antisymm _ _ := mipsMachExtendsP_antisymm

def NamesMachine (abfd : HeaderBfd) : Prop := bfdElfMipsMach abfd.eFlags = abfd.archInfo.mach

section Compared

variable (ibfd obfd : HeaderBfd)

theorem comparedFlags_field {part : Flagword} (kept : ~~~(efMipsNoreorder ||| efMipsXgot ||| efMipsUcode) &&& part = part)
    (abicalls : (efMipsPic ||| efMipsCpic) &&& part = 0) :
    (comparedFlags ibfd obfd).1 &&& part = ibfd.eFlags &&& part ∧
      (comparedFlags ibfd obfd).2 &&& part = obfd.eFlags &&& part := by
  unfold comparedFlags
  dsimp only
  constructor
  · split <;> simp [BitVec.and_or_distrib_right, BitVec.and_assoc, kept, abicalls]
  · rw [BitVec.and_assoc, kept]

/-- The state of the comparison when the machines are compared. -/
def atIsas : Comparison :=
  Comparison.abicalls ibfd ⟨obfd, (comparedFlags ibfd obfd).1, (comparedFlags ibfd obfd).2, true, []⟩

theorem compareFlags_eq :
    compareFlags ibfd obfd =
      (((((atIsas ibfd obfd).isas ibfd).abis ibfd).ases ibfd).others ibfd) := rfl

theorem compareFlags_obfd :
    (compareFlags ibfd obfd).obfd = ((((atIsas ibfd obfd).isas ibfd).abis ibfd).ases ibfd).obfd := by
  rw [compareFlags_eq, Comparison.others_obfd]

theorem atIsas_archInfo : (atIsas ibfd obfd).obfd.archInfo = obfd.archInfo := by
  rw [atIsas, (Comparison.abicalls_rest ibfd _).1]

theorem atIsas_words (part : Flagword) (kept : ~~~(efMipsNoreorder ||| efMipsXgot ||| efMipsUcode) &&& part = part)
    (abicalls : (efMipsPic ||| efMipsCpic) &&& part = 0) (stripped : ~~~(efMipsPic ||| efMipsCpic) &&& part = part) :
    (atIsas ibfd obfd).newFlags &&& part = ibfd.eFlags &&& part ∧
      (atIsas ibfd obfd).oldFlags &&& part = obfd.eFlags &&& part := by
  obtain ⟨new, old⟩ := comparedFlags_field ibfd obfd kept abicalls
  obtain ⟨-, newWord, oldWord, -⟩ := Comparison.abicalls_rest ibfd
    ⟨obfd, (comparedFlags ibfd obfd).1, (comparedFlags ibfd obfd).2, true, []⟩
  rw [atIsas, newWord, oldWord, BitVec.and_assoc, BitVec.and_assoc, stripped]
  exact ⟨new, old⟩

theorem compareFlags_field {part : Flagword} (isa : efMipsIsa &&& part = 0) (kept : ~~~efMipsIsa &&& part = part)
    (mode : efMips32bitmode &&& part = 0) (abi : efMipsAbi &&& part = 0) (ase : efMipsArchAse &&& part = 0) :
    (compareFlags ibfd obfd).obfd.eFlags &&& part = (atIsas ibfd obfd).obfd.eFlags &&& part := by
  rw [compareFlags_obfd, Comparison.ases_field ibfd _ ase, Comparison.abis_obfd,
    Comparison.isas_field ibfd _ isa kept mode abi]

theorem compareFlags_others : (compareFlags ibfd obfd).obfd.others = obfd.others := by
  rw [compareFlags_obfd, Comparison.ases_others, Comparison.abis_obfd, Comparison.isas_others, atIsas,
    Comparison.abicalls_others]

theorem compareFlags_archInfo :
    (compareFlags ibfd obfd).obfd.archInfo = ((atIsas ibfd obfd).isas ibfd).obfd.archInfo := by
  rw [compareFlags_obfd, Comparison.ases_archInfo, Comparison.abis_obfd]

theorem compareFlags_isas {part : Flagword} (ase : efMipsArchAse &&& part = 0) :
    (compareFlags ibfd obfd).obfd.eFlags &&& part = ((atIsas ibfd obfd).isas ibfd).obfd.eFlags &&& part := by
  rw [compareFlags_obfd, Comparison.ases_field ibfd _ ase, Comparison.abis_obfd]

/-- The machine and the fields that name it stay together: both are the output's, or both the input's. -/
theorem compareFlags_isa :
    (compareFlags ibfd obfd).obfd.archInfo = obfd.archInfo ∧
        (compareFlags ibfd obfd).obfd.eFlags &&& efMipsIsa = obfd.eFlags &&& efMipsIsa ∨
      (compareFlags ibfd obfd).obfd.archInfo = ibfd.archInfo ∧
        (compareFlags ibfd obfd).obfd.eFlags &&& efMipsIsa = ibfd.eFlags &&& efMipsIsa := by
  rw [compareFlags_archInfo, compareFlags_isas ibfd obfd (by decide)]
  rcases Comparison.isas_cases ibfd (atIsas ibfd obfd) with ⟨same, _⟩ | ⟨adopted, _⟩
  · rw [same]
    exact Or.inl ⟨atIsas_archInfo ibfd obfd, Comparison.abicalls_field ibfd _ (by decide) (by decide)⟩
  · rw [adopted]
    refine Or.inr ⟨Comparison.adoptIsa_archInfo ibfd _, ?_⟩
    rw [Comparison.adoptIsa_isa]
    exact (atIsas_words ibfd obfd efMipsIsa (by decide) (by decide) (by decide)).1

theorem compareFlags_namesMachine (input : NamesMachine ibfd) (output : NamesMachine obfd) :
    NamesMachine (compareFlags ibfd obfd).obfd := by
  rcases compareFlags_isa ibfd obfd with ⟨arch, flags⟩ | ⟨arch, flags⟩
  · unfold NamesMachine
    rw [arch, bfdElfMipsMach_congr flags]
    exact output
  · unfold NamesMachine
    rw [arch, bfdElfMipsMach_congr flags]
    exact input

theorem abis_extensions :
    (((atIsas ibfd obfd).isas ibfd).abis ibfd).newFlags &&& efMipsArchAse = ibfd.eFlags &&& efMipsArchAse ∧
      (((atIsas ibfd obfd).isas ibfd).abis ibfd).oldFlags &&& efMipsArchAse = obfd.eFlags &&& efMipsArchAse := by
  have stripped : ~~~(efMipsIsa ||| efMips32bitmode) &&& efMipsArchAse = efMipsArchAse := by decide
  obtain ⟨newField, oldField⟩ := atIsas_words ibfd obfd efMipsArchAse (by decide) (by decide) (by decide)
  constructor
  · rw [(Comparison.abis_ase ibfd _).1, (Comparison.isas_words ibfd _).1, BitVec.and_assoc, stripped, newField]
  · rw [(Comparison.abis_ase ibfd _).2, (Comparison.isas_words ibfd _).2, BitVec.and_assoc, stripped, oldField]

theorem compareFlags_ase :
    (compareFlags ibfd obfd).obfd.eFlags &&& efMipsArchAse =
      obfd.eFlags &&& efMipsArchAse ||| ibfd.eFlags &&& efMipsArchAse := by
  let c := ((atIsas ibfd obfd).isas ibfd).abis ibfd
  have before : c.obfd.eFlags &&& efMipsArchAse = obfd.eFlags &&& efMipsArchAse := by
    rw [Comparison.abis_obfd, Comparison.isas_field ibfd _ (by decide) (by decide) (by decide) (by decide)]
    exact Comparison.abicalls_field ibfd _ (by decide) (by decide)
  obtain ⟨new, old⟩ := abis_extensions ibfd obfd
  rw [compareFlags_obfd]
  rcases Comparison.ases_eFlags ibfd c with ⟨same, equal⟩ | joined
  · rw [same, before, ← new, equal, old, BitVec.or_self]
  · rw [joined, or_masked_same, before, new]

def abi32 (abi : Flagword) : Bool := abi = eMipsAbiO32 || abi = eMipsAbiEabi32

def arch32 (arch : Flagword) : Bool :=
  arch = eMipsArch1 || arch = eMipsArch2 || arch = eMipsArch32 || arch = eMipsArch32r2

/-- Whether a word describes 32-bit code, from the three fields that tell. -/
def fieldsOf32 (mode abi arch : Flagword) : Bool := mode ≠ 0 || abi32 abi || arch32 arch

theorem mips32bitFlagsP_eq (f : Flagword) :
    mips32bitFlagsP f = fieldsOf32 (f &&& efMips32bitmode) (f &&& efMipsAbi) (f &&& efMipsArch) := by
  simp only [mips32bitFlagsP, fieldsOf32, abi32, arch32, Bool.or_assoc]

theorem mips32bitFlagsP_congr {f g : Flagword}
    (same : f &&& (efMips32bitmode ||| efMipsAbi ||| efMipsArch) = g &&& (efMips32bitmode ||| efMipsAbi ||| efMipsArch)) :
    mips32bitFlagsP f = mips32bitFlagsP g := by
  have mode : f &&& efMips32bitmode = g &&& efMips32bitmode := agree_part (by decide) same
  have abi : f &&& efMipsAbi = g &&& efMipsAbi := agree_part (by decide) same
  have arch : f &&& efMipsArch = g &&& efMipsArch := agree_part (by decide) same
  rw [mips32bitFlagsP_eq, mips32bitFlagsP_eq, mode, abi, arch]

/-- Taking over a machine keeps the output 32-bit code or not, where the ABIs do not clash. -/
theorem adopted_32bit (oldMode newMode oldAbi newAbi oldArch newArch : Flagword) (copied : Prop) [Decidable copied]
    (agree : fieldsOf32 oldMode oldAbi oldArch = fieldsOf32 newMode newAbi newArch)
    (copies : copied ↔ oldAbi = 0 ∧ fieldsOf32 newMode newAbi newArch = true ∧ fieldsOf32 newMode 0 newArch = false)
    (compatible : newAbi = 0 ∨ oldAbi = 0 ∨ newAbi = oldAbi) :
    fieldsOf32 (oldMode ||| newMode) (oldAbi ||| if copied then newAbi else 0) newArch =
      fieldsOf32 newMode newAbi newArch := by
  by_cases bits : fieldsOf32 newMode newAbi newArch = true
  · rw [bits]
    by_cases without : fieldsOf32 newMode 0 newArch = true
    · have kept : newMode ≠ 0 ∨ arch32 newArch = true := by
        simpa [fieldsOf32, abi32, eMipsAbiO32, eMipsAbiEabi32] using without
      rcases kept with mode | arch
      · have either : oldMode ||| newMode ≠ 0 := fun none => mode (BitVec.or_eq_zero_iff.mp none).2
        rw [fieldsOf32, decide_eq_true either]
        rfl
      · simp [fieldsOf32, arch]
    · have named : abi32 newAbi = true := by
        simp only [fieldsOf32, Bool.or_eq_true, decide_eq_true_eq, not_or] at without bits
        tauto
      have present : newAbi ≠ 0 := by
        rintro rfl
        cases named
      have final : (oldAbi ||| if copied then newAbi else 0) = newAbi := by
        by_cases unset : oldAbi = 0
        · rw [if_pos (copies.mpr ⟨unset, bits, by simpa using without⟩), unset]
          exact BitVec.zero_or
        · rw [if_neg fun copy => unset (copies.mp copy).1]
          rw [(compatible.resolve_left present).resolve_left unset]
          exact BitVec.or_zero
      rw [final]
      simp [fieldsOf32, named]
  · have notCopied : ¬copied := fun copy => bits (copies.mp copy).2.1
    rw [if_neg notCopied]
    have oldBits : fieldsOf32 oldMode oldAbi oldArch = false := by simpa [agree] using bits
    simp only [fieldsOf32, Bool.or_eq_true, Bool.or_eq_false_iff, decide_eq_true_eq, decide_eq_false_iff_not,
      not_not, not_or] at bits oldBits ⊢
    simp [bits, oldBits]

/-- What a comparison that finds nothing wrong says of the two files and of the output. -/
structure Compatible (ibfd obfd out : HeaderBfd) : Prop where
  old_le : obfd.archInfo.mach ≤ out.archInfo.mach
  new_le : ibfd.archInfo.mach ≤ out.archInfo.mach
  bits : mips32bitFlagsP obfd.eFlags = mips32bitFlagsP ibfd.eFlags
  out_bits : mips32bitFlagsP out.eFlags = mips32bitFlagsP ibfd.eFlags
  eiClass : ibfd.eiClass = obfd.eiClass
  extensions : ibfd.eFlags &&& efMipsArchAse = obfd.eFlags &&& efMipsArchAse ∨
    ¬(obfd.eFlags &&& efMipsArchAseMicromips ≠ 0 ∧ ibfd.eFlags &&& efMipsArchAseM16 ≠ 0) ∧
      ¬(obfd.eFlags &&& efMipsArchAseM16 ≠ 0 ∧ ibfd.eFlags &&& efMipsArchAseMicromips ≠ 0)

/-- On words that agree with those of the files where 32-bit code shows, `compareFlags` compares the files. -/
theorem atIsas_bits :
    mips32bitFlagsP (atIsas ibfd obfd).newFlags = mips32bitFlagsP ibfd.eFlags ∧
      mips32bitFlagsP (atIsas ibfd obfd).oldFlags = mips32bitFlagsP obfd.eFlags ∧
      mips32bitFlagsP (atIsas ibfd obfd).obfd.eFlags = mips32bitFlagsP obfd.eFlags := by
  obtain ⟨new, old⟩ := atIsas_words ibfd obfd (efMips32bitmode ||| efMipsAbi ||| efMipsArch)
    (by decide) (by decide) (by decide)
  exact ⟨mips32bitFlagsP_congr new, mips32bitFlagsP_congr old,
    mips32bitFlagsP_congr (Comparison.abicalls_field ibfd _ (by decide) (by decide))⟩

/-- The output describes 32-bit code as before, when it takes over the machine and the ABIs do not clash. -/
theorem adoptIsa_bits (c : Comparison) (words : c.oldFlags &&& (efMips32bitmode ||| efMipsAbi ||| efMipsArch) =
      c.obfd.eFlags &&& (efMips32bitmode ||| efMipsAbi ||| efMipsArch))
    (agree : mips32bitFlagsP c.oldFlags = mips32bitFlagsP c.newFlags)
    (compatible : c.newFlags &&& efMipsAbi = 0 ∨ c.oldFlags &&& efMipsAbi = 0 ∨
      c.newFlags &&& efMipsAbi = c.oldFlags &&& efMipsAbi) :
    mips32bitFlagsP (c.adoptIsa ibfd).obfd.eFlags = mips32bitFlagsP c.newFlags := by
  have oldMode : c.oldFlags &&& efMips32bitmode = c.obfd.eFlags &&& efMips32bitmode := agree_part (by decide) words
  have oldAbi : c.oldFlags &&& efMipsAbi = c.obfd.eFlags &&& efMipsAbi := agree_part (by decide) words
  have arch : (c.adoptIsa ibfd).obfd.eFlags &&& efMipsArch = c.newFlags &&& efMipsArch :=
    agree_part (by decide) (c.adoptIsa_isa ibfd)
  have without : mips32bitFlagsP (c.newFlags &&& ~~~efMipsAbi) =
      fieldsOf32 (c.newFlags &&& efMips32bitmode) 0 (c.newFlags &&& efMipsArch) := by
    have mode : ~~~efMipsAbi &&& efMips32bitmode = efMips32bitmode := by decide
    have abi : ~~~efMipsAbi &&& efMipsAbi = 0 := by decide
    have level : ~~~efMipsAbi &&& efMipsArch = efMipsArch := by decide
    rw [mips32bitFlagsP_eq, BitVec.and_assoc, BitVec.and_assoc, BitVec.and_assoc, mode, abi, level]
    exact congrArg (fieldsOf32 _ · _) BitVec.and_zero
  have copies : c.abiCopiedP ↔ c.oldFlags &&& efMipsAbi = 0 ∧
      fieldsOf32 (c.newFlags &&& efMips32bitmode) (c.newFlags &&& efMipsAbi) (c.newFlags &&& efMipsArch) = true ∧
        fieldsOf32 (c.newFlags &&& efMips32bitmode) 0 (c.newFlags &&& efMipsArch) = false := by
    rw [Comparison.abiCopiedP, without, mips32bitFlagsP_eq, Bool.not_eq_true]
  rw [mips32bitFlagsP_eq, c.adoptIsa_mode, c.adoptIsa_abi, arch, mips32bitFlagsP_eq c.newFlags, ← oldMode, ← oldAbi]
  rw [mips32bitFlagsP_eq, mips32bitFlagsP_eq] at agree
  exact adopted_32bit _ _ _ _ _ _ _ agree copies compatible

theorem compareFlags_mach (good : (compareFlags ibfd obfd).ok = true) :
    (compareFlags ibfd obfd).obfd.archInfo = obfd.archInfo ∧ ibfd.archInfo.mach ≤ obfd.archInfo.mach ∨
      (compareFlags ibfd obfd).obfd.archInfo = ibfd.archInfo ∧ obfd.archInfo.mach ≤ ibfd.archInfo.mach := by
  rw [compareFlags_eq] at good
  have afterIsas : ((atIsas ibfd obfd).isas ibfd).ok = true :=
    (Comparison.abis_ok ibfd _ (Comparison.ases_ok ibfd _ (Comparison.others_ok ibfd _ good).1).1).1
  rw [compareFlags_archInfo]
  rcases Comparison.isas_cases ibfd (atIsas ibfd obfd) with ⟨same, below | refused⟩ | ⟨adopted, above⟩
  · rw [same, atIsas_archInfo]
    rw [atIsas_archInfo] at below
    exact Or.inl ⟨rfl, below⟩
  · rw [afterIsas] at refused
    cases refused
  · rw [adopted, Comparison.adoptIsa_archInfo]
    rw [atIsas_archInfo] at above
    exact Or.inr ⟨rfl, above⟩

theorem compareFlags_bits (good : (compareFlags ibfd obfd).ok = true) :
    mips32bitFlagsP obfd.eFlags = mips32bitFlagsP ibfd.eFlags ∧
      mips32bitFlagsP (compareFlags ibfd obfd).obfd.eFlags = mips32bitFlagsP ibfd.eFlags := by
  rw [compareFlags_eq] at good
  obtain ⟨afterIsas, -, abis⟩ := Comparison.abis_ok ibfd _
    (Comparison.ases_ok ibfd _ (Comparison.others_ok ibfd _ good).1).1
  obtain ⟨agree, -⟩ := Comparison.isas_ok ibfd _ afterIsas
  obtain ⟨newBits, oldBits, startBits⟩ := atIsas_bits ibfd obfd
  have same : mips32bitFlagsP obfd.eFlags = mips32bitFlagsP ibfd.eFlags := by
    rw [← newBits, ← oldBits]
    exact agree
  have settled : (compareFlags ibfd obfd).obfd.eFlags &&& (efMips32bitmode ||| efMipsAbi ||| efMipsArch) =
      ((atIsas ibfd obfd).isas ibfd).obfd.eFlags &&& (efMips32bitmode ||| efMipsAbi ||| efMipsArch) :=
    compareFlags_isas ibfd obfd (by decide)
  refine ⟨same, ?_⟩
  rw [mips32bitFlagsP_congr settled]
  rcases Comparison.isas_cases ibfd (atIsas ibfd obfd) with ⟨kept, _⟩ | ⟨adopted, _⟩
  · rw [kept, startBits, same]
  · have fields : ~~~(efMipsIsa ||| efMips32bitmode) &&& efMipsAbi = efMipsAbi := by decide
    obtain ⟨newWord, oldWord⟩ := Comparison.isas_words ibfd (atIsas ibfd obfd)
    rw [newWord, oldWord, BitVec.and_assoc, BitVec.and_assoc, fields] at abis
    obtain ⟨-, oldFields⟩ := atIsas_words ibfd obfd (efMips32bitmode ||| efMipsAbi ||| efMipsArch)
      (by decide) (by decide) (by decide)
    have startFields : (atIsas ibfd obfd).obfd.eFlags &&& (efMips32bitmode ||| efMipsAbi ||| efMipsArch) =
        obfd.eFlags &&& (efMips32bitmode ||| efMipsAbi ||| efMipsArch) :=
      Comparison.abicalls_field ibfd _ (by decide) (by decide)
    rw [adopted, adoptIsa_bits ibfd _ (oldFields.trans startFields.symm) agree abis, newBits]

theorem compareFlags_eiClass (good : (compareFlags ibfd obfd).ok = true) : ibfd.eiClass = obfd.eiClass := by
  rw [compareFlags_eq] at good
  obtain ⟨-, eiClass, -⟩ := Comparison.abis_ok ibfd _
    (Comparison.ases_ok ibfd _ (Comparison.others_ok ibfd _ good).1).1
  have kept := (Comparison.isas_others ibfd (atIsas ibfd obfd)).trans (Comparison.abicalls_others ibfd _)
  rw [eiClass]
  exact (HeaderBfd.same_fields kept).2.2

theorem compareFlags_extensions (good : (compareFlags ibfd obfd).ok = true) :
    ibfd.eFlags &&& efMipsArchAse = obfd.eFlags &&& efMipsArchAse ∨
      ¬(obfd.eFlags &&& efMipsArchAseMicromips ≠ 0 ∧ ibfd.eFlags &&& efMipsArchAseM16 ≠ 0) ∧
        ¬(obfd.eFlags &&& efMipsArchAseM16 ≠ 0 ∧ ibfd.eFlags &&& efMipsArchAseMicromips ≠ 0) := by
  let c := ((atIsas ibfd obfd).isas ibfd).abis ibfd
  obtain ⟨new, old⟩ := abis_extensions ibfd obfd
  have extensions := (Comparison.ases_ok ibfd c (Comparison.others_ok ibfd _ good).1).2
  rw [new, old, agree_part (by decide) old, agree_part (by decide) old] at extensions
  rw [agree_part (by decide) new, agree_part (by decide) new] at extensions
  exact extensions

theorem compareFlags_ok (good : (compareFlags ibfd obfd).ok = true) :
    Compatible ibfd obfd (compareFlags ibfd obfd).obfd := by
  obtain ⟨bits, outBits⟩ := compareFlags_bits ibfd obfd good
  have machine := compareFlags_mach ibfd obfd good
  refine ⟨?_, ?_, bits, outBits, compareFlags_eiClass ibfd obfd good, compareFlags_extensions ibfd obfd good⟩
  · rcases machine with ⟨same, _⟩ | ⟨same, above⟩
    · rw [same]
    · rw [same]
      exact above
  · rcases machine with ⟨same, below⟩ | ⟨same, _⟩
    · rw [same]
      exact below
    · rw [same]

end Compared

end Openisa.Header
