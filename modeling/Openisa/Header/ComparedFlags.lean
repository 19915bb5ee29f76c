import Openisa.Header.Merge

/-! What the comparison of two headers does to each field of the output, and what it has checked when it
finds nothing wrong. -/

namespace Openisa.Header

def efMipsIsa : Flagword := efMipsArch ||| efMipsMach

section Fields

variable {f g mask part : Flagword}

theorem or_masked_field (apart : mask &&& part = 0) : (f ||| g &&& mask) &&& part = f &&& part := by
  rw [BitVec.and_or_distrib_right, BitVec.and_assoc, apart]
  simp

theorem or_masked_same : (f ||| g &&& mask) &&& mask = f &&& mask ||| g &&& mask := by
  rw [BitVec.and_or_distrib_right, BitVec.and_assoc, BitVec.and_self]

theorem or_eq_zero : f ||| g = 0 ↔ f = 0 ∧ g = 0 := BitVec.or_eq_zero_iff

theorem and_flag (i : Nat) : f &&& BitVec.twoPow 32 i = 0 ∨ f &&& BitVec.twoPow 32 i = BitVec.twoPow 32 i := by
  rw [BitVec.and_twoPow]
  split
  · exact Or.inr rfl
  · exact Or.inl rfl

theorem flag_whole {flag : Flagword} {i : Nat} (bit : flag = BitVec.twoPow 32 i) (on : f &&& flag ≠ 0) :
    f &&& flag = flag :=
  bit ▸ (and_flag i).resolve_left (bit ▸ on)

theorem flag_and_iff {flag : Flagword} {i : Nat} (bit : flag = BitVec.twoPow 32 i) :
    f &&& (g &&& flag) ≠ 0 ↔ f &&& flag ≠ 0 ∧ g &&& flag ≠ 0 := by
  rcases bit ▸ and_flag (f := g) i with off | on
  · rw [off]
    exact ⟨fun none => absurd BitVec.and_zero none, fun both => absurd rfl both.2⟩
  · rw [on]
    refine ⟨fun has => ⟨has, ?_⟩, And.left⟩
    rintro rfl
    exact has BitVec.and_zero

end Fields

def HeaderBfd.others (abfd : HeaderBfd) : HeaderBfd :=
  { abfd with eFlags := 0, archInfo := ⟨0, .mips3000, false, ""⟩ }

theorem HeaderBfd.same_fields {f g : HeaderBfd} (same : f.others = g.others) :
    f.isMipsElf = g.isMipsElf ∧ f.elfFlagsInit = g.elfFlagsInit ∧ f.eiClass = g.eiClass := by
  unfold HeaderBfd.others at same
  simp only [HeaderBfd.mk.injEq] at same
  tauto

namespace Comparison

variable (ibfd : HeaderBfd) (c : Comparison)

@[simp] theorem report_obfd (message : MergeMessage) (ok : Bool) : (c.report message ok).obfd = c.obfd := rfl
@[simp] theorem report_newFlags (message : MergeMessage) (ok : Bool) : (c.report message ok).newFlags = c.newFlags := rfl
@[simp] theorem report_oldFlags (message : MergeMessage) (ok : Bool) : (c.report message ok).oldFlags = c.oldFlags := rfl
@[simp] theorem report_ok (message : MergeMessage) (ok : Bool) : (c.report message ok).ok = ok := rfl
@[simp] theorem setFlags_eFlags (flags : Flagword) : (c.setFlags flags).obfd.eFlags = flags := rfl
@[simp] theorem setFlags_archInfo (flags : Flagword) : (c.setFlags flags).obfd.archInfo = c.obfd.archInfo := rfl
@[simp] theorem setFlags_newFlags (flags : Flagword) : (c.setFlags flags).newFlags = c.newFlags := rfl
@[simp] theorem setFlags_oldFlags (flags : Flagword) : (c.setFlags flags).oldFlags = c.oldFlags := rfl
@[simp] theorem setFlags_ok (flags : Flagword) : (c.setFlags flags).ok = c.ok := rfl
@[simp] theorem strip_obfd (mask : Flagword) : (c.strip mask).obfd = c.obfd := rfl
@[simp] theorem strip_newFlags (mask : Flagword) : (c.strip mask).newFlags = c.newFlags &&& ~~~mask := rfl
@[simp] theorem strip_oldFlags (mask : Flagword) : (c.strip mask).oldFlags = c.oldFlags &&& ~~~mask := rfl
@[simp] theorem strip_ok (mask : Flagword) : (c.strip mask).ok = c.ok := rfl

theorem abicalls_eFlags :
    (c.abicalls ibfd).obfd.eFlags =
      (if c.newFlags &&& efMipsPic = 0 then
        (if c.newFlags &&& (efMipsPic ||| efMipsCpic) ≠ 0 then c.obfd.eFlags ||| efMipsCpic else c.obfd.eFlags)
          &&& ~~~efMipsPic
      else
        if c.newFlags &&& (efMipsPic ||| efMipsCpic) ≠ 0 then c.obfd.eFlags ||| efMipsCpic else c.obfd.eFlags) := by
  unfold abicalls
  dsimp only
  split <;> split <;> split <;> rfl

theorem abicalls_rest :
    (c.abicalls ibfd).obfd = { c.obfd with eFlags := (c.abicalls ibfd).obfd.eFlags } ∧
      (c.abicalls ibfd).newFlags = c.newFlags &&& ~~~(efMipsPic ||| efMipsCpic) ∧
      (c.abicalls ibfd).oldFlags = c.oldFlags &&& ~~~(efMipsPic ||| efMipsCpic) ∧
      (c.ok = true → (c.abicalls ibfd).ok = true) := by
  unfold abicalls
  dsimp only
  refine ⟨?_, ?_, ?_, ?_⟩
  all_goals split <;> split <;> split <;> first | rfl | exact fun _ => rfl | exact id

theorem abicalls_others : (c.abicalls ibfd).obfd.others = c.obfd.others := by
  rw [(c.abicalls_rest ibfd).1]
  rfl

theorem abicalls_field {part : Flagword} (pic : ~~~efMipsPic &&& part = part) (cpic : efMipsCpic &&& part = 0) :
    (c.abicalls ibfd).obfd.eFlags &&& part = c.obfd.eFlags &&& part := by
  rw [abicalls_eFlags]
  split <;> split <;> simp [BitVec.and_or_distrib_right, BitVec.and_assoc, pic, cpic]

theorem abicalls_pic :
    (c.abicalls ibfd).obfd.eFlags &&& efMipsPic = c.obfd.eFlags &&& (c.newFlags &&& efMipsPic) := by
  have apart : efMipsCpic &&& efMipsPic = 0 := by decide
  have cleared : ~~~efMipsPic &&& efMipsPic = 0 := by decide
  rw [abicalls_eFlags]
  split
  · next off => rw [off]; split <;> simp [BitVec.and_assoc, cleared]
  · next on =>
    have whole : c.newFlags &&& efMipsPic = efMipsPic := flag_whole (show efMipsPic = BitVec.twoPow 32 1 by decide) on
    rw [whole]
    split <;> simp [BitVec.and_or_distrib_right, apart]

theorem isas_ok (good : (c.isas ibfd).ok = true) :
    mips32bitFlagsP c.oldFlags = mips32bitFlagsP c.newFlags ∧
      (mipsMachExtendsP ibfd.archInfo.mach c.obfd.archInfo.mach = true ∨
        mipsMachExtendsP c.obfd.archInfo.mach ibfd.archInfo.mach = true) := by
  unfold isas at good
  dsimp only at good
  rw [strip_ok] at good
  split at good
  · cases good
  · next agree =>
    refine ⟨by simpa using agree, ?_⟩
    split at good
    · split at good
      · next other => exact Or.inr other
      · cases good
    · next first => exact Or.inl (by simpa using first)

theorem isas_cases :
    (c.isas ibfd).obfd = c.obfd ∧
        (mipsMachExtendsP ibfd.archInfo.mach c.obfd.archInfo.mach = true ∨ (c.isas ibfd).ok = false) ∨
      (c.isas ibfd).obfd = (c.adoptIsa ibfd).obfd ∧
        mipsMachExtendsP c.obfd.archInfo.mach ibfd.archInfo.mach = true := by
  unfold isas
  dsimp only
  split
  · exact Or.inl ⟨rfl, Or.inr rfl⟩
  · split
    · split
      · next other => exact Or.inr ⟨rfl, other⟩
      · exact Or.inl ⟨rfl, Or.inr rfl⟩
    · next first => exact Or.inl ⟨rfl, Or.inl (by simpa using first)⟩

theorem adoptIsa_archInfo : (c.adoptIsa ibfd).obfd.archInfo = ibfd.archInfo := by
  unfold adoptIsa
  dsimp only
  split <;> rfl

theorem adoptIsa_others : (c.adoptIsa ibfd).obfd.others = c.obfd.others := by
  unfold adoptIsa
  dsimp only
  split <;> rfl

theorem adoptIsa_eFlags :
    (c.adoptIsa ibfd).obfd.eFlags =
      c.obfd.eFlags &&& ~~~efMipsIsa ||| c.newFlags &&& (efMipsIsa ||| efMips32bitmode) |||
        if c.abiCopiedP then c.newFlags &&& efMipsAbi else 0 := by
  unfold adoptIsa efMipsIsa
  dsimp only
  by_cases copied : c.abiCopiedP
  · rw [if_pos copied, if_pos copied]
    rfl
  · rw [if_neg copied, if_neg copied]
    exact BitVec.or_zero.symm

theorem adoptIsa_isa : (c.adoptIsa ibfd).obfd.eFlags &&& efMipsIsa = c.newFlags &&& efMipsIsa := by
  have cleared : ~~~efMipsIsa &&& efMipsIsa = 0 := by decide
  have within : (efMipsIsa ||| efMips32bitmode) &&& efMipsIsa = efMipsIsa := by decide
  have apart : efMipsAbi &&& efMipsIsa = 0 := by decide
  rw [adoptIsa_eFlags]
  split <;> simp [BitVec.and_or_distrib_right, BitVec.and_assoc, cleared, within, apart]

theorem adoptIsa_mode :
    (c.adoptIsa ibfd).obfd.eFlags &&& efMips32bitmode =
      c.obfd.eFlags &&& efMips32bitmode ||| c.newFlags &&& efMips32bitmode := by
  have kept : ~~~efMipsIsa &&& efMips32bitmode = efMips32bitmode := by decide
  have within : (efMipsIsa ||| efMips32bitmode) &&& efMips32bitmode = efMips32bitmode := by decide
  have apart : efMipsAbi &&& efMips32bitmode = 0 := by decide
  rw [adoptIsa_eFlags]
  split <;> simp [BitVec.and_or_distrib_right, BitVec.and_assoc, kept, within, apart]

theorem adoptIsa_abi :
    (c.adoptIsa ibfd).obfd.eFlags &&& efMipsAbi =
      c.obfd.eFlags &&& efMipsAbi ||| if c.abiCopiedP then c.newFlags &&& efMipsAbi else 0 := by
  have kept : ~~~efMipsIsa &&& efMipsAbi = efMipsAbi := by decide
  have apart : (efMipsIsa ||| efMips32bitmode) &&& efMipsAbi = 0 := by decide
  rw [adoptIsa_eFlags]
  split <;> simp [BitVec.and_or_distrib_right, BitVec.and_assoc, kept, apart]

theorem adoptIsa_field {part : Flagword} (isa : efMipsIsa &&& part = 0) (kept : ~~~efMipsIsa &&& part = part)
    (mode : efMips32bitmode &&& part = 0) (abi : efMipsAbi &&& part = 0) :
    (c.adoptIsa ibfd).obfd.eFlags &&& part = c.obfd.eFlags &&& part := by
  rw [adoptIsa_eFlags]
  split <;> simp [BitVec.and_or_distrib_right, BitVec.and_assoc, isa, kept, mode, abi]

theorem isas_field {part : Flagword} (isa : efMipsIsa &&& part = 0) (kept : ~~~efMipsIsa &&& part = part)
    (mode : efMips32bitmode &&& part = 0) (abi : efMipsAbi &&& part = 0) :
    (c.isas ibfd).obfd.eFlags &&& part = c.obfd.eFlags &&& part := by
  rcases c.isas_cases ibfd with ⟨same, _⟩ | ⟨adopted, _⟩
  · rw [same]
  · rw [adopted, c.adoptIsa_field ibfd isa kept mode abi]

theorem isas_others : (c.isas ibfd).obfd.others = c.obfd.others := by
  rcases c.isas_cases ibfd with ⟨same, _⟩ | ⟨adopted, _⟩
  · rw [same]
  · rw [adopted, c.adoptIsa_others ibfd]

theorem isas_words :
    (c.isas ibfd).newFlags = c.newFlags &&& ~~~(efMipsIsa ||| efMips32bitmode) ∧
      (c.isas ibfd).oldFlags = c.oldFlags &&& ~~~(efMipsIsa ||| efMips32bitmode) := by
  have adopted : (c.adoptIsa ibfd).newFlags = c.newFlags ∧ (c.adoptIsa ibfd).oldFlags = c.oldFlags := by
    unfold adoptIsa
    dsimp only
    split <;> exact ⟨rfl, rfl⟩
  unfold isas
  dsimp only
  rw [strip_newFlags, strip_oldFlags]
  split
  · exact ⟨rfl, rfl⟩
  · split
    · split
      · rw [adopted.1, adopted.2]
        exact ⟨rfl, rfl⟩
      · exact ⟨rfl, rfl⟩
    · exact ⟨rfl, rfl⟩

theorem abis_obfd : (c.abis ibfd).obfd = c.obfd := by
  unfold abis
  dsimp only
  split
  · split <;> rfl
  · rfl

theorem abis_ok (good : (c.abis ibfd).ok = true) :
    c.ok = true ∧ ibfd.eiClass = c.obfd.eiClass ∧
      (c.newFlags &&& efMipsAbi = 0 ∨ c.oldFlags &&& efMipsAbi = 0 ∨
        c.newFlags &&& efMipsAbi = c.oldFlags &&& efMipsAbi) := by
  unfold abis at good
  dsimp only at good
  split at good
  · split at good
    · cases good
    · next differ compatible =>
      simp only [not_or, not_and, not_not] at compatible
      refine ⟨good, compatible.2, ?_⟩
      by_cases unset : c.newFlags &&& efMipsAbi = 0
      · exact Or.inl unset
      · exact Or.inr (Or.inl (compatible.1 unset))
  · next same =>
    simp only [not_or, not_not] at same
    exact ⟨good, same.2, Or.inr (Or.inr same.1)⟩

theorem abis_ase :
    (c.abis ibfd).newFlags &&& efMipsArchAse = c.newFlags &&& efMipsArchAse ∧
      (c.abis ibfd).oldFlags &&& efMipsArchAse = c.oldFlags &&& efMipsArchAse := by
  have kept : ~~~efMipsAbi &&& efMipsArchAse = efMipsArchAse := by decide
  unfold abis
  dsimp only
  split
  · split <;> simp [BitVec.and_assoc, kept]
  · exact ⟨rfl, rfl⟩

theorem ases_archInfo : (c.ases ibfd).obfd.archInfo = c.obfd.archInfo := by
  unfold ases
  dsimp only
  split
  · split <;> rfl
  · rfl

theorem ases_others : (c.ases ibfd).obfd.others = c.obfd.others := by
  unfold ases
  dsimp only
  split
  · split <;> rfl
  · rfl

theorem ases_eFlags :
    (c.ases ibfd).obfd.eFlags = c.obfd.eFlags ∧
        c.newFlags &&& efMipsArchAse = c.oldFlags &&& efMipsArchAse ∨
      (c.ases ibfd).obfd.eFlags = c.obfd.eFlags ||| c.newFlags &&& efMipsArchAse := by
  unfold ases
  dsimp only
  split
  · exact Or.inr (by split <;> rfl)
  · next same => exact Or.inl ⟨rfl, by simpa using same⟩

theorem ases_field {part : Flagword} (apart : efMipsArchAse &&& part = 0) :
    (c.ases ibfd).obfd.eFlags &&& part = c.obfd.eFlags &&& part := by
  rcases c.ases_eFlags ibfd with ⟨same, _⟩ | joined
  · rw [same]
  · rw [joined, or_masked_field apart]

theorem ases_ok (good : (c.ases ibfd).ok = true) :
    c.ok = true ∧
      (c.newFlags &&& efMipsArchAse = c.oldFlags &&& efMipsArchAse ∨
        ¬(c.oldFlags &&& efMipsArchAseMicromips ≠ 0 ∧ c.newFlags &&& efMipsArchAseM16 ≠ 0) ∧
          ¬(c.oldFlags &&& efMipsArchAseM16 ≠ 0 ∧ c.newFlags &&& efMipsArchAseMicromips ≠ 0)) := by
  unfold ases at good
  dsimp only at good
  split at good
  · rw [strip_ok, setFlags_ok] at good
    split at good
    · cases good
    · next apart => exact ⟨good, Or.inr (not_or.mp apart)⟩
  · next same => exact ⟨good, Or.inl (by simpa using same)⟩

theorem others_obfd : (c.others ibfd).obfd = c.obfd := by
  unfold others
  split <;> rfl

theorem others_ok (good : (c.others ibfd).ok = true) : c.ok = true ∧ c.newFlags = c.oldFlags := by
  unfold others at good
  split at good
  · cases good
  · next same => exact ⟨good, by simpa using same⟩

end Comparison

end Openisa.Header
