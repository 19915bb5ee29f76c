import Openisa.Header.Machine
import Mathlib.Data.BitVec

/-! The `e_flags` word of a header: its fields, and the machine that it stands for. -/

namespace Openisa.Header

abbrev Flagword := BitVec 32

def efMipsNoreorder : Flagword := 0x1
def efMipsPic : Flagword := 0x2
def efMipsCpic : Flagword := 0x4
def efMipsXgot : Flagword := 0x8
def efMipsUcode : Flagword := 0x10
def efMips32bitmode : Flagword := 0x100
def efMipsAbi : Flagword := 0xf000
def efMipsMach : Flagword := 0xff0000
def efMipsArchAse : Flagword := 0xf000000
def efMipsArchAseMicromips : Flagword := 0x2000000
def efMipsArchAseM16 : Flagword := 0x4000000
def efMipsArch : Flagword := 0xf0000000

def eMipsAbiO32 : Flagword := 0x1000
def eMipsAbiO64 : Flagword := 0x2000
def eMipsAbiEabi32 : Flagword := 0x3000
def eMipsAbiEabi64 : Flagword := 0x4000

def eMipsArch1 : Flagword := 0x00000000
def eMipsArch2 : Flagword := 0x10000000
def eMipsArch3 : Flagword := 0x20000000
def eMipsArch4 : Flagword := 0x30000000
def eMipsArch5 : Flagword := 0x40000000
def eMipsArch32 : Flagword := 0x50000000
def eMipsArch64 : Flagword := 0x60000000
def eMipsArch32r2 : Flagword := 0x70000000
def eMipsArch64r2 : Flagword := 0x80000000

def eMipsMach3900 : Flagword := 0x810000
def eMipsMach4010 : Flagword := 0x820000
def eMipsMach4100 : Flagword := 0x830000
def eMipsMach4650 : Flagword := 0x850000
def eMipsMach4120 : Flagword := 0x870000
def eMipsMach4111 : Flagword := 0x880000
def eMipsMachSb1 : Flagword := 0x8a0000
def eMipsMachOcteon : Flagword := 0x8b0000
def eMipsMachXlr : Flagword := 0x8c0000
def eMipsMachOcteon2 : Flagword := 0x8d0000
def eMipsMach5400 : Flagword := 0x910000
def eMipsMach5500 : Flagword := 0x980000
def eMipsMach9000 : Flagword := 0x990000
def eMipsMachLs2e : Flagword := 0xa00000
def eMipsMachLs2f : Flagword := 0xa10000
def eMipsMachLs3a : Flagword := 0xa20000

/-- The inner switch of `_bfd_elf_mips_mach`, on the architecture level. -/
def machOfArch (flags : Flagword) : BfdMach :=
  let arch := flags &&& efMipsArch
  if arch = eMipsArch2 then .mips6000
  else if arch = eMipsArch3 then .mips4000
  else if arch = eMipsArch4 then .mips8000
  else if arch = eMipsArch5 then .mips5
  else if arch = eMipsArch32 then .mipsisa32
  else if arch = eMipsArch64 then .mipsisa64
  else if arch = eMipsArch32r2 then .mipsisa32r2
  else if arch = eMipsArch64r2 then .mipsisa64r2
  else .mips3000

def bfdElfMipsMach (flags : Flagword) : BfdMach :=
  let mach := flags &&& efMipsMach
  if mach = eMipsMach3900 then .mips3900
  else if mach = eMipsMach4010 then .mips4010
  else if mach = eMipsMach4100 then .mips4100
  else if mach = eMipsMach4111 then .mips4111
  else if mach = eMipsMach4120 then .mips4120
  else if mach = eMipsMach4650 then .mips4650
  else if mach = eMipsMach5400 then .mips5400
  else if mach = eMipsMach5500 then .mips5500
  else if mach = eMipsMach9000 then .mips9000
  else if mach = eMipsMachSb1 then .mipsSb1
  else if mach = eMipsMachLs2e then .mipsLoongson2e
  else if mach = eMipsMachLs2f then .mipsLoongson2f
  else if mach = eMipsMachLs3a then .mipsLoongson3a
  else if mach = eMipsMachOcteon2 then .mipsOcteon2
  else if mach = eMipsMachOcteon then .mipsOcteon
  else if mach = eMipsMachXlr then .mipsXlr
  else machOfArch flags

/-- The switch of `mips_set_isa_flags`. -/
def isaFlags : BfdMach → Flagword
  | .mips3900 => eMipsArch1 ||| eMipsMach3900
  | .mips6000 => eMipsArch2
  | .mips4000 | .mips4300 | .mips4400 | .mips4600 => eMipsArch3
  | .mips4010 => eMipsArch3 ||| eMipsMach4010
  | .mips4100 => eMipsArch3 ||| eMipsMach4100
  | .mips4111 => eMipsArch3 ||| eMipsMach4111
  | .mips4120 => eMipsArch3 ||| eMipsMach4120
  | .mips4650 => eMipsArch3 ||| eMipsMach4650
  | .mips5400 => eMipsArch4 ||| eMipsMach5400
  | .mips5500 => eMipsArch4 ||| eMipsMach5500
  | .mips9000 => eMipsArch4 ||| eMipsMach9000
  | .mips5000 | .mips7000 | .mips8000 | .mips10000 | .mips12000 | .mips14000 | .mips16000 => eMipsArch4
  | .mips5 => eMipsArch5
  | .mipsLoongson2e => eMipsArch3 ||| eMipsMachLs2e
  | .mipsLoongson2f => eMipsArch3 ||| eMipsMachLs2f
  | .mipsSb1 => eMipsArch64 ||| eMipsMachSb1
  | .mipsLoongson3a => eMipsArch64 ||| eMipsMachLs3a
  | .mipsOcteon | .mipsOcteonp => eMipsArch64r2 ||| eMipsMachOcteon
  | .mipsXlr => eMipsArch64 ||| eMipsMachXlr
  | .mipsOcteon2 => eMipsArch64r2 ||| eMipsMachOcteon2
  | .mipsisa32 => eMipsArch32
  | .mipsisa64 => eMipsArch64
  | .mipsisa32r2 => eMipsArch32r2
  | .mipsisa64r2 => eMipsArch64r2
  | .mips3000 | .other _ => eMipsArch1

def mipsSetIsaFlags (mach : BfdMach) (flags : Flagword) : Flagword :=
  flags &&& ~~~(efMipsArch ||| efMipsMach) ||| isaFlags mach

def mips32bitFlagsP (flags : Flagword) : Bool :=
  flags &&& efMips32bitmode ≠ 0
    || flags &&& efMipsAbi = eMipsAbiO32
    || flags &&& efMipsAbi = eMipsAbiEabi32
    || flags &&& efMipsArch = eMipsArch1
    || flags &&& efMipsArch = eMipsArch2
    || flags &&& efMipsArch = eMipsArch32
    || flags &&& efMipsArch = eMipsArch32r2

section Words

variable {f g : Flagword}

theorem agree_part {mask part : Flagword} (inside : mask &&& part = part) (same : f &&& mask = g &&& mask) :
    f &&& part = g &&& part := by
  calc f &&& part = f &&& mask &&& part := by rw [BitVec.and_assoc, inside]
    _ = g &&& mask &&& part := by rw [same]
    _ = g &&& part := by rw [BitVec.and_assoc, inside]

end Words

theorem bfdElfMipsMach_congr {f g : Flagword}
    (same : f &&& (efMipsArch ||| efMipsMach) = g &&& (efMipsArch ||| efMipsMach)) :
    bfdElfMipsMach f = bfdElfMipsMach g := by
  have arch : f &&& efMipsArch = g &&& efMipsArch := agree_part (by decide) same
  have mach : f &&& efMipsMach = g &&& efMipsMach := agree_part (by decide) same
  unfold bfdElfMipsMach machOfArch
  rw [arch, mach]

theorem mipsSetIsaFlags_field (m : BfdMach) (f : Flagword) :
    mipsSetIsaFlags m f &&& (efMipsArch ||| efMipsMach) = isaFlags m &&& (efMipsArch ||| efMipsMach) := by
  have cleared : ~~~(efMipsArch ||| efMipsMach) &&& (efMipsArch ||| efMipsMach) = 0 := by decide
  rw [mipsSetIsaFlags, BitVec.and_or_distrib_right, BitVec.and_assoc, cleared]
  simp

theorem bfdElfMipsMach_set (m : BfdMach) (f : Flagword) :
    bfdElfMipsMach (mipsSetIsaFlags m f) = bfdElfMipsMach (isaFlags m) :=
  bfdElfMipsMach_congr (mipsSetIsaFlags_field m f)

/-- The machine is written as it is read. -/
def Written (m : BfdMach) : Prop := bfdElfMipsMach (isaFlags m) = m

instance (m : BfdMach) : Decidable (Written m) := inferInstanceAs (Decidable (_ = _))

theorem written_ite (c : Prop) [Decidable c] {m n : BfdMach} (first : Written m) (second : Written n) :
    Written (if c then m else n) := by
  split
  · exact first
  · exact second

theorem written_machOfArch (f : Flagword) : Written (machOfArch f) := by
  unfold machOfArch
  repeat' apply written_ite
  all_goals decide

theorem written_bfdElfMipsMach (f : Flagword) : Written (bfdElfMipsMach f) := by
  unfold bfdElfMipsMach
  dsimp only
  iterate 16 refine written_ite _ (by decide) ?_
  exact written_machOfArch f

end Openisa.Header
