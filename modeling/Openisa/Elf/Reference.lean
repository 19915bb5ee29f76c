import Openisa.Elf.RelocateSection

/-! A link without a GOT, merged sections or callbacks that fail, for runs on concrete input. -/

namespace Openisa.Elf

open Openisa.Bfd
open Openisa.Library.ByteStore

def referenceElfLib : ElfLib where
  relLocalSym _ sec addend := (addend, sec)
  relaLocalSym _ _ addend := addend
  clearContents _ d _ := d
  gprel16RelocP type := type ∈ [.rMipsGprel16, .rMips16Gprel, .rMicromipsGprel16, .rMicromipsGprel7S2]
  literalRelocP type := type == .rMipsLiteral || type == .rMicromipsLiteral

theorem reference_gp_relative_only : referenceElfLib.GpRelativeOnly := by
  intro type classes
  revert classes
  cases type <;> decide

def noGot : GotOps Unit where
  localGotIndex _ _ _ _ s := (none, s)
  globalGotIndex _ _ s := (0, s)
  gotpltIndex _ s := (0, s)
  got16Entry _ _ s := (none, s)
  gotPage _ s := (none, s)
  gotOffsetFromIndex index _ := index
  putGotWord _ _ s := s
  addGottReloc _ _ s := s
  createDynamicRelocation _ _ _ s := (none, s)

def staticLink (order : Endian) (relocatable : Bool) : ElfLink where
  relocatable := relocatable
  shared := false
  isVxworks := false
  dynamicSectionsCreated := false
  unresolvedIgnore := false
  sgiCompat := false
  picObject := false
  jalToBal := false
  hasCallFpStubSection := false
  order := order
  gp0 := 0
  outputGp := 0
  gp := 0
  dtprelBase := 0
  tprelBase := 0
  splt := none
  callback _ _ := true

/-- A section that lies at `offset` of an output section at `vma`. -/
def keptSection (vma offset : BfdVma) : ElfSection := ⟨vma, offset, true, false, true, false, false⟩

def sectionSym : ElfSym := ⟨".text", 0, true, .standard⟩

end Openisa.Elf
