import Openisa.Bfd.Shuffle

/-! The microMIPS instructions that relaxation looks for, and its tests of branches and delay slots. -/

namespace Openisa.Relax

open Openisa.Bfd
open Openisa.Library.ByteStore

structure OpcodeDescriptor where
  «match» : BfdVma
  mask : BfdVma
  deriving DecidableEq, Repr

def op32Sreg (opcode : BfdVma) : BfdVma := (opcode >>> 16) &&& 0x1f
def op32Treg (opcode : BfdVma) : BfdVma := (opcode >>> 21) &&& 0x1f

def op16ValidReg (r : BfdVma) : Bool := (2 ≤ r && r ≤ 7) || (16 ≤ r && r ≤ 17)

def bInsns32 : List OpcodeDescriptor := [⟨0x40400000, 0xffff0000⟩, ⟨0x94000000, 0xffff0000⟩]
def bcInsn32 : OpcodeDescriptor := ⟨0x42800000, 0xfec30000⟩
def bzInsn32 : OpcodeDescriptor := ⟨0x40000000, 0xff200000⟩
def bzalInsn32 : OpcodeDescriptor := ⟨0x40200000, 0xffa00000⟩
def beqInsn32 : OpcodeDescriptor := ⟨0x94000000, 0xdc000000⟩
def bInsn16 : OpcodeDescriptor := ⟨0xcc00, 0xfc00⟩
def bzInsn16 : OpcodeDescriptor := ⟨0x8c00, 0xdc00⟩

def bzc32RegField (r : BfdVma) : BfdVma := (r &&& 0x1f) <<< 16

-- first eq, then ne
def bzRsInsns32 : List OpcodeDescriptor := [⟨0x94000000, 0xffe00000⟩, ⟨0xb4000000, 0xffe00000⟩]
def bzRtInsns32 : List OpcodeDescriptor := [⟨0x94000000, 0xfc01f000⟩, ⟨0xb4000000, 0xfc01f000⟩]
def bzcInsns32 : List OpcodeDescriptor := [⟨0x40e00000, 0xffe00000⟩, ⟨0x40a00000, 0xffe00000⟩]
def bzInsns16 : List OpcodeDescriptor := [⟨0x8c00, 0xfc00⟩, ⟨0xac00, 0xfc00⟩]

def bz16Reg (opcode : BfdVma) : BfdVma := ((((opcode >>> 7) &&& 7) + 0x1e) &&& 0x17) + 2

def reg16 (r : BfdVma) : BfdVma := if 2 ≤ r ∧ r ≤ 7 then r else r - 16

def bz16RegField (r : BfdVma) : BfdVma := reg16 r <<< 7

def jalInsn32Bd16 : OpcodeDescriptor := ⟨0x74000000, 0xfc000000⟩
def jalInsn32Bd32 : OpcodeDescriptor := ⟨0xf4000000, 0xfc000000⟩
def jalXInsn32Bd32 : OpcodeDescriptor := ⟨0xf0000000, 0xf8000000⟩
def jInsn32 : OpcodeDescriptor := ⟨0xd4000000, 0xfc000000⟩
def jalrInsn32 : OpcodeDescriptor := ⟨0x00000f3c, 0xfc00efff⟩

def dsInsns32Bd16 : List OpcodeDescriptor :=
  [⟨0x74000000, 0xfc000000⟩, ⟨0x00004f3c, 0xfc00efff⟩, ⟨0x42200000, 0xffa00000⟩, ⟨0x40000000, 0xff200000⟩,
    ⟨0x94000000, 0xdc000000⟩, ⟨0xd4000000, 0xfc000000⟩]
def dsInsns32Bd32 : List OpcodeDescriptor :=
  [⟨0xf0000000, 0xf8000000⟩, ⟨0x00000f3c, 0xfc00efff⟩, ⟨0x40200000, 0xffa00000⟩]

def jalrInsn16Bd16 : OpcodeDescriptor := ⟨0x45e0, 0xffe0⟩
def jalrInsn16Bd32 : OpcodeDescriptor := ⟨0x45c0, 0xffe0⟩
def jrInsn16 : OpcodeDescriptor := ⟨0x4580, 0xffe0⟩

def jr16Reg (opcode : BfdVma) : BfdVma := opcode &&& 0x1f

def dsInsns16Bd16 : List OpcodeDescriptor :=
  [⟨0x45e0, 0xffe0⟩, ⟨0xcc00, 0xfc00⟩, ⟨0x8c00, 0xdc00⟩, ⟨0x4580, 0xffe0⟩]

def luiInsn : OpcodeDescriptor := ⟨0x41a00000, 0xffe00000⟩
def addiuInsn : OpcodeDescriptor := ⟨0x30000000, 0xfc000000⟩
def addiupcInsn : OpcodeDescriptor := ⟨0x78000000, 0xfc000000⟩

def addiupcRegField (r : BfdVma) : BfdVma := reg16 r <<< 23

def move32Rd (opcode : BfdVma) : BfdVma := (opcode >>> 11) &&& 0x1f
def move32Rs (opcode : BfdVma) : BfdVma := (opcode >>> 16) &&& 0x1f
def move16RdField (r : BfdVma) : BfdVma := (r &&& 0x1f) <<< 5
def move16RsField (r : BfdVma) : BfdVma := r &&& 0x1f

def moveInsns32 : List OpcodeDescriptor := [⟨0x00000150, 0xffe007ff⟩, ⟨0x00000290, 0xffe007ff⟩]
def moveInsn16 : OpcodeDescriptor := ⟨0x0c00, 0xfc00⟩
def nopInsn32 : OpcodeDescriptor := ⟨0x00000000, 0xffffffff⟩
def nopInsn16 : OpcodeDescriptor := ⟨0x0c00, 0xffff⟩

def matchInsn (opcode : BfdVma) (insn : OpcodeDescriptor) : Bool := opcode &&& insn.mask == insn.match

def findMatch (opcode : BfdVma) (insn : List OpcodeDescriptor) : Option Nat := insn.findIdx? (matchInsn opcode)

def isBitsize (val : BfdVma) (n : Nat) : Bool :=
  ((val &&& ((1 : BfdVma) <<< n) - 1) ^^^ ((1 : BfdVma) <<< (n - 1))) - ((1 : BfdVma) <<< (n - 1)) == val

variable (order : Endian) (d : Store) (loc : Nat)

def bfdGetMicromips32 : BfdVma := (bfdGet16 order d loc <<< 16) ||| bfdGet16 order d (loc + 2)

def bfdPutMicromips32 (opcode : BfdVma) : Store :=
  bfdPut16 order (opcode &&& 0xffff) (bfdPut16 order ((opcode >>> 16) &&& 0xffff) d loc) (loc + 2)

/-- The least length of the delay slot of what may be a 16-bit branch or jump, or 0. -/
def checkBr16Dslot : Nat :=
  let opcode := bfdGet16 order d loc
  if matchInsn opcode jalrInsn16Bd32 then 4
  else if matchInsn opcode jalrInsn16Bd16 || (findMatch opcode dsInsns16Bd16).isSome then 2
  else 0

def checkBr32Dslot : Nat :=
  let opcode := bfdGetMicromips32 order d loc
  if (findMatch opcode dsInsns32Bd32).isSome then 4
  else if (findMatch opcode dsInsns32Bd16).isSome then 2
  else 0

def ra : BfdVma := 31

/-- A 16-bit branch or jump with a 32-bit delay slot that leaves the register alone. -/
def checkBr16 (reg : BfdVma) : Bool :=
  let opcode := bfdGet16 order d loc
  matchInsn opcode bInsn16 || (matchInsn opcode jrInsn16 && reg != jr16Reg opcode) ||
    (matchInsn opcode bzInsn16 && reg != bz16Reg opcode) ||
    (matchInsn opcode jalrInsn16Bd32 && reg != jr16Reg opcode && reg != ra)

def checkBr32 (reg : BfdVma) : Bool :=
  let opcode := bfdGetMicromips32 order d loc
  matchInsn opcode jInsn32 || matchInsn opcode bcInsn32 || (matchInsn opcode jalXInsn32Bd32 && reg != ra) ||
    (matchInsn opcode bzInsn32 && reg != op32Sreg opcode) ||
    (matchInsn opcode bzalInsn32 && reg != op32Sreg opcode && reg != ra) ||
    ((matchInsn opcode jalrInsn32 || matchInsn opcode beqInsn32) && reg != op32Sreg opcode &&
      reg != op32Treg opcode)

end Openisa.Relax
