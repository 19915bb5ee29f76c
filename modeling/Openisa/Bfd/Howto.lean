import Openisa.Bfd.RelocType
import Openisa.Library.BitField

/-! The howto tables: width, position, shift and special function of every relocation type. -/

namespace Openisa.Bfd

open Openisa.Library

/-- `bfd_vma`: the linker computes addresses in 64 bits. -/
abbrev BfdVma := BitVec 64

inductive BfdRelocStatus where
  | ok | overflow | outofrange | continue | notsupported | undefined | dangerous
  deriving DecidableEq, Repr

inductive ComplainOverflow where
  | dont | bitfield | signed | unsigned
  deriving DecidableEq, Repr

inductive SpecialFunction where
  | bfdMipsElfGenericReloc | bfdMipsElfHi16Reloc | bfdMipsElfGot16Reloc | bfdMipsElfLo16Reloc
  | bfdMipsElf32Gprel16Reloc | mipsElfGprel32Reloc | mips16GprelReloc | mips3264bitReloc
  | bfdElfGenericReloc | bfdElfRelVtableRelocFn
  deriving DecidableEq, Repr

structure RelocHowto where
  type : MipsReloc
  rightshift : Nat
  size : Nat
  bitsize : Nat
  pcRelative : Bool
  bitpos : Nat
  complainOnOverflow : ComplainOverflow
  specialFunction : Option SpecialFunction
  name : String
  partialInplace : Bool
  srcMask : BfdVma
  dstMask : BfdVma
  deriving DecidableEq, Repr

/-- The `HOWTO` macro, without the `pcrel_offset` argument that no function here reads. -/
def howto (type : MipsReloc) (rightshift size bitsize : Nat) (pcRelative : Bool) (bitpos : Nat)
    (complain : ComplainOverflow) (special : Option SpecialFunction) (name : String)
    (partialInplace : Bool) (srcMask dstMask : BfdVma) : RelocHowto :=
  ⟨type, rightshift, size, bitsize, pcRelative, bitpos, complain, special, name, partialInplace,
    srcMask, dstMask⟩

def emptyHowto (type : MipsReloc) : RelocHowto :=
  howto type 0 0 0 false 0 .dont none "" false 0 0

def minusOne : BfdVma := 0 - 1

def bfdGetRelocSize (h : RelocHowto) : Nat :=
  match h.size with
  | 0 => 1
  | 1 => 2
  | 2 => 4
  | 4 => 8
  | 8 => 16
  | _ => 0

def mipsElf32RtypeToHowto : MipsReloc → RelocHowto
  -- elf_mips_howto_table_rel
  | .rMipsNone => howto .rMipsNone 0 0 0 false 0 .dont (some .bfdMipsElfGenericReloc)
      "R_MIPS_NONE" false 0 0
  | .rMips16 => howto .rMips16 0 2 16 false 0 .signed (some .bfdMipsElfGenericReloc)
      "R_MIPS_16" true 0x0000ffff 0x0000ffff
  | .rMips32 => howto .rMips32 0 2 32 false 0 .dont (some .bfdMipsElfGenericReloc)
      "R_MIPS_32" true 0xffffffff 0xffffffff
  | .rMipsRel32 => howto .rMipsRel32 0 2 32 false 0 .dont (some .bfdMipsElfGenericReloc)
      "R_MIPS_REL32" true 0xffffffff 0xffffffff
  | .rMips26 => howto .rMips26 2 2 20 false 0 .dont (some .bfdMipsElfGenericReloc)
      "R_MIPS_26" true 0x000fffff 0x000fffff
  | .rMipsHi16 => howto .rMipsHi16 14 2 18 false 0 .dont (some .bfdMipsElfGenericReloc)
      "R_MIPS_HI16" true 0x0003ffff 0x0003ffff
  | .rMipsLo16 => howto .rMipsLo16 0 2 14 false 6 .dont (some .bfdMipsElfGenericReloc)
      "R_MIPS_LO16" true 0x000fffc0 0x000fffc0
  | .rMipsGprel16 => howto .rMipsGprel16 0 2 16 false 0 .signed (some .bfdMipsElf32Gprel16Reloc)
      "R_MIPS_GPREL16" true 0x0000ffff 0x0000ffff
  | .rMipsLiteral => howto .rMipsLiteral 0 2 16 false 0 .signed (some .bfdMipsElf32Gprel16Reloc)
      "R_MIPS_LITERAL" true 0x0000ffff 0x0000ffff
  | .rMipsGot16 => howto .rMipsGot16 0 2 16 false 0 .signed (some .bfdMipsElfGot16Reloc)
      "R_MIPS_GOT16" true 0x0000ffff 0x0000ffff
  | .rMipsPc16 => howto .rMipsPc16 2 2 14 true 12 .signed (some .bfdMipsElfGenericReloc)
      "R_MIPS_PC16" true 0x03fff000 0x03fff000
  | .rMipsCall16 => howto .rMipsCall16 0 2 16 false 0 .signed (some .bfdMipsElfGenericReloc)
      "R_MIPS_CALL16" true 0x0000ffff 0x0000ffff
  | .rMipsGprel32 => howto .rMipsGprel32 0 2 32 false 0 .dont (some .mipsElfGprel32Reloc)
      "R_MIPS_GPREL32" true 0xffffffff 0xffffffff
  | .unused13 => emptyHowto .unused13
  | .unused14 => emptyHowto .unused14
  | .unused15 => emptyHowto .unused15
  | .rMipsShift5 => howto .rMipsShift5 0 2 5 false 6 .bitfield (some .bfdMipsElfGenericReloc)
      "R_MIPS_SHIFT5" true 0x000007c0 0x000007c0
  | .rMipsShift6 => howto .rMipsShift6 0 2 6 false 6 .bitfield (some .bfdMipsElfGenericReloc)
      "R_MIPS_SHIFT6" true 0x000007c4 0x000007c4
  | .rMips64 => howto .rMips64 0 4 64 false 0 .dont (some .mips3264bitReloc)
      "R_MIPS_64" true minusOne minusOne
  | .rMipsGotDisp => howto .rMipsGotDisp 0 2 16 false 0 .signed (some .bfdMipsElfGenericReloc)
      "R_MIPS_GOT_DISP" true 0x0000ffff 0x0000ffff
  | .rMipsGotPage => howto .rMipsGotPage 0 2 16 false 0 .signed (some .bfdMipsElfGenericReloc)
      "R_MIPS_GOT_PAGE" true 0x0000ffff 0x0000ffff
  | .rMipsGotOfst => howto .rMipsGotOfst 0 2 16 false 0 .signed (some .bfdMipsElfGenericReloc)
      "R_MIPS_GOT_OFST" true 0x0000ffff 0x0000ffff
  | .rMipsGotHi16 => howto .rMipsGotHi16 0 2 16 false 0 .dont (some .bfdMipsElfGenericReloc)
      "R_MIPS_GOT_HI16" true 0x0000ffff 0x0000ffff
  | .rMipsGotLo16 => howto .rMipsGotLo16 0 2 16 false 0 .dont (some .bfdMipsElfGenericReloc)
      "R_MIPS_GOT_LO16" true 0x0000ffff 0x0000ffff
  | .rMipsSub => howto .rMipsSub 0 4 64 false 0 .dont (some .bfdMipsElfGenericReloc)
      "R_MIPS_SUB" true minusOne minusOne
  | .rMipsInsertA => emptyHowto .rMipsInsertA
  | .rMipsInsertB => emptyHowto .rMipsInsertB
  | .rMipsDelete => emptyHowto .rMipsDelete
  | .rMipsHigher => howto .rMipsHigher 0 2 16 false 0 .dont (some .bfdMipsElfGenericReloc)
      "R_MIPS_HIGHER" true 0x0000ffff 0x0000ffff
  | .rMipsHighest => howto .rMipsHighest 0 2 16 false 0 .dont (some .bfdMipsElfGenericReloc)
      "R_MIPS_HIGHEST" true 0x0000ffff 0x0000ffff
  | .rMipsCallHi16 => howto .rMipsCallHi16 0 2 16 false 0 .dont (some .bfdMipsElfGenericReloc)
      "R_MIPS_CALL_HI16" true 0x0000ffff 0x0000ffff
  | .rMipsCallLo16 => howto .rMipsCallLo16 0 2 16 false 0 .dont (some .bfdMipsElfGenericReloc)
      "R_MIPS_CALL_LO16" true 0x0000ffff 0x0000ffff
  | .rMipsScnDisp => howto .rMipsScnDisp 0 2 32 false 0 .dont (some .bfdMipsElfGenericReloc)
      "R_MIPS_SCN_DISP" true 0xffffffff 0xffffffff
  | .rMipsRel16 => emptyHowto .rMipsRel16
  | .rMipsAddImmediate => emptyHowto .rMipsAddImmediate
  | .rMipsPjump => emptyHowto .rMipsPjump
  | .rMipsRelgot => emptyHowto .rMipsRelgot
  | .rMipsJalr => howto .rMipsJalr 0 2 32 false 0 .dont (some .bfdMipsElfGenericReloc)
      "R_MIPS_JALR" false 0x00000000 0x00000000
  | .rMipsTlsDtpmod32 => howto .rMipsTlsDtpmod32 0 2 32 false 0 .dont (some .bfdMipsElfGenericReloc)
      "R_MIPS_TLS_DTPMOD32" true 0xffffffff 0xffffffff
  | .rMipsTlsDtprel32 => howto .rMipsTlsDtprel32 0 2 32 false 0 .dont (some .bfdMipsElfGenericReloc)
      "R_MIPS_TLS_DTPREL32" true 0xffffffff 0xffffffff
  | .rMipsTlsDtpmod64 => emptyHowto .rMipsTlsDtpmod64
  | .rMipsTlsDtprel64 => emptyHowto .rMipsTlsDtprel64
  | .rMipsTlsGd => howto .rMipsTlsGd 0 2 16 false 0 .signed (some .bfdMipsElfGenericReloc)
      "R_MIPS_TLS_GD" true 0x0000ffff 0x0000ffff
  | .rMipsTlsLdm => howto .rMipsTlsLdm 0 2 16 false 0 .signed (some .bfdMipsElfGenericReloc)
      "R_MIPS_TLS_LDM" true 0x0000ffff 0x0000ffff
  | .rMipsTlsDtprelHi16 => howto .rMipsTlsDtprelHi16 0 2 16 false 0 .signed (some .bfdMipsElfGenericReloc)
      "R_MIPS_TLS_DTPREL_HI16" true 0x0000ffff 0x0000ffff
  | .rMipsTlsDtprelLo16 => howto .rMipsTlsDtprelLo16 0 2 16 false 0 .signed (some .bfdMipsElfGenericReloc)
      "R_MIPS_TLS_DTPREL_LO16" true 0x0000ffff 0x0000ffff
  | .rMipsTlsGottprel => howto .rMipsTlsGottprel 0 2 16 false 0 .signed (some .bfdMipsElfGenericReloc)
      "R_MIPS_TLS_GOTTPREL" true 0x0000ffff 0x0000ffff
  | .rMipsTlsTprel32 => howto .rMipsTlsTprel32 0 2 32 false 0 .dont (some .bfdMipsElfGenericReloc)
      "R_MIPS_TLS_TPREL32" true 0xffffffff 0xffffffff
  | .rMipsTlsTprel64 => emptyHowto .rMipsTlsTprel64
  | .rMipsTlsTprelHi16 => howto .rMipsTlsTprelHi16 0 2 16 false 0 .signed (some .bfdMipsElfGenericReloc)
      "R_MIPS_TLS_TPREL_HI16" true 0x0000ffff 0x0000ffff
  | .rMipsTlsTprelLo16 => howto .rMipsTlsTprelLo16 0 2 16 false 0 .signed (some .bfdMipsElfGenericReloc)
      "R_MIPS_TLS_TPREL_LO16" true 0x0000ffff 0x0000ffff
  | .rMipsGlobDat => howto .rMipsGlobDat 0 2 32 false 0 .dont (some .bfdMipsElfGenericReloc)
      "R_MIPS_GLOB_DAT" false 0x0 0xffffffff
  -- elf_mips16_howto_table_rel
  | .rMips16_26 => howto .rMips16_26 2 2 26 false 0 .dont (some .bfdMipsElfGenericReloc)
      "R_MIPS16_26" true 0x3ffffff 0x3ffffff
  | .rMips16Gprel => howto .rMips16Gprel 0 2 16 false 0 .signed (some .mips16GprelReloc)
      "R_MIPS16_GPREL" true 0x0000ffff 0x0000ffff
  | .rMips16Got16 => howto .rMips16Got16 0 2 16 false 0 .dont (some .bfdMipsElfGot16Reloc)
      "R_MIPS16_GOT16" true 0x0000ffff 0x0000ffff
  | .rMips16Call16 => howto .rMips16Call16 0 2 16 false 0 .dont (some .bfdMipsElfGenericReloc)
      "R_MIPS16_CALL16" true 0x0000ffff 0x0000ffff
  | .rMips16Hi16 => howto .rMips16Hi16 16 2 16 false 0 .dont (some .bfdMipsElfHi16Reloc)
      "R_MIPS16_HI16" true 0x0000ffff 0x0000ffff
  | .rMips16Lo16 => howto .rMips16Lo16 0 2 16 false 0 .dont (some .bfdMipsElfLo16Reloc)
      "R_MIPS16_LO16" true 0x0000ffff 0x0000ffff
  | .rMips16TlsGd => howto .rMips16TlsGd 0 2 16 false 0 .signed (some .bfdMipsElfGenericReloc)
      "R_MIPS16_TLS_GD" true 0x0000ffff 0x0000ffff
  | .rMips16TlsLdm => howto .rMips16TlsLdm 0 2 16 false 0 .signed (some .bfdMipsElfGenericReloc)
      "R_MIPS16_TLS_LDM" true 0x0000ffff 0x0000ffff
  | .rMips16TlsDtprelHi16 => howto .rMips16TlsDtprelHi16 0 2 16 false 0 .signed (some .bfdMipsElfGenericReloc)
      "R_MIPS16_TLS_DTPREL_HI16" true 0x0000ffff 0x0000ffff
  | .rMips16TlsDtprelLo16 => howto .rMips16TlsDtprelLo16 0 2 16 false 0 .signed (some .bfdMipsElfGenericReloc)
      "R_MIPS16_TLS_DTPREL_LO16" true 0x0000ffff 0x0000ffff
  | .rMips16TlsGottprel => howto .rMips16TlsGottprel 0 2 16 false 0 .signed (some .bfdMipsElfGenericReloc)
      "R_MIPS16_TLS_GOTTPREL" true 0x0000ffff 0x0000ffff
  | .rMips16TlsTprelHi16 => howto .rMips16TlsTprelHi16 0 2 16 false 0 .signed (some .bfdMipsElfGenericReloc)
      "R_MIPS16_TLS_TPREL_HI16" true 0x0000ffff 0x0000ffff
  | .rMips16TlsTprelLo16 => howto .rMips16TlsTprelLo16 0 2 16 false 0 .signed (some .bfdMipsElfGenericReloc)
      "R_MIPS16_TLS_TPREL_LO16" true 0x0000ffff 0x0000ffff
  -- elf_micromips_howto_table_rel
  | .unused130 => emptyHowto .unused130
  | .unused131 => emptyHowto .unused131
  | .unused132 => emptyHowto .unused132
  | .rMicromips26S1 => howto .rMicromips26S1 1 2 26 false 0 .dont (some .bfdMipsElfGenericReloc)
      "R_MICROMIPS_26_S1" true 0x3ffffff 0x3ffffff
  | .rMicromipsHi16 => howto .rMicromipsHi16 12 2 20 false 0 .dont (some .bfdMipsElfGenericReloc)
      "R_MICROMIPS_HI16" true 0x000fffff 0x000fffff
  | .rMicromipsLo16 => howto .rMicromipsLo16 0 2 12 false 14 .dont (some .bfdMipsElfGenericReloc)
      "R_MICROMIPS_LO16" true 0x03ffc000 0x03ffc000
  | .rMicromipsGprel16 => howto .rMicromipsGprel16 0 2 16 false 0 .signed (some .bfdMipsElf32Gprel16Reloc)
      "R_MICROMIPS_GPREL16" true 0x0000ffff 0x0000ffff
  | .rMicromipsLiteral => howto .rMicromipsLiteral 0 2 16 false 0 .signed (some .bfdMipsElf32Gprel16Reloc)
      "R_MICROMIPS_LITERAL" true 0x0000ffff 0x0000ffff
  | .rMicromipsGot16 => howto .rMicromipsGot16 0 2 16 false 0 .signed (some .bfdMipsElfGot16Reloc)
      "R_MICROMIPS_GOT16" true 0x0000ffff 0x0000ffff
  | .rMicromipsPc7S1 => howto .rMicromipsPc7S1 1 1 7 true 0 .signed (some .bfdMipsElfGenericReloc)
      "R_MICROMIPS_PC7_S1" true 0x0000007f 0x0000007f
  | .rMicromipsPc10S1 => howto .rMicromipsPc10S1 1 1 10 true 0 .signed (some .bfdMipsElfGenericReloc)
      "R_MICROMIPS_PC10_S1" true 0x000003ff 0x000003ff
  | .rMicromipsPc16S1 => howto .rMicromipsPc16S1 2 2 16 true 0 .signed (some .bfdMipsElfGenericReloc)
      "R_MICROMIPS_PC16_S1" true 0x0000ffff 0x0000ffff
  | .rMicromipsCall16 => howto .rMicromipsCall16 0 2 16 false 0 .signed (some .bfdMipsElfGenericReloc)
      "R_MICROMIPS_CALL16" true 0x0000ffff 0x0000ffff
  | .unused143 => emptyHowto .unused143
  | .unused144 => emptyHowto .unused144
  | .rMicromipsGotDisp => howto .rMicromipsGotDisp 0 2 16 false 0 .signed (some .bfdMipsElfGenericReloc)
      "R_MICROMIPS_GOT_DISP" true 0x0000ffff 0x0000ffff
  | .rMicromipsGotPage => howto .rMicromipsGotPage 0 2 16 false 0 .signed (some .bfdMipsElfGenericReloc)
      "R_MICROMIPS_GOT_PAGE" true 0x0000ffff 0x0000ffff
  | .rMicromipsGotOfst => howto .rMicromipsGotOfst 0 2 16 false 0 .signed (some .bfdMipsElfGenericReloc)
      "R_MICROMIPS_GOT_OFST" true 0x0000ffff 0x0000ffff
  | .rMicromipsGotHi16 => howto .rMicromipsGotHi16 0 2 16 false 0 .dont (some .bfdMipsElfGenericReloc)
      "R_MICROMIPS_GOT_HI16" true 0x0000ffff 0x0000ffff
  | .rMicromipsGotLo16 => howto .rMicromipsGotLo16 0 2 16 false 0 .dont (some .bfdMipsElfGenericReloc)
      "R_MICROMIPS_GOT_LO16" true 0x0000ffff 0x0000ffff
  | .rMicromipsSub => howto .rMicromipsSub 0 4 64 false 0 .dont (some .bfdMipsElfGenericReloc)
      "R_MICROMIPS_SUB" true minusOne minusOne
  | .rMicromipsHigher => howto .rMicromipsHigher 0 2 16 false 0 .dont (some .bfdMipsElfGenericReloc)
      "R_MICROMIPS_HIGHER" true 0x0000ffff 0x0000ffff
  | .rMicromipsHighest => howto .rMicromipsHighest 0 2 16 false 0 .dont (some .bfdMipsElfGenericReloc)
      "R_MICROMIPS_HIGHEST" true 0x0000ffff 0x0000ffff
  | .rMicromipsCallHi16 => howto .rMicromipsCallHi16 0 2 16 false 0 .dont (some .bfdMipsElfGenericReloc)
      "R_MICROMIPS_CALL_HI16" true 0x0000ffff 0x0000ffff
  | .rMicromipsCallLo16 => howto .rMicromipsCallLo16 0 2 16 false 0 .dont (some .bfdMipsElfGenericReloc)
      "R_MICROMIPS_CALL_LO16" true 0x0000ffff 0x0000ffff
  | .rMicromipsScnDisp => howto .rMicromipsScnDisp 0 2 32 false 0 .dont (some .bfdMipsElfGenericReloc)
      "R_MICROMIPS_SCN_DISP" true 0xffffffff 0xffffffff
  | .rMicromipsJalr => howto .rMicromipsJalr 0 2 32 false 0 .dont (some .bfdMipsElfGenericReloc)
      "R_MICROMIPS_JALR" false 0x00000000 0x00000000
  | .rMicromipsHi0Lo16 => howto .rMicromipsHi0Lo16 0 2 16 false 0 .dont (some .bfdMipsElfGenericReloc)
      "R_MICROMIPS_HI0_LO16" true 0x0000ffff 0x0000ffff
  | .unused158 => emptyHowto .unused158
  | .unused159 => emptyHowto .unused159
  | .unused160 => emptyHowto .unused160
  | .unused161 => emptyHowto .unused161
  | .rMicromipsTlsGd => howto .rMicromipsTlsGd 0 2 16 false 0 .signed (some .bfdMipsElfGenericReloc)
      "R_MICROMIPS_TLS_GD" true 0x0000ffff 0x0000ffff
  | .rMicromipsTlsLdm => howto .rMicromipsTlsLdm 0 2 16 false 0 .signed (some .bfdMipsElfGenericReloc)
      "R_MICROMIPS_TLS_LDM" true 0x0000ffff 0x0000ffff
  | .rMicromipsTlsDtprelHi16 => howto .rMicromipsTlsDtprelHi16 0 2 16 false 0 .signed (some .bfdMipsElfGenericReloc)
      "R_MICROMIPS_TLS_DTPREL_HI16" true 0x0000ffff 0x0000ffff
  | .rMicromipsTlsDtprelLo16 => howto .rMicromipsTlsDtprelLo16 0 2 16 false 0 .signed (some .bfdMipsElfGenericReloc)
      "R_MICROMIPS_TLS_DTPREL_LO16" true 0x0000ffff 0x0000ffff
  | .rMicromipsTlsGottprel => howto .rMicromipsTlsGottprel 0 2 16 false 0 .signed (some .bfdMipsElfGenericReloc)
      "R_MICROMIPS_TLS_GOTTPREL" true 0x0000ffff 0x0000ffff
  | .unused167 => emptyHowto .unused167
  | .unused168 => emptyHowto .unused168
  | .rMicromipsTlsTprelHi16 => howto .rMicromipsTlsTprelHi16 0 2 16 false 0 .signed (some .bfdMipsElfGenericReloc)
      "R_MICROMIPS_TLS_TPREL_HI16" true 0x0000ffff 0x0000ffff
  | .rMicromipsTlsTprelLo16 => howto .rMicromipsTlsTprelLo16 0 2 16 false 0 .signed (some .bfdMipsElfGenericReloc)
      "R_MICROMIPS_TLS_TPREL_LO16" true 0x0000ffff 0x0000ffff
  | .unused171 => emptyHowto .unused171
  | .rMicromipsGprel7S2 => howto .rMicromipsGprel7S2 2 1 7 false 0 .signed (some .bfdMipsElf32Gprel16Reloc)
      "R_MICROMIPS_GPREL7_S2" true 0x0000007f 0x0000007f
  | .rMicromipsPc23S2 => howto .rMicromipsPc23S2 2 2 23 true 0 .signed (some .bfdMipsElfGenericReloc)
      "R_MICROMIPS_PC23_S2" true 0x007fffff 0x007fffff
  -- the howtos that stand outside the tables
  | .rMipsGnuVtinherit => howto .rMipsGnuVtinherit 0 2 0 false 0 .dont none
      "R_MIPS_GNU_VTINHERIT" false 0 0
  | .rMipsGnuVtentry => howto .rMipsGnuVtentry 0 2 0 false 0 .dont (some .bfdElfRelVtableRelocFn)
      "R_MIPS_GNU_VTENTRY" false 0 0
  | .rMipsGnuRel16S2 => howto .rMipsGnuRel16S2 2 2 16 true 0 .signed (some .bfdMipsElfGenericReloc)
      "R_MIPS_GNU_REL16_S2" true 0xffff 0xffff
  | .rMipsPc32 => howto .rMipsPc32 0 2 32 true 0 .signed (some .bfdMipsElfGenericReloc)
      "R_MIPS_PC32" true 0xffffffff 0xffffffff
  | .rMipsCopy => howto .rMipsCopy 0 0 0 false 0 .bitfield (some .bfdElfGenericReloc)
      "R_MIPS_COPY" false 0x0 0x0
  | .rMipsJumpSlot => howto .rMipsJumpSlot 0 2 32 false 0 .bitfield (some .bfdElfGenericReloc)
      "R_MIPS_JUMP_SLOT" false 0x0 0x0

/-- A howto of a 32-bit word whose masks both cover exactly the field it declares. -/
structure RelocHowto.WordField (h : RelocHowto) : Prop where
  size : h.size = 2
  fits : h.bitpos + h.bitsize ≤ 32
  src : h.srcMask = BitField.mask 64 h.bitpos h.bitsize
  dst : h.dstMask = BitField.mask 64 h.bitpos h.bitsize

instance (h : RelocHowto) : Decidable h.WordField :=
  decidable_of_iff (h.size = 2 ∧ h.bitpos + h.bitsize ≤ 32 ∧
      h.srcMask = BitField.mask 64 h.bitpos h.bitsize ∧ h.dstMask = BitField.mask 64 h.bitpos h.bitsize)
    ⟨fun ⟨size, fits, src, dst⟩ => ⟨size, fits, src, dst⟩, fun ⟨size, fits, src, dst⟩ => ⟨size, fits, src, dst⟩⟩

end Openisa.Bfd
