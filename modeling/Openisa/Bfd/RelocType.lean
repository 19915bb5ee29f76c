/-! Relocation types of the MIPS, MIPS16 and microMIPS families, in the order of the howto tables,
and the predicates that the linker asks about them. -/

namespace Openisa.Bfd

inductive MipsReloc where
  | rMipsNone | rMips16 | rMips32 | rMipsRel32 | rMips26 | rMipsHi16 | rMipsLo16 | rMipsGprel16
  | rMipsLiteral | rMipsGot16 | rMipsPc16 | rMipsCall16 | rMipsGprel32 | unused13 | unused14
  | unused15 | rMipsShift5 | rMipsShift6 | rMips64 | rMipsGotDisp | rMipsGotPage | rMipsGotOfst
  | rMipsGotHi16 | rMipsGotLo16 | rMipsSub | rMipsInsertA | rMipsInsertB | rMipsDelete
  | rMipsHigher | rMipsHighest | rMipsCallHi16 | rMipsCallLo16 | rMipsScnDisp | rMipsRel16
  | rMipsAddImmediate | rMipsPjump | rMipsRelgot | rMipsJalr | rMipsTlsDtpmod32
  | rMipsTlsDtprel32 | rMipsTlsDtpmod64 | rMipsTlsDtprel64 | rMipsTlsGd | rMipsTlsLdm
  | rMipsTlsDtprelHi16 | rMipsTlsDtprelLo16 | rMipsTlsGottprel | rMipsTlsTprel32
  | rMipsTlsTprel64 | rMipsTlsTprelHi16 | rMipsTlsTprelLo16 | rMipsGlobDat
  | rMips16_26 | rMips16Gprel | rMips16Got16 | rMips16Call16 | rMips16Hi16 | rMips16Lo16
  | rMips16TlsGd | rMips16TlsLdm | rMips16TlsDtprelHi16 | rMips16TlsDtprelLo16
  | rMips16TlsGottprel | rMips16TlsTprelHi16 | rMips16TlsTprelLo16
  | unused130 | unused131 | unused132 | rMicromips26S1 | rMicromipsHi16 | rMicromipsLo16
  | rMicromipsGprel16 | rMicromipsLiteral | rMicromipsGot16 | rMicromipsPc7S1 | rMicromipsPc10S1
  | rMicromipsPc16S1 | rMicromipsCall16 | unused143 | unused144 | rMicromipsGotDisp
  | rMicromipsGotPage | rMicromipsGotOfst | rMicromipsGotHi16 | rMicromipsGotLo16 | rMicromipsSub
  | rMicromipsHigher | rMicromipsHighest | rMicromipsCallHi16 | rMicromipsCallLo16
  | rMicromipsScnDisp | rMicromipsJalr | rMicromipsHi0Lo16 | unused158 | unused159 | unused160
  | unused161 | rMicromipsTlsGd | rMicromipsTlsLdm | rMicromipsTlsDtprelHi16
  | rMicromipsTlsDtprelLo16 | rMicromipsTlsGottprel | unused167 | unused168
  | rMicromipsTlsTprelHi16 | rMicromipsTlsTprelLo16 | unused171 | rMicromipsGprel7S2
  | rMicromipsPc23S2
  | rMipsGnuVtinherit | rMipsGnuVtentry | rMipsGnuRel16S2 | rMipsPc32 | rMipsCopy | rMipsJumpSlot
  deriving DecidableEq, Repr

namespace MipsReloc

def mips16RelocP : MipsReloc → Bool
  | .rMips16_26 | .rMips16Gprel | .rMips16Got16 | .rMips16Call16 | .rMips16Hi16
  | .rMips16Lo16 | .rMips16TlsGd | .rMips16TlsLdm | .rMips16TlsDtprelHi16
  | .rMips16TlsDtprelLo16 | .rMips16TlsGottprel | .rMips16TlsTprelHi16
  | .rMips16TlsTprelLo16 => true
  | _ => false

-- the range from `R_MICROMIPS_min` to `R_MICROMIPS_max`, its unused numbers included
def micromipsRelocP : MipsReloc → Bool
  | .unused130 | .unused131 | .unused132 | .rMicromips26S1 | .rMicromipsHi16
  | .rMicromipsLo16 | .rMicromipsGprel16 | .rMicromipsLiteral | .rMicromipsGot16
  | .rMicromipsPc7S1 | .rMicromipsPc10S1 | .rMicromipsPc16S1 | .rMicromipsCall16
  | .unused143 | .unused144 | .rMicromipsGotDisp | .rMicromipsGotPage | .rMicromipsGotOfst
  | .rMicromipsGotHi16 | .rMicromipsGotLo16 | .rMicromipsSub | .rMicromipsHigher
  | .rMicromipsHighest | .rMicromipsCallHi16 | .rMicromipsCallLo16 | .rMicromipsScnDisp
  | .rMicromipsJalr | .rMicromipsHi0Lo16 | .unused158 | .unused159 | .unused160
  | .unused161 | .rMicromipsTlsGd | .rMicromipsTlsLdm | .rMicromipsTlsDtprelHi16
  | .rMicromipsTlsDtprelLo16 | .rMicromipsTlsGottprel | .unused167 | .unused168
  | .rMicromipsTlsTprelHi16 | .rMicromipsTlsTprelLo16 | .unused171 | .rMicromipsGprel7S2
  | .rMicromipsPc23S2 => true
  | _ => false

/-- The microMIPS half-word swap is switched off in this linker. -/
def micromipsRelocShuffleP (_ : MipsReloc) : Bool := false

def got16RelocP : MipsReloc → Bool
  | .rMipsGot16 | .rMips16Got16 | .rMicromipsGot16 => true
  | _ => false

def call16RelocP : MipsReloc → Bool
  | .rMipsCall16 | .rMips16Call16 | .rMicromipsCall16 => true
  | _ => false

def gotPageRelocP : MipsReloc → Bool
  | .rMipsGotPage | .rMicromipsGotPage => true
  | _ => false

def callHi16RelocP : MipsReloc → Bool
  | .rMipsCallHi16 | .rMicromipsCallHi16 => true
  | _ => false

def callLo16RelocP : MipsReloc → Bool
  | .rMipsCallLo16 | .rMicromipsCallLo16 => true
  | _ => false

def hi16RelocP : MipsReloc → Bool
  | .rMipsHi16 | .rMips16Hi16 | .rMicromipsHi16 => true
  | _ => false

def lo16RelocP : MipsReloc → Bool
  | .rMipsLo16 | .rMips16Lo16 | .rMicromipsLo16 => true
  | _ => false

def jalRelocP : MipsReloc → Bool
  | .rMips26 | .rMips16_26 | .rMicromips26S1 => true
  | _ => false

def micromipsBranchRelocP : MipsReloc → Bool
  | .rMicromips26S1 | .rMicromipsPc16S1 | .rMicromipsPc10S1 | .rMicromipsPc7S1 => true
  | _ => false

def tlsLdmRelocP : MipsReloc → Bool
  | .rMipsTlsLdm | .rMips16TlsLdm | .rMicromipsTlsLdm => true
  | _ => false

def tlsGottprelRelocP : MipsReloc → Bool
  | .rMipsTlsGottprel | .rMips16TlsGottprel | .rMicromipsTlsGottprel => true
  | _ => false

end MipsReloc

end Openisa.Bfd
