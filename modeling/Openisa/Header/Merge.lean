import Openisa.Header.Flags

/-! Merging the header of an input file into that of the output. -/

namespace Openisa.Header

structure ArchInfo where
  arch : Nat
  mach : BfdMach
  theDefault : Bool
  printableName : String
  deriving DecidableEq, Repr

structure FileSection where
  name : String
  size : Nat
  isCommon : Bool
  deriving DecidableEq, Repr

structure HeaderBfd where
  name : String
  target : String
  isMipsElf : Bool
  dynamic : Bool
  n32 : Bool
  abi64 : Bool
  sections : List FileSection
  eFlags : Flagword
  eiClass : BitVec 8
  elfFlagsInit : Bool
  archInfo : ArchInfo
  deriving DecidableEq, Repr

def elfMipsAbiName (abfd : HeaderBfd) : String :=
  let abi := abfd.eFlags &&& efMipsAbi
  if abi = 0 then
    if abfd.n32 then "N32" else if abfd.abi64 then "64" else "none"
  else if abi = eMipsAbiO32 then "O32"
  else if abi = eMipsAbiO64 then "O64"
  else if abi = eMipsAbiEabi32 then "EABI32"
  else if abi = eMipsAbiEabi64 then "EABI64"
  else "unknown abi"

inductive MergeMessage where
  | endianness (ibfd : String)
  | incompatibleAbi (ibfd : String)
  | abicalls (ibfd : String)
  | bits32With64 (ibfd : String)
  | modules (ibfd new previous : String)
  | abiMismatch (ibfd new previous : String)
  | aseMismatch (ibfd new previous : String)
  | eFlags (ibfd : String) (new old : Flagword)
  deriving DecidableEq, Repr

def MergeMessage.format : MergeMessage → String
  | .endianness _ => "%B: endianness incompatible with that of the selected emulation"
  | .incompatibleAbi _ => "%B: ABI is incompatible with that of the selected emulation"
  | .abicalls _ => "%B: warning: linking abicalls files with non-abicalls files"
  | .bits32With64 _ => "%B: linking 32-bit code with 64-bit code"
  | .modules _ _ _ => "%B: linking %s module with previous %s modules"
  | .abiMismatch _ _ _ => "%B: ABI mismatch: linking %s module with previous %s modules"
  | .aseMismatch _ _ _ => "%B: ASE mismatch: linking %s module with previous %s modules"
  | .eFlags _ _ _ => "%B: uses different e_flags (0x%lx) fields than previous modules (0x%lx)"

/-- The variables of `_bfd_mips_elf_merge_private_bfd_data` while it compares: the output file and the
two words with what has been compared taken out. -/
structure Comparison where
  obfd : HeaderBfd
  newFlags : Flagword
  oldFlags : Flagword
  ok : Bool
  messages : List MergeMessage
  deriving DecidableEq, Repr

namespace Comparison

def report (c : Comparison) (message : MergeMessage) (ok : Bool) : Comparison :=
  { c with messages := c.messages ++ [message], ok := ok }

def setFlags (c : Comparison) (flags : Flagword) : Comparison := { c with obfd := { c.obfd with eFlags := flags } }

def strip (c : Comparison) (mask : Flagword) : Comparison :=
  { c with newFlags := c.newFlags &&& ~~~mask, oldFlags := c.oldFlags &&& ~~~mask }

def abicalls (ibfd : HeaderBfd) (c : Comparison) : Comparison :=
  let both := efMipsPic ||| efMipsCpic
  let warned :=
    if decide (c.newFlags &&& both ≠ 0) ≠ decide (c.oldFlags &&& both ≠ 0) then
      c.report (.abicalls ibfd.name) true
    else c
  let called :=
    if c.newFlags &&& both ≠ 0 then warned.setFlags (warned.obfd.eFlags ||| efMipsCpic) else warned
  let cleared :=
    if c.newFlags &&& efMipsPic = 0 then called.setFlags (called.obfd.eFlags &&& ~~~efMipsPic) else called
  cleared.strip both

/-- The ABI alone is why the input counts as 32-bit code, and the output has none. -/
def abiCopiedP (c : Comparison) : Prop :=
  c.oldFlags &&& efMipsAbi = 0 ∧ mips32bitFlagsP c.newFlags ∧ ¬mips32bitFlagsP (c.newFlags &&& ~~~efMipsAbi)

instance (c : Comparison) : Decidable c.abiCopiedP := inferInstanceAs (Decidable (_ ∧ _ ∧ _))

def adoptIsa (ibfd : HeaderBfd) (c : Comparison) : Comparison :=
  let copied : Comparison :=
    { c with
      obfd := { c.obfd with
        archInfo := ibfd.archInfo
        eFlags := c.obfd.eFlags &&& ~~~(efMipsArch ||| efMipsMach) |||
          c.newFlags &&& (efMipsArch ||| efMipsMach ||| efMips32bitmode) } }
  if c.abiCopiedP then
    copied.setFlags (copied.obfd.eFlags ||| c.newFlags &&& efMipsAbi)
  else copied

def isas (ibfd : HeaderBfd) (c : Comparison) : Comparison :=
  let compared :=
    if mips32bitFlagsP c.oldFlags ≠ mips32bitFlagsP c.newFlags then c.report (.bits32With64 ibfd.name) false
    else if !mipsMachExtendsP ibfd.archInfo.mach c.obfd.archInfo.mach then
      if mipsMachExtendsP c.obfd.archInfo.mach ibfd.archInfo.mach then c.adoptIsa ibfd
      else c.report (.modules ibfd.name ibfd.archInfo.printableName c.obfd.archInfo.printableName) false
    else c
  compared.strip (efMipsArch ||| efMipsMach ||| efMips32bitmode)

def abis (ibfd : HeaderBfd) (c : Comparison) : Comparison :=
  if c.newFlags &&& efMipsAbi ≠ c.oldFlags &&& efMipsAbi ∨ ibfd.eiClass ≠ c.obfd.eiClass then
    let compared :=
      if (c.newFlags &&& efMipsAbi ≠ 0 ∧ c.oldFlags &&& efMipsAbi ≠ 0) ∨ ibfd.eiClass ≠ c.obfd.eiClass then
        c.report (.abiMismatch ibfd.name (elfMipsAbiName ibfd) (elfMipsAbiName c.obfd)) false
      else c
    compared.strip efMipsAbi
  else c

def ases (ibfd : HeaderBfd) (c : Comparison) : Comparison :=
  if c.newFlags &&& efMipsArchAse ≠ c.oldFlags &&& efMipsArchAse then
    let microMis := c.oldFlags &&& efMipsArchAseM16 ≠ 0 ∧ c.newFlags &&& efMipsArchAseMicromips ≠ 0
    let m16Mis := c.oldFlags &&& efMipsArchAseMicromips ≠ 0 ∧ c.newFlags &&& efMipsArchAseM16 ≠ 0
    let compared :=
      if m16Mis ∨ microMis then
        c.report (.aseMismatch ibfd.name (if m16Mis then "MIPS16" else "microMIPS")
          (if m16Mis then "microMIPS" else "MIPS16")) false
      else c
    (compared.setFlags (compared.obfd.eFlags ||| c.newFlags &&& efMipsArchAse)).strip efMipsArchAse
  else c

def others (ibfd : HeaderBfd) (c : Comparison) : Comparison :=
  if c.newFlags ≠ c.oldFlags then c.report (.eFlags ibfd.name c.newFlags c.oldFlags) false else c

end Comparison

def FileSection.counts (sec : FileSection) : Bool :=
  !sec.isCommon && sec.name ≠ ".reginfo" && sec.name ≠ ".mdebug"
    && (sec.size ≠ 0 || (sec.name ≠ ".text" && sec.name ≠ ".data" && sec.name ≠ ".bss"))

def nullInputBfd (ibfd : HeaderBfd) : Bool := !ibfd.sections.any FileSection.counts

def adoptFirst (ibfd obfd : HeaderBfd) : HeaderBfd :=
  let initialised : HeaderBfd :=
    { obfd with elfFlagsInit := true, eFlags := ibfd.eFlags, eiClass := ibfd.eiClass }
  if obfd.archInfo.arch = ibfd.archInfo.arch
      ∧ (obfd.archInfo.theDefault ∨ mipsMachExtendsP obfd.archInfo.mach ibfd.archInfo.mach) then
    { initialised with archInfo := ibfd.archInfo }
  else initialised

/-- The flags that never matter are taken out of both words, and a shared object counts as abicalls. -/
def comparedFlags (ibfd obfd : HeaderBfd) : Flagword × Flagword :=
  let ignored := efMipsNoreorder ||| efMipsXgot ||| efMipsUcode
  let new := ibfd.eFlags &&& ~~~ignored
  (if ibfd.dynamic then new ||| (efMipsPic ||| efMipsCpic) else new, obfd.eFlags &&& ~~~ignored)

def compareFlags (ibfd obfd : HeaderBfd) : Comparison :=
  let (new, old) := comparedFlags ibfd obfd
  let start : Comparison := ⟨obfd, new, old, true, []⟩
  ((((start.abicalls ibfd).isas ibfd).abis ibfd).ases ibfd).others ibfd

/-- `_bfd_mips_elf_merge_private_bfd_data`: its answer, the output file and the messages. The check of
the byte order is a function of the library. -/
def bfdMipsElfMergePrivateBfdData (verifyEndianMatch : HeaderBfd → HeaderBfd → Bool) (ibfd obfd : HeaderBfd) :
    Bool × HeaderBfd × List MergeMessage :=
  if !verifyEndianMatch ibfd obfd then (false, obfd, [.endianness ibfd.name])
  else if !ibfd.isMipsElf || !obfd.isMipsElf then (true, obfd, [])
  else if ibfd.target ≠ obfd.target then (false, obfd, [.incompatibleAbi ibfd.name])
  else
    let reordered := { obfd with eFlags := obfd.eFlags ||| ibfd.eFlags &&& efMipsNoreorder }
    if !reordered.elfFlagsInit then (true, adoptFirst ibfd reordered, [])
    else
      let (new, old) := comparedFlags ibfd reordered
      if new = old then (true, reordered, [])
      else if nullInputBfd ibfd then (true, reordered, [])
      else
        let c := compareFlags ibfd reordered
        (c.ok, c.obfd, c.messages)

end Openisa.Header
