import Mathlib.Data.BitVec

/-! A few integer instructions of the MIPS32 set and their 32-bit encodings. -/

namespace Openisa.Library.Mips

abbrev Word := BitVec 32
abbrev Half := BitVec 16
abbrev RegNumber := BitVec 5

inductive Instr where
  | lui (rt : RegNumber) (imm : Half)
  | addiu (rt rs : RegNumber) (imm : Half)
  | ori (rt rs : RegNumber) (imm : Half)
  | lw (rt base : RegNumber) (offset : Half)
  | j (index : BitVec 26)
  | sll (rd rt sa : RegNumber)
  | srl (rd rt sa : RegNumber)
  | addu (rd rs rt : RegNumber)
  | subu (rd rs rt : RegNumber)
  | jr (rs : RegNumber)
  | jalr (rd rs : RegNumber)
  | bgezal (rs : RegNumber) (offset : Half)
  | beq (rs rt : RegNumber) (offset : Half)
  deriving DecidableEq, Repr

section Encoding

def immediate (op : BitVec 6) (rs rt : RegNumber) (imm : Half) : Word := op ++ rs ++ rt ++ imm

def registers (rs rt rd sa : RegNumber) (funct : BitVec 6) : Word := (0 : BitVec 6) ++ rs ++ rt ++ rd ++ sa ++ funct

def jump (op : BitVec 6) (index : BitVec 26) : Word := op ++ index

def Instr.encode : Instr → Word
  | .lui rt imm => immediate 0x0f 0 rt imm
  | .addiu rt rs imm => immediate 0x09 rs rt imm
  | .ori rt rs imm => immediate 0x0d rs rt imm
  | .lw rt base offset => immediate 0x23 base rt offset
  | .j index => jump 0x02 index
  | .sll rd rt sa => registers 0 rt rd sa 0x00
  | .srl rd rt sa => registers 0 rt rd sa 0x02
  | .addu rd rs rt => registers rs rt rd 0 0x21
  | .subu rd rs rt => registers rs rt rd 0 0x23
  | .jr rs => registers rs 0 0 0 0x08
  | .jalr rd rs => registers rs 0 rd 0 0x09
  | .bgezal rs offset => immediate 0x01 rs 0x11 offset
  | .beq rs rt offset => immediate 0x04 rs rt offset

variable (w : Word)

def opField : BitVec 6 := w.extractLsb' 26 6
def rsField : RegNumber := w.extractLsb' 21 5
def rtField : RegNumber := w.extractLsb' 16 5
def rdField : RegNumber := w.extractLsb' 11 5
def saField : RegNumber := w.extractLsb' 6 5
def functField : BitVec 6 := w.extractLsb' 0 6
def immField : Half := w.extractLsb' 0 16
def indexField : BitVec 26 := w.extractLsb' 0 26

/-- The instructions that the `funct` field tells apart. -/
def decodeRegisters : Option Instr :=
  let funct := functField w
  if funct = 0x00 then some (.sll (rdField w) (rtField w) (saField w))
  else if funct = 0x02 then some (.srl (rdField w) (rtField w) (saField w))
  else if funct = 0x21 then some (.addu (rdField w) (rsField w) (rtField w))
  else if funct = 0x23 then some (.subu (rdField w) (rsField w) (rtField w))
  else if funct = 0x08 then some (.jr (rsField w))
  else if funct = 0x09 then some (.jalr (rdField w) (rsField w))
  else none

def decode : Option Instr :=
  let op := opField w
  if op = 0x00 then decodeRegisters w
  else if op = 0x0f then some (.lui (rtField w) (immField w))
  else if op = 0x09 then some (.addiu (rtField w) (rsField w) (immField w))
  else if op = 0x0d then some (.ori (rtField w) (rsField w) (immField w))
  else if op = 0x23 then some (.lw (rtField w) (rsField w) (immField w))
  else if op = 0x02 then some (.j (indexField w))
  else if op = 0x01 ∧ rtField w = 0x11 then some (.bgezal (rsField w) (immField w))
  else if op = 0x04 then some (.beq (rsField w) (rtField w) (immField w))
  else none

end Encoding

section Fields

variable (op : BitVec 6) (rs rt rd sa : RegNumber) (imm : Half) (funct : BitVec 6) (index : BitVec 26)

theorem extract_above {m n : Nat} (x : BitVec m) (y : BitVec n) (start len : Nat) :
    (x ++ y).extractLsb' (n + start) len = x.extractLsb' start len := by
  rw [BitVec.extractLsb'_append_eq_of_le (Nat.le_add_right n start), Nat.add_sub_cancel_left]

@[simp] theorem opField_immediate : opField (immediate op rs rt imm) = op :=
  (extract_above (op ++ rs ++ rt) imm 10 6).trans
    ((extract_above (op ++ rs) rt 5 6).trans BitVec.extractLsb'_append_eq_left)

@[simp] theorem rsField_immediate : rsField (immediate op rs rt imm) = rs :=
  (extract_above (op ++ rs ++ rt) imm 5 5).trans
    ((extract_above (op ++ rs) rt 0 5).trans BitVec.extractLsb'_append_eq_right)

@[simp] theorem rtField_immediate : rtField (immediate op rs rt imm) = rt :=
  (extract_above (op ++ rs ++ rt) imm 0 5).trans BitVec.extractLsb'_append_eq_right

@[simp] theorem immField_immediate : immField (immediate op rs rt imm) = imm :=
  BitVec.extractLsb'_append_eq_right

theorem registers_above (start len : Nat) :
    (registers rs rt rd sa funct).extractLsb' (11 + start) len =
      ((0 : BitVec 6) ++ rs ++ rt ++ rd).extractLsb' start len := by
  have inner : 11 + start = 6 + (5 + start) := by omega
  rw [inner]
  exact (extract_above ((0 : BitVec 6) ++ rs ++ rt ++ rd ++ sa) funct (5 + start) len).trans
    (extract_above ((0 : BitVec 6) ++ rs ++ rt ++ rd) sa start len)

@[simp] theorem opField_registers : opField (registers rs rt rd sa funct) = 0 :=
  (registers_above rs rt rd sa funct 15 6).trans
    ((extract_above ((0 : BitVec 6) ++ rs ++ rt) rd 10 6).trans
      ((extract_above ((0 : BitVec 6) ++ rs) rt 5 6).trans BitVec.extractLsb'_append_eq_left))

@[simp] theorem rsField_registers : rsField (registers rs rt rd sa funct) = rs :=
  (registers_above rs rt rd sa funct 10 5).trans
    ((extract_above ((0 : BitVec 6) ++ rs ++ rt) rd 5 5).trans
      ((extract_above ((0 : BitVec 6) ++ rs) rt 0 5).trans BitVec.extractLsb'_append_eq_right))

@[simp] theorem rtField_registers : rtField (registers rs rt rd sa funct) = rt :=
  (registers_above rs rt rd sa funct 5 5).trans
    ((extract_above ((0 : BitVec 6) ++ rs ++ rt) rd 0 5).trans BitVec.extractLsb'_append_eq_right)

@[simp] theorem rdField_registers : rdField (registers rs rt rd sa funct) = rd :=
  (registers_above rs rt rd sa funct 0 5).trans BitVec.extractLsb'_append_eq_right

@[simp] theorem saField_registers : saField (registers rs rt rd sa funct) = sa :=
  (extract_above ((0 : BitVec 6) ++ rs ++ rt ++ rd ++ sa) funct 0 5).trans BitVec.extractLsb'_append_eq_right

@[simp] theorem functField_registers : functField (registers rs rt rd sa funct) = funct :=
  BitVec.extractLsb'_append_eq_right

@[simp] theorem opField_jump : opField (jump op index) = op :=
  BitVec.extractLsb'_append_eq_left

@[simp] theorem indexField_jump : indexField (jump op index) = index :=
  BitVec.extractLsb'_append_eq_right

theorem append_or {m n : Nat} (x : BitVec m) (y : BitVec n) : x ++ y = (x ++ 0#n) ||| y.setWidth (m + n) := by
  apply BitVec.eq_of_getLsbD_eq
  intro i bound
  rw [BitVec.getLsbD_or, BitVec.getLsbD_append, BitVec.getLsbD_append, BitVec.getLsbD_setWidth]
  by_cases low : i < n
  · simp [low, bound]
  · simp [low, BitVec.getLsbD_of_ge y i (by omega)]

theorem immediate_or : immediate op rs rt imm = immediate op rs rt 0 ||| imm.setWidth 32 :=
  append_or (op ++ rs ++ rt) imm

theorem jump_or : jump op index = jump op 0 ||| index.setWidth 32 :=
  append_or op index

end Fields

@[simp] theorem decode_encode (i : Instr) : decode i.encode = some i := by
  cases i <;> simp [decode, decodeRegisters, Instr.encode]

section Halves

def highHalf (value : Word) : Half := (value + 0x8000).extractLsb' 16 16

def lowHalf (value : Word) : Half := value.extractLsb' 0 16

theorem signExtend_low (value : Word) :
    ((lowHalf value).signExtend 32).toNat =
      if value.toNat % 65536 < 32768 then value.toNat % 65536 else value.toNat % 65536 + 4294901760 := by
  have low : (lowHalf value).toNat = value.toNat % 65536 := by simp [lowHalf, BitVec.extractLsb'_toNat]
  rw [BitVec.toNat_signExtend, BitVec.msb_eq_decide, low]
  by_cases half : value.toNat % 65536 < 32768
  · have small : ¬32768 ≤ value.toNat % 65536 := by omega
    simp [half, small, low]
    omega
  · have big : 32768 ≤ value.toNat % 65536 := by omega
    simp [half, big, low]
    omega

theorem halves_add (value : Word) : highHalf value ++ (0 : Half) + (lowHalf value).signExtend 32 = value := by
  have bound := value.isLt
  apply BitVec.eq_of_toNat_eq
  rw [BitVec.toNat_add, signExtend_low, BitVec.toNat_append]
  simp [highHalf, BitVec.extractLsb'_toNat, Nat.shiftLeft_eq, Nat.shiftRight_eq_div_pow]
  split <;> omega

end Halves

end Openisa.Library.Mips
