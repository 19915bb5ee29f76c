import Openisa.Library.SaveArea

/-! The instructions of the context switch, over registers, words of memory and the next pc. -/

namespace Openisa.Newlib

abbrev Word := BitVec 32

abbrev WordNumber := BitVec 30

abbrev RegNumber := BitVec 5

inductive Reg where
  | gpr (number : RegNumber)
  | fpr (number : RegNumber)
  deriving DecidableEq, Repr

structure State where
  gpr : RegNumber → Word
  fpr : RegNumber → Word
  mem : WordNumber → Word
  pc : Word

inductive Instr where
  | stw (rt : RegNumber) (offset : Nat) (base : RegNumber)
  | ldw (rt : RegNumber) (offset : Nat) (base : RegNumber)
  | swc1 (ft : RegNumber) (offset : Nat) (base : RegNumber)
  | lwc1 (ft : RegNumber) (offset : Nat) (base : RegNumber)
  | add (rd rs rt : RegNumber)
  | ori (rt rs : RegNumber) (imm : Word)
  -- `skip` is the number of instructions up to the label
  | jne (rs rt : RegNumber) (skip : Nat)
  | jumpr (rs : RegNumber)
  deriving DecidableEq, Repr

namespace State

def reg (s : State) : Reg → Word
  | .gpr r => if r = 0 then 0 else s.gpr r
  | .fpr r => s.fpr r

def setReg (s : State) (r : Reg) (value : Word) : State :=
  match r with
  | .gpr r => { s with gpr := fun i => if i = r ∧ r ≠ 0 then value else s.gpr i }
  | .fpr r => { s with fpr := fun i => if i = r then value else s.fpr i }

def setMem (s : State) (mem : WordNumber → Word) : State := { s with mem := mem }

def setPc (s : State) (pc : Word) : State := { s with pc := pc }

@[simp] theorem setMem_mem (s : State) (mem : WordNumber → Word) : (s.setMem mem).mem = mem := rfl
@[simp] theorem setMem_reg (s : State) (mem : WordNumber → Word) : (s.setMem mem).reg = s.reg := by
  funext r
  cases r <;> rfl
@[simp] theorem setPc_mem (s : State) (pc : Word) : (s.setPc pc).mem = s.mem := rfl
@[simp] theorem setPc_reg (s : State) (pc : Word) : (s.setPc pc).reg = s.reg := by
  funext r
  cases r <;> rfl
@[simp] theorem setReg_mem (s : State) (r : Reg) (value : Word) : (s.setReg r value).mem = s.mem := by
  cases r <;> rfl

@[simp] theorem reg_zero (s : State) : s.reg (.gpr 0) = 0 := rfl

theorem setReg_reg (s : State) (r : Reg) (value : Word) (written : r ≠ .gpr 0) :
    (s.setReg r value).reg = Function.update s.reg r value := by
  funext i
  by_cases same : i = r
  · subst same
    rw [Function.update_self]
    cases i with
    | gpr number =>
      have nonzero : number ≠ 0 := fun zero => written (by rw [zero])
      simp only [setReg, reg]
      rw [if_neg nonzero, if_pos ⟨trivial, nonzero⟩]
    | fpr number => simp [setReg, reg]
  · rw [Function.update_of_ne same]
    cases i <;> cases r <;> simp [setReg, reg] <;> grind

end State

def wordNumber (address : Word) : WordNumber := address.extractLsb' 2 30

def aligned (address : Word) : Bool := address.extractLsb' 0 2 == 0

def effectiveAddress (s : State) (base : RegNumber) (offset : Nat) : Word :=
  s.reg (.gpr base) + BitVec.ofNat 32 offset

def storeWord (s : State) (address value : Word) : Option State :=
  if aligned address then some (s.setMem (Function.update s.mem (wordNumber address) value)) else none

def loadWord (s : State) (r : Reg) (address : Word) : Option State :=
  if aligned address then some (s.setReg r (s.mem (wordNumber address))) else none

/-- Runs a function up to its return, with so many instructions to be skipped first; there are no branch
delay slots. None where an access traps or the end is run past. -/
def exec : List Instr → Nat → State → Option State
  | [], _, _ => none
  | _ :: rest, skip + 1, s => exec rest skip s
  | .stw rt offset base :: rest, 0, s =>
      (storeWord s (effectiveAddress s base offset) (s.reg (.gpr rt))).bind (exec rest 0)
  | .ldw rt offset base :: rest, 0, s =>
      (loadWord s (.gpr rt) (effectiveAddress s base offset)).bind (exec rest 0)
  | .swc1 ft offset base :: rest, 0, s =>
      (storeWord s (effectiveAddress s base offset) (s.reg (.fpr ft))).bind (exec rest 0)
  | .lwc1 ft offset base :: rest, 0, s =>
      (loadWord s (.fpr ft) (effectiveAddress s base offset)).bind (exec rest 0)
  | .add rd rs rt :: rest, 0, s => exec rest 0 (s.setReg (.gpr rd) (s.reg (.gpr rs) + s.reg (.gpr rt)))
  | .ori rt rs imm :: rest, 0, s => exec rest 0 (s.setReg (.gpr rt) (s.reg (.gpr rs) ||| imm))
  | .jne rs rt skip :: rest, 0, s => exec rest (if s.reg (.gpr rs) ≠ s.reg (.gpr rt) then skip else 0) s
  | .jumpr rs :: _, 0, s => some (s.setPc (s.reg (.gpr rs)))

theorem aligned_toNat (address : Word) : aligned address = true ↔ address.toNat % 4 = 0 := by
  rw [aligned, beq_iff_eq, ← BitVec.toNat_inj, BitVec.extractLsb'_toNat]
  simp

theorem aligned_add {address : Word} (word : aligned address = true) (index : Nat) :
    aligned (address + BitVec.ofNat 32 (index * 4)) = true := by
  rw [aligned_toNat] at word ⊢
  rw [BitVec.toNat_add, BitVec.toNat_ofNat]
  omega

theorem word_number_add {address : Word} (word : aligned address = true) (index : Nat) :
    wordNumber (address + BitVec.ofNat 32 (index * 4)) = wordNumber address + BitVec.ofNat 30 index := by
  rw [aligned_toNat] at word
  apply BitVec.eq_of_toNat_eq
  rw [wordNumber, wordNumber, BitVec.extractLsb'_toNat, BitVec.toNat_add, BitVec.toNat_add, BitVec.toNat_ofNat,
    BitVec.extractLsb'_toNat, BitVec.toNat_ofNat, Nat.shiftRight_eq_div_pow, Nat.shiftRight_eq_div_pow]
  omega

end Openisa.Newlib
