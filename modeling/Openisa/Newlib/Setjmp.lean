import Openisa.Newlib.Machine
import Mathlib.Logic.Relation

/-! `setjmp` and `longjmp`, and what holds of a buffer between the two. -/

namespace Openisa.Newlib

open Openisa.Library.SaveArea

/-- Which of the macros `__mips_hard_float` and `__oi_soft_float` the compiler defines. -/
inductive FloatAbi where
  | hard | soft | neither
  deriving DecidableEq, Repr

def FloatAbi.mipsHardFloat : FloatAbi → Bool
  | .hard => true
  | .soft | .neither => false

def FloatAbi.oiSoftFloat : FloatAbi → Bool
  | .soft => true
  | .hard | .neither => false

def gprLayout : List (RegNumber × Nat) :=
  [(16, 0), (17, 1), (18, 2), (19, 3), (20, 4), (21, 5), (22, 6), (23, 7), (29, 8), (30, 9), (31, 10)]

def numGprsSaved : Nat := 11

def fprLayout (abi : FloatAbi) : List (RegNumber × Nat) :=
  if abi.mipsHardFloat then
    [(20, 0), (21, 1), (22, 2), (23, 3), (24, 4), (25, 5), (26, 6), (27, 7), (28, 8), (29, 9), (30, 10), (31, 11)]
  else []

def bytesPerWord : Nat := 4

def gpOff (index : Nat) : Nat := index * bytesPerWord

def fpOff (index : Nat) : Nat := (index + numGprsSaved) * bytesPerWord

def setjmpCode (abi : FloatAbi) : List Instr :=
  gprLayout.map (fun p => .stw p.1 (gpOff p.2) 4) ++ (fprLayout abi).map (fun p => .swc1 p.1 (fpOff p.2) 4) ++
    [.add 2 0 0, .jumpr 31]

def longjmpCode (abi : FloatAbi) : List Instr :=
  gprLayout.map (fun p => .ldw p.1 (gpOff p.2) 4) ++ (fprLayout abi).map (fun p => .lwc1 p.1 (fpOff p.2) 4) ++
    [.jne 5 0 1, .ori 5 0 1, .add 2 0 5, .jumpr 31]

def setjmp (abi : FloatAbi) (s : State) : Option State := exec (setjmpCode abi) 0 s

def longjmp (abi : FloatAbi) (s : State) : Option State := exec (longjmpCode abi) 0 s

def jbLen (abi : FloatAbi) : Nat := if abi.oiSoftFloat then 11 else 23

def jmpBuf (abi : FloatAbi) (buf : Word) : Set WordNumber :=
  { w | ∃ index < jbLen abi, w = wordNumber buf + BitVec.ofNat 30 index }

def savedLayout (abi : FloatAbi) : List (Reg × Nat) :=
  gprLayout.map (fun p => (.gpr p.1, p.2)) ++ (fprLayout abi).map (fun p => (.fpr p.1, p.2 + numGprsSaved))

def savedRegs (abi : FloatAbi) : List Reg := (savedLayout abi).map Prod.fst

def slots (layout : List (Reg × Nat)) (buf : Word) : List (Reg × WordNumber) :=
  layout.map fun p => (p.1, wordNumber buf + BitVec.ofNat 30 p.2)

def storeInstr : Reg × Nat → Instr
  | (.gpr r, index) => .stw r (index * bytesPerWord) 4
  | (.fpr r, index) => .swc1 r (index * bytesPerWord) 4

def loadInstr : Reg × Nat → Instr
  | (.gpr r, index) => .ldw r (index * bytesPerWord) 4
  | (.fpr r, index) => .lwc1 r (index * bytesPerWord) 4

theorem setjmp_code_layout (abi : FloatAbi) :
    setjmpCode abi = (savedLayout abi).map storeInstr ++ [.add 2 0 0, .jumpr 31] := by
  cases abi <;> rfl

theorem longjmp_code_layout (abi : FloatAbi) :
    longjmpCode abi = (savedLayout abi).map loadInstr ++ [.jne 5 0 1, .ori 5 0 1, .add 2 0 5, .jumpr 31] := by
  cases abi <;> rfl

theorem saved_regs_apart (abi : FloatAbi) : (savedRegs abi).Nodup := by
  cases abi <;> decide

theorem saved_reg_ne (abi : FloatAbi) :
    ∀ r ∈ savedRegs abi, r ≠ .gpr 0 ∧ r ≠ .gpr 2 ∧ r ≠ .gpr 4 ∧ r ≠ .gpr 5 := by
  cases abi <;> decide

theorem gpr_saved (abi : FloatAbi) :
    ∀ n : RegNumber, n ∈ [16, 17, 18, 19, 20, 21, 22, 23, 29, 30, 31] → .gpr n ∈ savedRegs abi := by
  cases abi <;> decide

theorem link_saved (abi : FloatAbi) : .gpr 31 ∈ savedRegs abi := gpr_saved abi 31 (by decide)

theorem fpr_saved : ∀ n : RegNumber, 20 ≤ n → .fpr n ∈ savedRegs .hard := by decide

theorem saved_index_lt (abi : FloatAbi) : ∀ p ∈ savedLayout abi, p.2 < jbLen abi := by
  cases abi <;> decide

theorem jb_len_le (abi : FloatAbi) : jbLen abi ≤ 23 := by
  cases abi <;> decide

theorem saved_indices_apart (abi : FloatAbi) : ((savedLayout abi).map Prod.snd).Nodup := by
  cases abi <;> decide

theorem slots_regs (layout : List (Reg × Nat)) (buf : Word) :
    (slots layout buf).map Prod.fst = layout.map Prod.fst := by
  rw [slots, List.map_map]
  rfl

theorem slots_words (layout : List (Reg × Nat)) (buf : Word) :
    (slots layout buf).map Prod.snd =
      (layout.map Prod.snd).map fun index => wordNumber buf + BitVec.ofNat 30 index := by
  rw [slots, List.map_map, List.map_map]
  rfl

theorem slot_mem (abi : FloatAbi) (buf : Word) {w : WordNumber}
    (slot : w ∈ (slots (savedLayout abi) buf).map Prod.snd) : w ∈ jmpBuf abi buf := by
  rw [slots_words, List.mem_map] at slot
  obtain ⟨index, listed, rfl⟩ := slot
  obtain ⟨p, member, rfl⟩ := List.mem_map.mp listed
  exact ⟨p.2, saved_index_lt abi p member, rfl⟩

theorem slots_apart (abi : FloatAbi) (buf : Word) : ((slots (savedLayout abi) buf).map Prod.snd).Nodup := by
  rw [slots_words]
  apply List.Nodup.map_on _ (saved_indices_apart abi)
  intro i listed j listed' same
  have small : ∀ k ∈ (savedLayout abi).map Prod.snd, k < 2 ^ 30 := by
    intro k member
    obtain ⟨p, saved, rfl⟩ := List.mem_map.mp member
    exact Nat.lt_of_lt_of_le (saved_index_lt abi p saved) (Nat.le_trans (jb_len_le abi) (by decide))
  have numbers := congrArg BitVec.toNat (BitVec.add_right_inj _ |>.mp same)
  rwa [BitVec.toNat_ofNat, BitVec.toNat_ofNat, Nat.mod_eq_of_lt (small i listed),
    Nat.mod_eq_of_lt (small j listed')] at numbers

variable {rest : List Instr} {s : State}

theorem exec_stores (layout : List (Reg × Nat)) (word : aligned (s.reg (.gpr 4)) = true) :
    exec (layout.map storeInstr ++ rest) 0 s =
      exec rest 0 (s.setMem (saveAll s.reg (slots layout (s.reg (.gpr 4))) s.mem)) := by
  induction layout generalizing s with
  | nil => rfl
  | cons head layout ih =>
    obtain ⟨r, index⟩ := head
    let stored := s.setMem (Function.update s.mem (wordNumber (s.reg (.gpr 4)) + BitVec.ofNat 30 index) (s.reg r))
    have access : storeWord s (effectiveAddress s 4 (index * bytesPerWord)) (s.reg r) = some stored := by
      rw [storeWord, effectiveAddress, bytesPerWord, if_pos (aligned_add word index), word_number_add word]
    have base : stored.reg = s.reg := State.setMem_reg _ _
    calc exec (((r, index) :: layout).map storeInstr ++ rest) 0 s
        = exec (layout.map storeInstr ++ rest) 0 stored := by
          cases r <;> simp only [List.map_cons, List.cons_append, storeInstr, exec, access, Option.bind_some]
      _ = exec rest 0 (stored.setMem (saveAll stored.reg (slots layout (stored.reg (.gpr 4))) stored.mem)) :=
          ih (by rwa [base])
      _ = _ := by rw [base]; rfl

theorem exec_loads (rest : List Instr) (layout : List (Reg × Nat)) (word : aligned (s.reg (.gpr 4)) = true)
    (spared : ∀ r ∈ layout.map Prod.fst, r ≠ .gpr 0 ∧ r ≠ .gpr 4) :
    ∃ s', exec (layout.map loadInstr ++ rest) 0 s = exec rest 0 s' ∧ s'.mem = s.mem ∧
      s'.reg = loadAll s.mem (slots layout (s.reg (.gpr 4))) s.reg := by
  induction layout generalizing s with
  | nil => exact ⟨s, rfl, rfl, rfl⟩
  | cons head layout ih =>
    obtain ⟨r, index⟩ := head
    obtain ⟨notZero, notPointer⟩ := spared r List.mem_cons_self
    let value := s.mem (wordNumber (s.reg (.gpr 4)) + BitVec.ofNat 30 index)
    have access : loadWord s r (effectiveAddress s 4 (index * bytesPerWord)) = some (s.setReg r value) := by
      rw [loadWord, effectiveAddress, bytesPerWord, if_pos (aligned_add word index), word_number_add word]
    have regs : (s.setReg r value).reg = Function.update s.reg r value := State.setReg_reg s r value notZero
    have base : (s.setReg r value).reg (.gpr 4) = s.reg (.gpr 4) := by
      rw [regs, Function.update_of_ne notPointer.symm]
    obtain ⟨s', run, mem, loaded⟩ := ih (s := s.setReg r value) (by rwa [base])
      (fun i listed => spared i (List.mem_cons_of_mem _ listed))
    refine ⟨s', ?_, by rw [mem, State.setReg_mem], ?_⟩
    · rw [← run]
      cases r <;> simp only [List.map_cons, List.cons_append, loadInstr, exec, access, Option.bind_some]
    · rw [loaded, base, regs, State.setReg_mem]
      rfl

theorem effective_address_start (s : State) : effectiveAddress s 4 (gpOff 0) = s.reg (.gpr 4) :=
  BitVec.add_zero _

theorem setjmp_aligned {abi : FloatAbi} {s' : State} (call : setjmp abi s = some s') :
    aligned (s.reg (.gpr 4)) = true := by
  by_contra unaligned
  have trap : storeWord s (effectiveAddress s 4 (gpOff 0)) (s.reg (.gpr 16)) = none := by
    rw [effective_address_start, storeWord, if_neg unaligned]
  simp only [setjmp, setjmpCode, gprLayout, List.map_cons, List.cons_append, exec, trap, Option.bind_none] at call
  cases call

theorem longjmp_aligned {abi : FloatAbi} {s' : State} (call : longjmp abi s = some s') :
    aligned (s.reg (.gpr 4)) = true := by
  by_contra unaligned
  have trap : loadWord s (.gpr 16) (effectiveAddress s 4 (gpOff 0)) = none := by
    rw [effective_address_start, loadWord, if_neg unaligned]
  simp only [longjmp, longjmpCode, gprLayout, List.map_cons, List.cons_append, exec, trap, Option.bind_none] at call
  cases call

theorem setjmp_run (abi : FloatAbi) (word : aligned (s.reg (.gpr 4)) = true) :
    ∃ s', setjmp abi s = some s' ∧ s'.mem = saveAll s.reg (slots (savedLayout abi) (s.reg (.gpr 4))) s.mem ∧
      s'.reg = Function.update s.reg (.gpr 2) 0 ∧ s'.pc = s.reg (.gpr 31) := by
  let filled := s.setMem (saveAll s.reg (slots (savedLayout abi) (s.reg (.gpr 4))) s.mem)
  have regs : (filled.setReg (.gpr 2) 0).reg = Function.update s.reg (.gpr 2) 0 := by
    rw [State.setReg_reg _ _ _ (by decide), State.setMem_reg]
  refine ⟨(filled.setReg (.gpr 2) 0).setPc (s.reg (.gpr 31)), ?_, ?_, ?_, rfl⟩
  · have link : (filled.setReg (.gpr 2) 0).reg (.gpr 31) = s.reg (.gpr 31) := by
      rw [regs, Function.update_of_ne (by decide)]
    rw [setjmp, setjmp_code_layout, exec_stores _ word, ← link]
    rfl
  · rw [State.setPc_mem, State.setReg_mem, State.setMem_mem]
  · rw [State.setPc_reg, regs]

theorem exec_nonzero (rest : List Instr) (s : State) :
    ∃ s', exec (.jne 5 0 1 :: .ori 5 0 1 :: rest) 0 s = exec rest 0 s' ∧ s'.mem = s.mem ∧
      s'.reg = Function.update s.reg (.gpr 5) (if s.reg (.gpr 5) = 0 then 1 else s.reg (.gpr 5)) := by
  by_cases zero : s.reg (.gpr 5) = 0
  · refine ⟨s.setReg (.gpr 5) 1, ?_, State.setReg_mem _ _ _, ?_⟩
    · simp only [exec, State.reg_zero, zero, ne_eq, not_true_eq_false, if_false]
      rfl
    · rw [if_pos zero, State.setReg_reg _ _ _ (by decide)]
  · refine ⟨s, ?_, rfl, ?_⟩
    · simp only [exec, State.reg_zero, ne_eq, zero, not_false_eq_true, if_true]
    · rw [if_neg zero, Function.update_eq_self]

theorem exec_result (s : State) :
    ∃ s', exec [.add 2 0 5, .jumpr 31] 0 s = some s' ∧ s'.mem = s.mem ∧
      s'.reg = Function.update s.reg (.gpr 2) (s.reg (.gpr 5)) ∧ s'.pc = s.reg (.gpr 31) := by
  have regs : (s.setReg (.gpr 2) (s.reg (.gpr 5))).reg = Function.update s.reg (.gpr 2) (s.reg (.gpr 5)) :=
    State.setReg_reg _ _ _ (by decide)
  have link : (s.setReg (.gpr 2) (s.reg (.gpr 5))).reg (.gpr 31) = s.reg (.gpr 31) := by
    rw [regs, Function.update_of_ne (by decide)]
  have sum : (0 : Word) + s.reg (.gpr 5) = s.reg (.gpr 5) := BitVec.zero_add _
  refine ⟨(s.setReg (.gpr 2) (s.reg (.gpr 5))).setPc (s.reg (.gpr 31)), ?_, ?_, ?_, rfl⟩
  · simp only [exec, State.reg_zero]
    rw [sum, link]
  · rw [State.setPc_mem, State.setReg_mem]
  · rw [State.setPc_reg, regs]

theorem longjmp_run (abi : FloatAbi) (word : aligned (s.reg (.gpr 4)) = true) :
    ∃ s', longjmp abi s = some s' ∧ s'.mem = s.mem ∧
      (∀ r ∈ savedRegs abi, s'.reg r = loadAll s.mem (slots (savedLayout abi) (s.reg (.gpr 4))) s.reg r) ∧
      s'.reg (.gpr 2) = (if s.reg (.gpr 5) = 0 then 1 else s.reg (.gpr 5)) ∧ s'.pc = s'.reg (.gpr 31) := by
  obtain ⟨loaded, run, mem, regs⟩ := exec_loads [.jne 5 0 1, .ori 5 0 1, .add 2 0 5, .jumpr 31]
    (savedLayout abi) word fun r listed => ⟨(saved_reg_ne abi r listed).1, (saved_reg_ne abi r listed).2.2.1⟩
  obtain ⟨nonzero, run', mem', regs'⟩ := exec_nonzero [.add 2 0 5, .jumpr 31] loaded
  obtain ⟨s', ended, mem'', regs'', pc⟩ := exec_result nonzero
  have value : loaded.reg (.gpr 5) = s.reg (.gpr 5) := by
    rw [regs, load_all_outside]
    rw [slots_regs]
    exact fun listed => (saved_reg_ne abi _ listed).2.2.2 rfl
  have kept : ∀ r, r ≠ .gpr 2 → r ≠ .gpr 5 → s'.reg r = loaded.reg r := by
    intro r notResult notValue
    rw [regs'', Function.update_of_ne notResult, regs', Function.update_of_ne notValue]
  refine ⟨s', by rw [longjmp, longjmp_code_layout, run, run', ended], by rw [mem'', mem', mem], ?_, ?_, ?_⟩
  · intro r listed
    obtain ⟨_, notResult, _, notValue⟩ := saved_reg_ne abi r listed
    rw [kept r notResult notValue, regs]
  · rw [regs'', Function.update_self, regs', Function.update_self, value]
  · rw [pc, regs'', Function.update_of_ne (by decide)]

end Openisa.Newlib
