import Openisa.Newlib.Setjmp

/-! A buffer from a call of `setjmp` to a call of `longjmp`, with any other instructions in between. -/

namespace Openisa.Newlib

open Openisa.Library.SaveArea

variable (abi : FloatAbi)

/-- One step that does not write the buffer at `buf`: a call with another buffer, a `longjmp`, or any other
instruction. -/
inductive Step (buf : Word) (s s' : State) : Prop
  | setjmp (call : setjmp abi s = some s') (apart : ∀ w ∈ jmpBuf abi (s.reg (.gpr 4)), w ∉ jmpBuf abi buf)
  | longjmp (call : longjmp abi s = some s')
  | other (spared : ∀ w ∈ jmpBuf abi buf, s'.mem w = s.mem w)

abbrev Between (buf : Word) : State → State → Prop := Relation.ReflTransGen (Step abi buf)

/-- The buffer holds the registers that `longjmp` is to restore. -/
def BufferHolds (buf : Word) (s : State) (regs : Reg → Word) : Prop :=
  Holds (slots (savedLayout abi) buf) s.mem regs

variable {abi} {buf : Word} {s s' : State} {regs : Reg → Word}

theorem BufferHolds.of_spared (held : BufferHolds abi buf s regs)
    (spared : ∀ w ∈ jmpBuf abi buf, s'.mem w = s.mem w) : BufferHolds abi buf s' regs :=
  Holds.congr held fun w slot => spared w (slot_mem abi buf slot)

theorem setjmp_outside (call : setjmp abi s = some s') (w : WordNumber)
    (outside : w ∉ jmpBuf abi (s.reg (.gpr 4))) : s'.mem w = s.mem w := by
  obtain ⟨final, run, mem, _⟩ := setjmp_run abi (setjmp_aligned call)
  rw [run] at call
  cases call
  rw [mem]
  exact save_all_outside _ _ _ fun slot => outside (slot_mem abi _ slot)

theorem setjmp_holds (call : setjmp abi s = some s') : BufferHolds abi (s.reg (.gpr 4)) s' s.reg := by
  obtain ⟨final, run, mem, _⟩ := setjmp_run abi (setjmp_aligned call)
  rw [run] at call
  cases call
  rw [BufferHolds, mem]
  exact save_all_holds s.reg (slots_apart abi _) _

theorem longjmp_mem (call : longjmp abi s = some s') : s'.mem = s.mem := by
  obtain ⟨final, run, mem, _⟩ := longjmp_run abi (longjmp_aligned call)
  rw [run] at call
  cases call
  exact mem

theorem step_spares (step : Step abi buf s s') : ∀ w ∈ jmpBuf abi buf, s'.mem w = s.mem w := by
  intro w inside
  cases step with
  | setjmp call apart => exact setjmp_outside call w fun other => apart w other inside
  | longjmp call => rw [longjmp_mem call]
  | other spared => exact spared w inside

theorem between_holds (steps : Between abi buf s s') (held : BufferHolds abi buf s regs) :
    BufferHolds abi buf s' regs := by
  induction steps with
  | refl => exact held
  | tail _ step ih => exact ih.of_spared (step_spares step)

theorem longjmp_restores_held (word : aligned (s.reg (.gpr 4)) = true)
    (held : BufferHolds abi (s.reg (.gpr 4)) s regs) :
    ∃ s', longjmp abi s = some s' ∧ (∀ r ∈ savedRegs abi, s'.reg r = regs r) ∧
      s'.reg (.gpr 2) = (if s.reg (.gpr 5) = 0 then 1 else s.reg (.gpr 5)) ∧ s'.pc = regs (.gpr 31) ∧
      s'.mem = s.mem := by
  obtain ⟨final, run, mem, loaded, result, pc⟩ := longjmp_run abi word
  have restored : ∀ r ∈ savedRegs abi, final.reg r = regs r := by
    intro r listed
    have slotted : r ∈ (slots (savedLayout abi) (s.reg (.gpr 4))).map Prod.fst := by
      rw [slots_regs]
      exact listed
    have apart : ((slots (savedLayout abi) (s.reg (.gpr 4))).map Prod.fst).Nodup := by
      rw [slots_regs]
      exact saved_regs_apart abi
    rw [loaded r listed, load_all_held s.mem apart held s.reg slotted]
  refine ⟨final, run, restored, result, ?_, mem⟩
  rw [pc, restored _ (link_saved abi)]

/-- `setjmp` returns 0 and writes only its buffer; a later `longjmp` with the same buffer restores the
registers of that call and returns to it. -/
theorem longjmp_restores (abi : FloatAbi) (s : State) (word : (s.reg (.gpr 4)).toNat % 4 = 0) :
    ∃ s', setjmp abi s = some s' ∧ s'.reg (.gpr 2) = 0 ∧ s'.pc = s.reg (.gpr 31) ∧
      (∀ r, r ≠ .gpr 2 → s'.reg r = s.reg r) ∧
      (∀ w, w ∉ jmpBuf abi (s.reg (.gpr 4)) → s'.mem w = s.mem w) ∧
      ∀ t, Between abi (s.reg (.gpr 4)) s' t → t.reg (.gpr 4) = s.reg (.gpr 4) →
        ∃ t', longjmp abi t = some t' ∧
          (∀ n : RegNumber, n ∈ [16, 17, 18, 19, 20, 21, 22, 23, 29, 30, 31] → t'.reg (.gpr n) = s.reg (.gpr n)) ∧
          (abi = .hard → ∀ n : RegNumber, 20 ≤ n → t'.reg (.fpr n) = s.reg (.fpr n)) ∧
          t'.reg (.gpr 2) = (if t.reg (.gpr 5) = 0 then 1 else t.reg (.gpr 5)) ∧
          t'.pc = s.reg (.gpr 31) ∧ t'.mem = t.mem := by
  have isAligned := (aligned_toNat _).mpr word
  obtain ⟨s', call, mem, regs, pc⟩ := setjmp_run abi isAligned
  refine ⟨s', call, by rw [regs, Function.update_self], pc, ?_, setjmp_outside call, ?_⟩
  · intro r other
    rw [regs, Function.update_of_ne other]
  · intro t steps pointer
    have held : BufferHolds abi (t.reg (.gpr 4)) t s.reg := by
      rw [pointer]
      exact between_holds steps (setjmp_holds call)
    obtain ⟨t', run, restored, result, pc', mem'⟩ := longjmp_restores_held (by rwa [pointer]) held
    refine ⟨t', run, fun n listed => restored _ (gpr_saved abi n listed), ?_, result, pc', mem'⟩
    rintro rfl n high
    exact restored _ (fpr_saved n high)

def numbered : State where
  gpr n := if n = 4 then 0x1000 else n.setWidth 32
  fpr n := n.setWidth 32
  mem _ := 0
  pc := 0

def clobbered (mem : WordNumber → Word) : State where
  gpr n := if n = 4 then 0x1000 else 0
  fpr _ := 0
  mem := mem
  pc := 0

theorem longjmp_restores_clobbered :
    ∃ s' t', setjmp .hard numbered = some s' ∧ longjmp .hard (clobbered s'.mem) = some t' ∧
      t'.reg (.gpr 16) = 16 ∧ t'.reg (.fpr 31) = 31 ∧ t'.reg (.gpr 2) = 1 ∧ t'.pc = 31 := by
  obtain ⟨s', call, _, _, _, _, later⟩ := longjmp_restores .hard numbered (by decide)
  have step : Step .hard (numbered.reg (.gpr 4)) s' (clobbered s'.mem) := .other fun _ _ => rfl
  obtain ⟨t', run, gprs, fprs, result, pc, _⟩ := later (clobbered s'.mem) (.single step) rfl
  exact ⟨s', t', call, run, gprs 16 (by decide), fprs rfl 31 (by decide), result, pc⟩

end Openisa.Newlib
