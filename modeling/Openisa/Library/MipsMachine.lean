import Openisa.Library.ByteStore
import Openisa.Library.MipsInstr

/-! A processor that runs the instructions, with branch delay slots. Without load interlocks a loaded value
reaches its register one instruction late. -/

namespace Openisa.Library.Mips

open Openisa.Library.ByteStore

structure State where
  reg : RegNumber → Word
  /-- A value that is still on its way to a register. -/
  loading : Option (RegNumber × Word)
  pc : Word
  nextPc : Word

structure Effect where
  result : Option (RegNumber × Word)
  load : Option (RegNumber × Word)
  target : Option Word
  deriving DecidableEq, Repr

def State.get (s : State) (r : RegNumber) : Word := if r = 0 then 0 else s.reg r

def write (value : Option (RegNumber × Word)) (reg : RegNumber → Word) : RegNumber → Word :=
  match value with
  | none => reg
  | some (r, v) => Function.update reg r v

theorem write_none (reg : RegNumber → Word) : write none reg = reg := rfl

section Memory

variable (order : Endian) (mem : Store)

def readWord (address : Word) : Word := BitVec.ofNat 32 (load order 4 mem address.toNat)

def aligned (address : Word) : Bool := address.toNat % 4 = 0

/-- Where a branch leads, from its delay slot. -/
def State.branch (s : State) (offset : Half) : Word := s.nextPc + offset.signExtend 32 <<< 2

def Instr.effect (s : State) : Instr → Option Effect
  | .lui rt imm => some ⟨some (rt, imm ++ (0 : Half)), none, none⟩
  | .addiu rt rs imm => some ⟨some (rt, s.get rs + imm.signExtend 32), none, none⟩
  | .ori rt rs imm => some ⟨some (rt, s.get rs ||| imm.setWidth 32), none, none⟩
  | .lw rt base offset =>
      let address := s.get base + offset.signExtend 32
      if aligned address then some ⟨none, some (rt, readWord order mem address), none⟩ else none
  -- the region of the delay slot
  | .j index => some ⟨none, none, some (s.nextPc.extractLsb' 28 4 ++ index ++ (0 : BitVec 2))⟩
  | .sll rd rt sa => some ⟨some (rd, s.get rt <<< sa.toNat), none, none⟩
  | .srl rd rt sa => some ⟨some (rd, s.get rt >>> sa.toNat), none, none⟩
  | .addu rd rs rt => some ⟨some (rd, s.get rs + s.get rt), none, none⟩
  | .subu rd rs rt => some ⟨some (rd, s.get rs - s.get rt), none, none⟩
  | .jr rs => some ⟨none, none, some (s.get rs)⟩
  | .jalr rd rs => some ⟨some (rd, s.nextPc + 4), none, some (s.get rs)⟩
  -- the link is set whether the branch is taken or not
  | .bgezal rs offset =>
      some ⟨some (31, s.nextPc + 4), none, if 0 ≤ (s.get rs).toInt then some (s.branch offset) else none⟩
  | .beq rs rt offset => some ⟨none, none, if s.get rs = s.get rt then some (s.branch offset) else none⟩

def apply (interlocks : Bool) (s : State) (e : Effect) : State :=
  let reg := write e.result (write s.loading s.reg)
  { reg := if interlocks then write e.load reg else reg
    loading := if interlocks then none else e.load
    pc := s.nextPc
    nextPc := e.target.getD (s.nextPc + 4) }

def step (interlocks : Bool) (s : State) : Option State :=
  if aligned s.pc then
    (decode (readWord order mem s.pc)).bind fun i => (i.effect order mem s).map (apply interlocks s)
  else none

def steps (interlocks : Bool) : Nat → State → Option State
  | 0, s => some s
  | n + 1, s => (step order mem interlocks s).bind (steps interlocks n)

variable {order mem}

section Effects

variable {s : State} {rd rs rt sa : RegNumber} {imm : Half} {v w target : Word}

theorem effect_lui : (Instr.lui rt imm).effect order mem s = some ⟨some (rt, imm ++ (0 : Half)), none, none⟩ := rfl

theorem effect_addiu (sum : s.get rs + imm.signExtend 32 = v) :
    (Instr.addiu rt rs imm).effect order mem s = some ⟨some (rt, v), none, none⟩ := by
  rw [Instr.effect, sum]

theorem effect_ori (joined : s.get rs ||| imm.setWidth 32 = v) :
    (Instr.ori rt rs imm).effect order mem s = some ⟨some (rt, v), none, none⟩ := by
  rw [Instr.effect, joined]

theorem effect_lw {address : Word} (sum : s.get rs + imm.signExtend 32 = address) (place : aligned address = true)
    (word : readWord order mem address = v) :
    (Instr.lw rt rs imm).effect order mem s = some ⟨none, some (rt, v), none⟩ := by
  rw [Instr.effect, sum, if_pos place, word]

theorem effect_srl (shifted : s.get rt >>> sa.toNat = v) :
    (Instr.srl rd rt sa).effect order mem s = some ⟨some (rd, v), none, none⟩ := by
  rw [Instr.effect, shifted]

theorem effect_addu (sum : s.get rs + s.get rt = v) :
    (Instr.addu rd rs rt).effect order mem s = some ⟨some (rd, v), none, none⟩ := by
  rw [Instr.effect, sum]

theorem effect_subu (difference : s.get rs - s.get rt = v) :
    (Instr.subu rd rs rt).effect order mem s = some ⟨some (rd, v), none, none⟩ := by
  rw [Instr.effect, difference]

theorem effect_jr (leads : s.get rs = target) :
    (Instr.jr rs).effect order mem s = some ⟨none, none, some target⟩ := by
  rw [Instr.effect, leads]

theorem effect_jalr (leads : s.get rs = target) (back : s.nextPc + 4 = w) :
    (Instr.jalr rd rs).effect order mem s = some ⟨some (rd, w), none, some target⟩ := by
  rw [Instr.effect, leads, back]

end Effects

theorem steps_succ {interlocks : Bool} {n : Nat} {reg : RegNumber → Word} {loading : Option (RegNumber × Word)}
    {pc nextPc : Word} {i : Instr} {e : Effect} (place : aligned pc = true) (word : readWord order mem pc = i.encode)
    (effect : i.effect order mem ⟨reg, loading, pc, nextPc⟩ = some e) :
    steps order mem interlocks (n + 1) ⟨reg, loading, pc, nextPc⟩ =
      steps order mem interlocks n (apply interlocks ⟨reg, loading, pc, nextPc⟩ e) := by
  have first : step order mem interlocks ⟨reg, loading, pc, nextPc⟩ =
      some (apply interlocks ⟨reg, loading, pc, nextPc⟩ e) := by
    rw [step, if_pos place, word, decode_encode, Option.bind_some, effect, Option.map_some]
  rw [steps, first, Option.bind_some]

variable {interlocks : Bool} {n : Nat} {reg : RegNumber → Word} {loading : Option (RegNumber × Word)} {pc nextPc : Word}
  {i : Instr}

theorem steps_result {r : RegNumber} {v : Word} (place : aligned pc = true) (word : readWord order mem pc = i.encode)
    (effect : i.effect order mem ⟨reg, loading, pc, nextPc⟩ = some ⟨some (r, v), none, none⟩) :
    steps order mem interlocks (n + 1) ⟨reg, loading, pc, nextPc⟩ =
      steps order mem interlocks n ⟨Function.update (write loading reg) r v, none, nextPc, nextPc + 4⟩ := by
  rw [steps_succ place word effect]
  cases interlocks <;> rfl

theorem steps_jump {target : Word} (place : aligned pc = true) (word : readWord order mem pc = i.encode)
    (effect : i.effect order mem ⟨reg, loading, pc, nextPc⟩ = some ⟨none, none, some target⟩) :
    steps order mem interlocks (n + 1) ⟨reg, loading, pc, nextPc⟩ =
      steps order mem interlocks n ⟨write loading reg, none, nextPc, target⟩ := by
  rw [steps_succ place word effect]
  cases interlocks <;> rfl

theorem steps_link {target : Word} {r : RegNumber} {v : Word} (place : aligned pc = true)
    (word : readWord order mem pc = i.encode)
    (effect : i.effect order mem ⟨reg, loading, pc, nextPc⟩ = some ⟨some (r, v), none, some target⟩) :
    steps order mem interlocks (n + 1) ⟨reg, loading, pc, nextPc⟩ =
      steps order mem interlocks n ⟨Function.update (write loading reg) r v, none, nextPc, target⟩ := by
  rw [steps_succ place word effect]
  cases interlocks <;> rfl

theorem steps_load {rt : RegNumber} {v : Word} (place : aligned pc = true) (word : readWord order mem pc = i.encode)
    (effect : i.effect order mem ⟨reg, loading, pc, nextPc⟩ = some ⟨none, some (rt, v), none⟩) :
    steps order mem true (n + 1) ⟨reg, loading, pc, nextPc⟩ =
      steps order mem true n ⟨Function.update (write loading reg) rt v, none, nextPc, nextPc + 4⟩ :=
  steps_succ place word effect

theorem steps_load_result {j : Instr} {rt r : RegNumber} {v w : Word} (place : aligned pc = true)
    (word : readWord order mem pc = i.encode)
    (effect : i.effect order mem ⟨reg, loading, pc, nextPc⟩ = some ⟨none, some (rt, v), none⟩)
    (after : aligned nextPc = true) (second : readWord order mem nextPc = j.encode)
    (independent : ∀ reg' loading', (∀ x, x ≠ rt → reg' x = write loading reg x) →
      j.effect order mem ⟨reg', loading', nextPc, nextPc + 4⟩ = some ⟨some (r, w), none, none⟩) :
    steps order mem interlocks (n + 2) ⟨reg, loading, pc, nextPc⟩ =
      steps order mem interlocks n
        ⟨Function.update (Function.update (write loading reg) rt v) r w, none, nextPc + 4, nextPc + 4 + 4⟩ := by
  cases interlocks with
  | true =>
    rw [steps_load place word effect]
    exact steps_result after second (independent _ none fun x other => Function.update_of_ne other _ _)
  | false =>
    rw [steps_succ place word effect]
    exact steps_result after second (independent _ _ fun _ _ => rfl)

theorem steps_add (m k : Nat) (s : State) :
    steps order mem interlocks (m + k) s = (steps order mem interlocks m s).bind (steps order mem interlocks k) := by
  induction m generalizing s with
  | zero => rw [Nat.zero_add, steps, Option.bind_some]
  | succ m ih =>
    rw [Nat.succ_add, steps, steps, Option.bind_assoc]
    exact congrArg _ (funext ih)

end Memory

section Words

theorem word_next (w : Word) (k : Nat) : w + BitVec.ofNat 32 (4 * k) + 4 = w + BitVec.ofNat 32 (4 * (k + 1)) := by
  rw [BitVec.add_assoc]
  exact congrArg (w + ·) (BitVec.ofNat_add_ofNat (4 * k) 4)

theorem two_words (w : Word) : w + 4 + 4 = w + BitVec.ofNat 32 (4 * 2) := word_next w 1

theorem three_words (w : Word) : w + 4 + 4 + 4 = w + BitVec.ofNat 32 (4 * 3) :=
  (congrArg (· + 4) (two_words w)).trans (word_next w 2)

theorem four_words (w : Word) : w + 4 + 4 + 4 + 4 = w + BitVec.ofNat 32 (4 * 4) :=
  (congrArg (· + 4) (three_words w)).trans (word_next w 3)

end Words

/-- A load that is under way comes to its end. -/
def State.settle (s : State) : State := { s with reg := write s.loading s.reg, loading := none }

/-- Control has come to an address, and only some registers have changed. -/
structure Arrives (s s' : State) (target : Word) (changed : List RegNumber) : Prop where
  pc : s'.pc = target
  nextPc : s'.nextPc = target + 4
  loading : s'.loading = none
  kept : ∀ r, r ∉ changed → s'.get r = s.settle.get r

theorem State.get_update {r : RegNumber} (nonzero : r ≠ 0) (reg : RegNumber → Word) (v : Word)
    (loading : Option (RegNumber × Word)) (pc nextPc : Word) :
    State.get ⟨Function.update reg r v, loading, pc, nextPc⟩ r = v := by
  rw [State.get, if_neg nonzero]
  exact Function.update_self r v reg

theorem State.get_of_reg {s s' : State} {r : RegNumber} (same : r ≠ 0 → s'.reg r = s.reg r) : s'.get r = s.get r := by
  unfold State.get
  split
  · rfl
  · next nonzero => exact same nonzero

theorem aligned_word {address : Word} (place : aligned address = true) (k : Nat) :
    aligned (address + BitVec.ofNat 32 (4 * k)) = true := by
  simp only [aligned, decide_eq_true_eq, BitVec.toNat_add, BitVec.toNat_ofNat] at place ⊢
  omega

theorem aligned_next {address : Word} (place : aligned address = true) : aligned (address + 4) = true := by
  have four : (4 : Word).toNat = 4 := rfl
  simp only [aligned, decide_eq_true_eq, BitVec.toNat_add, four] at place ⊢
  omega

end Openisa.Library.Mips
