import Openisa.Library.SubstitutedJumps
import Openisa.Stubs.HiLoCode

/-! Jumps through a register in a section whose relocations say where they lead, and the branches that take their place. -/

namespace Openisa.Relax

open Openisa.Bfd
open Openisa.Library
open Openisa.Library.ByteStore
open Openisa.Library.Mips
open Openisa.Stubs

section Words

variable (w : Word)

theorem field_of_mask {start len : Nat} {mask : Word} (covers : mask.extractLsb' start len = BitVec.allOnes len) :
    (w &&& mask).extractLsb' start len = w.extractLsb' start len := by
  rw [BitVec.extractLsb'_and, covers, BitVec.and_allOnes]

variable {w}

theorem decode_jalr (masked : w &&& 0xfc1fffff = 0x0000f809) : decode w = some (.jalr 31 (rsField w)) := by
  have op : opField w = 0 := by
    rw [opField, ← field_of_mask w (show (0xfc1fffff : Word).extractLsb' 26 6 = BitVec.allOnes 6 by decide), masked]
    decide
  have rd : rdField w = 31 := by
    rw [rdField, ← field_of_mask w (show (0xfc1fffff : Word).extractLsb' 11 5 = BitVec.allOnes 5 by decide), masked]
    decide
  have funct : functField w = 9 := by
    rw [functField, ← field_of_mask w (show (0xfc1fffff : Word).extractLsb' 0 6 = BitVec.allOnes 6 by decide), masked]
    decide
  simp [decode, decodeRegisters, op, rd, funct]

theorem decode_jr (masked : w &&& 0xfc1fffff = 0x00000008) : decode w = some (.jr (rsField w)) := by
  have op : opField w = 0 := by
    rw [opField, ← field_of_mask w (show (0xfc1fffff : Word).extractLsb' 26 6 = BitVec.allOnes 6 by decide), masked]
    decide
  have funct : functField w = 8 := by
    rw [functField, ← field_of_mask w (show (0xfc1fffff : Word).extractLsb' 0 6 = BitVec.allOnes 6 by decide), masked]
    decide
  simp [decode, decodeRegisters, op, funct]

end Words

section Branches

def InReach (off : BfdVma) : Prop := off.toNat % 4 = 0 ∧ -0x20000 ≤ off.toInt ∧ off.toInt < 0x20000

def branchField (off : BfdVma) : Half := lowHalf ((off.sshiftRight 2).setWidth 32)

theorem sshiftRight_two (off : BfdVma) : (off.sshiftRight 2).toInt = off.toInt / 4 := by
  rw [BitVec.toInt_sshiftRight, Int.shiftRight_eq_div_pow]
  rfl

theorem branchField_leads {off : BfdVma} (reach : InReach off) :
    (branchField off).signExtend 32 <<< 2 = off.setWidth 32 := by
  obtain ⟨words, low, high⟩ := reach
  have quarter := sshiftRight_two off
  have bound := off.isLt
  have field : ((off.sshiftRight 2).setWidth 32).toNat = (off.sshiftRight 2).toNat % 2 ^ 32 := BitVec.toNat_setWidth _ _
  have signed := signExtend_low ((off.sshiftRight 2).setWidth 32)
  rw [field] at signed
  apply BitVec.eq_of_toNat_eq
  rw [BitVec.toNat_shiftLeft, branchField, signed, BitVec.toNat_setWidth, Nat.shiftLeft_eq]
  rw [BitVec.toInt_eq_toNat_cond, BitVec.toInt_eq_toNat_cond] at quarter
  rw [BitVec.toInt_eq_toNat_cond] at low high
  split <;> omega

theorem branch_leads {value address : BfdVma} (reach : InReach (value - (address + 4))) :
    address.setWidth 32 + (4 : Word) + (branchField (value - (address + 4))).signExtend 32 <<< 2 = value.setWidth 32 := by
  have four : (4 : Word) = BitVec.setWidth 32 (4 : BfdVma) := rfl
  rw [branchField_leads reach, four, ← BitVec.setWidth_add _ _ (by decide), ← BitVec.setWidth_add _ _ (by decide),
    BitVec.add_comm, BitVec.sub_add_cancel]

theorem branch_word (off : BfdVma) : ((0x10000000 : BfdVma) ||| ((off.sshiftRight 2) &&& 0xffff)).setWidth 32 =
    (Instr.beq 0 0 (branchField off)).encode :=
  template_low (by decide) _

theorem link_word (off : BfdVma) : ((0x04110000 : BfdVma) ||| ((off.sshiftRight 2) &&& 0xffff)).setWidth 32 =
    (Instr.bgezal 0 (branchField off)).encode :=
  template_low (by decide) _

end Branches

section Section

variable (order : Endian) (base : Word) (size : Nat)

def loadSection (contents rest : Store) : Store :=
  fun i => if base.toNat ≤ i ∧ i < base.toNat + size then contents (i - base.toNat) else rest i

def HintedWord (marks : Marks) (contents contents' : Store) (offset : Nat) : Prop :=
  (∀ i, offset ≤ i → i < offset + 4 → contents' i = contents i) ∨
    offset + 4 ≤ size ∧ ∃ target i j, (base + BitVec.ofNat 32 offset, target) ∈ marks ∧
      decode ((bfdGet32 order contents offset).setWidth 32) = some i ∧
      decode ((bfdGet32 order contents' offset).setWidth 32) = some j ∧
      BranchFor (base + BitVec.ofNat 32 offset) target i j

variable {order base size}

theorem place_word (secStart offset : BfdVma) :
    (secStart + offset).setWidth 32 = secStart.setWidth 32 + BitVec.ofNat 32 offset.toNat := by
  rw [BitVec.setWidth_add _ _ (by decide), BitVec.ofNat_toNat]

theorem loadSection_loaded (room : base.toNat + size ≤ 2 ^ 32) (contents rest : Store) :
    Loaded (loadSection base size contents rest) base size contents where
  room := room
  bytes i inside := by
    rw [loadSection, if_pos ⟨Nat.le_add_right _ _, by omega⟩, Nat.add_sub_cancel_left]

theorem hinted_section {marks : Marks} {contents contents' : Store} (place : aligned base = true)
    (room : base.toNat + size ≤ 2 ^ 32)
    (hinted : ∀ offset, offset % 4 = 0 → HintedWord order base size marks contents contents' offset) (rest : Store) :
    Substituted order marks (loadSection base size contents rest) (loadSection base size contents' rest) := by
  intro address word
  have fours : address.toNat % 4 = 0 ∧ base.toNat % 4 = 0 := by
    simp only [aligned, decide_eq_true_eq] at word place
    exact ⟨word, place⟩
  by_cases before : address.toNat < base.toNat
  · left
    have outside : ∀ i, address.toNat ≤ i → i < address.toNat + 4 →
        loadSection base size contents' rest i = loadSection base size contents rest i := by
      intro i low high
      rw [loadSection, loadSection, if_neg (by omega), if_neg (by omega)]
    rw [readWord, readWord, load_congr order 4 _ _ _ outside]
  · have here : address = base + BitVec.ofNat 32 (address.toNat - base.toNat) := by
      apply BitVec.eq_of_toNat_eq
      have bound := address.isLt
      rw [BitVec.toNat_add, BitVec.toNat_ofNat]
      omega
    rcases hinted (address.toNat - base.toNat) (by omega) with same | ⟨inside, target, i, j, marked, was, is, branch⟩
    · left
      have kept : ∀ i, address.toNat ≤ i → i < address.toNat + 4 →
          loadSection base size contents' rest i = loadSection base size contents rest i := by
        intro i low high
        rw [loadSection, loadSection, same (i - base.toNat) (by omega) (by omega)]
      rw [readWord, readWord, load_congr order 4 _ _ _ kept]
    · right
      rw [← here] at marked branch
      refine ⟨target, i, j, marked, ?_, ?_, branch⟩
      · rw [here, (loadSection_loaded room contents rest).readWord inside, was]
      · rw [here, (loadSection_loaded room contents' rest).readWord inside, is]

def storeWord : Others := fun w s mem =>
  let address := s.get (rsField w) + (immField w).signExtend 32
  if opField w = 0x2b ∧ aligned address = true then
    some (apply true s ⟨none, none, none⟩, bfdPut32 .big ((s.get (rtField w)).setWidth 64) mem address.toNat)
  else none

def sampleCaller : Store := bfdPut32 .big 0x0320f809 (fun _ => 0) 0

def sampleEntered : State := ⟨fun r => if r = 25 then 0x400010 else 0, none, 0x400000, 0x400004⟩

theorem sampleEntered_promised {others : Others} {mem : Store}
    (word : decode (readWord .big mem 0x400000) = some (.jalr 31 25)) :
    Promised .big [(0x400000, 0x400010)] others sampleEntered mem where
  jumps target i r marked decoded through := by
    have here : i = .jalr 31 25 := Option.some.inj (decoded.symm.trans word)
    rw [List.mem_singleton] at marked
    cases marked
    subst here
    cases through
    exact ⟨rfl, rfl⟩
  reads i address decoded reads := by
    have here : i = .jalr 31 25 := Option.some.inj (decoded.symm.trans word)
    subst here
    cases reads
  others none := by cases none.symm.trans word

end Section

end Openisa.Relax
