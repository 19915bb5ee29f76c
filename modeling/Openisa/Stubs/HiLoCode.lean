import Openisa.Bfd.Words
import Openisa.Library.MipsMachine

/-! Instruction words that the linker makes out of a template and the halves of an address, as the processor
reads them. -/

namespace Openisa.Stubs

open Openisa.Bfd
open Openisa.Library.ByteStore
open Openisa.Library.Mips

/-- The operand for `lui`: `((value + 0x8000) >> 16) & 0xffff`. -/
def highOperand (value : BfdVma) : BfdVma := ((value + 0x8000) >>> 16) &&& 0xffff

def lowOperand (value : BfdVma) : BfdVma := value &&& 0xffff

/-- The operand of a jump: `(value >> 2) & 0x3ffffff`. -/
def jumpOperand (value : BfdVma) : BfdVma := (value >>> 2) &&& 0x3ffffff

theorem highOperand_word (value : BfdVma) :
    (highOperand value).setWidth 32 = (highHalf (value.setWidth 32)).setWidth 32 := by
  apply BitVec.eq_of_toNat_eq
  have bound := value.isLt
  have mask : ∀ n : Nat, n &&& 65535 = n % 65536 := fun n => Nat.and_two_pow_sub_one_eq_mod n 16
  simp [highOperand, highHalf, BitVec.extractLsb'_toNat, Nat.shiftRight_eq_div_pow, mask]
  omega

theorem lowOperand_word (value : BfdVma) :
    (lowOperand value).setWidth 32 = (lowHalf (value.setWidth 32)).setWidth 32 := by
  apply BitVec.eq_of_toNat_eq
  have mask : ∀ n : Nat, n &&& 65535 = n % 65536 := fun n => Nat.and_two_pow_sub_one_eq_mod n 16
  simp [lowOperand, lowHalf, BitVec.extractLsb'_toNat, mask]
  omega

theorem jumpOperand_word (value : BfdVma) :
    (jumpOperand value).setWidth 32 = ((value.setWidth 32).extractLsb' 2 26).setWidth 32 := by
  apply BitVec.eq_of_toNat_eq
  have bound := value.isLt
  have mask : ∀ n : Nat, n &&& 67108863 = n % 67108864 := fun n => Nat.and_two_pow_sub_one_eq_mod n 26
  simp [jumpOperand, BitVec.extractLsb'_toNat, Nat.shiftRight_eq_div_pow, mask]
  omega

section Template

variable {template : BfdVma} {op : BitVec 6} {rs rt : RegNumber}

theorem template_high (plain : template.setWidth 32 = immediate op rs rt 0) (value : BfdVma) :
    (template ||| highOperand value).setWidth 32 = immediate op rs rt (highHalf (value.setWidth 32)) := by
  rw [immediate_or, BitVec.setWidth_or, plain, highOperand_word]

theorem template_low (plain : template.setWidth 32 = immediate op rs rt 0) (value : BfdVma) :
    (template ||| lowOperand value).setWidth 32 = immediate op rs rt (lowHalf (value.setWidth 32)) := by
  rw [immediate_or, BitVec.setWidth_or, plain, lowOperand_word]

theorem template_jump (plain : template.setWidth 32 = jump op 0) (value : BfdVma) :
    (template ||| jumpOperand value).setWidth 32 = jump op ((value.setWidth 32).extractLsb' 2 26) := by
  rw [jump_or, BitVec.setWidth_or, plain, jumpOperand_word]

end Template

structure Loaded (mem : Store) (base : Word) (size : Nat) (contents : Store) : Prop where
  room : base.toNat + size ≤ 2 ^ 32
  bytes : ∀ i < size, mem (base.toNat + i) = contents i

theorem Loaded.readWord {order : Endian} {mem contents : Store} {base : Word} {size offset : Nat}
    (loaded : Loaded mem base size contents) (inside : offset + 4 ≤ size) :
    readWord order mem (base + BitVec.ofNat 32 offset) = (bfdGet32 order contents offset).setWidth 32 := by
  have room := loaded.room
  have address : (base + BitVec.ofNat 32 offset).toNat = base.toNat + offset := by
    rw [BitVec.toNat_add, BitVec.toNat_ofNat, Nat.mod_eq_of_lt (show offset < 2 ^ 32 by omega),
      Nat.mod_eq_of_lt (by omega)]
  have same : load order 4 mem (base.toNat + offset) = load order 4 contents offset := by
    apply digits_congr
    intro k below
    have weight := order.offset_lt 4 k below
    rw [Nat.add_assoc]
    exact loaded.bytes _ (by omega)
  have small := load_lt order 4 contents offset
  rw [Library.Mips.readWord, address, same]
  apply BitVec.eq_of_toNat_eq
  simp only [bfdGet32, bfdGet, BitVec.toNat_ofNat, BitVec.toNat_setWidth]
  omega

theorem aligned_offset {base : Word} {offset : Nat} (place : aligned base = true) (words : offset % 4 = 0)
    (room : base.toNat + offset < 2 ^ 32) : aligned (base + BitVec.ofNat 32 offset) = true := by
  have address : (base + BitVec.ofNat 32 offset).toNat = base.toNat + offset := by
    rw [BitVec.toNat_add, BitVec.toNat_ofNat, Nat.mod_eq_of_lt (show offset < 2 ^ 32 by omega),
      Nat.mod_eq_of_lt room]
  simp only [aligned, decide_eq_true_eq] at place ⊢
  omega

end Openisa.Stubs

namespace Openisa.Bfd

open Openisa.Library.ByteStore
open Openisa.Library.Mips
open Openisa.Stubs

theorem WordsAt.readWord {order : Endian} {mem contents : Store} {base address : Word} {size offset i : Nat}
    {words : List BfdVma} {word : BfdVma} (coded : WordsAt order contents offset words)
    (loaded : Loaded mem base size contents) (room : offset + 4 * words.length ≤ size) (present : words[i]? = some word)
    (here : address = base + BitVec.ofNat 32 offset + BitVec.ofNat 32 (4 * i)) :
    Library.Mips.readWord order mem address = word.setWidth 32 := by
  have inside := (List.getElem?_eq_some_iff.mp present).1
  rw [here, BitVec.add_assoc, BitVec.ofNat_add_ofNat, loaded.readWord (by omega), coded i word present]

theorem WordsAt.fetch {order : Endian} {mem contents : Store} {base address : Word} {size offset k : Nat}
    {words : List BfdVma} {code : List Instr} {i : Instr} (coded : WordsAt order contents offset words)
    (same : words.map (·.setWidth 32) = code.map Instr.encode) (loaded : Loaded mem base size contents)
    (room : offset + 4 * words.length ≤ size) (present : code[k]? = some i)
    (here : address = base + BitVec.ofNat 32 offset + BitVec.ofNat 32 (4 * k)) :
    Library.Mips.readWord order mem address = i.encode := by
  have encoded : (words.map (·.setWidth 32))[k]? = some i.encode := by
    rw [same, List.getElem?_map, present, Option.map_some]
  rw [List.getElem?_map] at encoded
  obtain ⟨word, given, equal⟩ := Option.map_eq_some_iff.mp encoded
  rw [coded.readWord loaded room given here, equal]

end Openisa.Bfd
