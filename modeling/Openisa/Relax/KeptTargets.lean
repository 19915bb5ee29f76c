import Openisa.Bfd.Howto
import Openisa.Relax.RelaxSection
import Mathlib.Data.BitVec
import Mathlib.Tactic.Ring

/-! What a relaxation keeps: the instruction of each relocation, and the byte it designates together with the other
relocation of its pair. -/

namespace Openisa.Relax

open Openisa.Bfd
open Openisa.Library
open Openisa.Library.ByteStore
open Openisa.Library.ByteDeletion

variable {nl ng : Nat}

def Rela.highPartP (rel : Rela nl ng) : Bool :=
  rel.type.hi16RelocP || (rel.type.got16RelocP && rel.sym.isLeft)

/-- The `lo16_type` that is looked for with a high part. -/
def lo16TypeOf : MipsReloc → MipsReloc
  | .rMips16Hi16 | .rMips16Got16 => .rMips16Lo16
  | .rMicromipsHi16 | .rMicromipsGot16 => .rMicromipsLo16
  | _ => .rMipsLo16

def pairsP (high low : Rela nl ng) : Bool := high.highPartP && low.isA (lo16TypeOf high.type) high.sym

/-- The other relocation of a pair: the next low part of a high part, or the last high part before a low part. -/
def partner (relocs : List (Rela nl ng)) (k : Nat) : Option (Rela nl ng) :=
  relocs[k]?.bind fun rel =>
    if rel.highPartP then (relocs.drop (k + 1)).find? (pairsP rel)
    else (relocs.take k).reverse.find? fun high => pairsP high rel

theorem partner_map {f : Rela nl ng → Rela nl ng} (type : ∀ rel, (f rel).type = rel.type)
    (sym : ∀ rel, (f rel).sym = rel.sym) (relocs : List (Rela nl ng)) (k : Nat) :
    partner (relocs.map f) k = (partner relocs k).map f := by
  have high : ∀ rel, (f rel).highPartP = rel.highPartP := fun rel => by rw [Rela.highPartP, Rela.highPartP, type, sym]
  have pairs : ∀ a b, pairsP (f a) (f b) = pairsP a b := fun a b => by
    rw [pairsP, pairsP, high, type, sym, Rela.isA, Rela.isA, type, sym]
  unfold partner
  rw [List.getElem?_map]
  cases relocs[k]? with
  | none => rfl
  | some rel =>
    simp only [Option.map_some, Option.bind_some, high]
    split
    · rw [← List.map_drop, List.find?_map]
      simp only [Function.comp_def, pairs]
    · rw [← List.map_take, ← List.map_reverse, List.find?_map]
      simp only [Function.comp_def, pairs]

variable (inp : Input nl ng)

def fieldSize (rel : Rela nl ng) : Nat := bfdGetRelocSize (mipsElf32RtypeToHowto rel.type)

def fieldOf (s : CodeSection nl ng) (rel : Rela nl ng) : BfdVma :=
  bfdGet inp.order (fieldSize rel) s.contents rel.offset.toNat

def symEntry (s : CodeSection nl ng) (k : Fin ng) : GlobalSym := s.entries (inp.hashes k)

def valueOf (s : CodeSection nl ng) (sym : Fin nl ⊕ Fin ng) : BfdVma :=
  match sym with
  | .inl k => (s.locals k).value
  | .inr k => (symEntry inp s k).value

def isHere (s : CodeSection nl ng) (sym : Fin nl ⊕ Fin ng) : Bool :=
  match sym with
  | .inl k => (s.locals k).sec == inp.self
  | .inr k => (symEntry inp s k).isDefined && (symEntry inp s k).sec == inp.self

-- what the field of a type contributes to an addend
variable (part : MipsReloc → BfdVma → BfdVma)

/-- What the fields of a relocation and of its partner stand for together. -/
def addendAt (s : CodeSection nl ng) (k : Nat) : BfdVma :=
  (s.relocs[k]?.elim 0 fun rel => part rel.type (fieldOf inp s rel)) +
    (partner s.relocs k).elim 0 fun p => part p.type (fieldOf inp s p)

/-- Symbol plus addend of the `k`-th relocation, against `sym`. -/
def designated (s : CodeSection nl ng) (k : Nat) (sym : Fin nl ⊕ Fin ng) : BfdVma :=
  valueOf inp s sym + addendAt inp part s k

/-- The field of the relocation lies in the section, and none of the `count` bytes at `addr` is in it. -/
def Clear (s : CodeSection nl ng) (addr : BfdVma) (count : Nat) (rel : Rela nl ng) : Prop :=
  rel.offset.toNat + fieldSize rel ≤ s.size.toNat ∧ Spared addr.toNat count rel.offset.toNat (fieldSize rel)

instance (s : CodeSection nl ng) (addr : BfdVma) (count : Nat) (rel : Rela nl ng) : Decidable (Clear s addr count rel) :=
  inferInstanceAs (Decidable (_ ∧ _))

/-- The relocation is on an instruction that the deletion leaves, and so is its partner. -/
structure Deletion.Kept (del : Deletion nl ng) (s : CodeSection nl ng) (k : Nat) (rel rel' : Rela nl ng) : Prop where
  sym : rel'.sym = rel.sym
  place : rel'.offset.toNat = moved del.addr.toNat del.count rel.offset.toNat
  field : ∀ new, del.before.relocs[k]? = some new →
    rel'.type = new.type ∧ fieldOf inp (del.after inp) rel' = fieldOf inp del.before new
  partner : ∀ p ∈ partner del.before.relocs k, Clear del.before del.addr del.count p
  here : isHere inp s rel.sym = true → (designated inp part s k rel.sym).toNat < s.size.toNat →
    Spared del.addr.toNat del.count (designated inp part s k rel.sym).toNat 1 →
    (designated inp part (del.after inp) k rel.sym).toNat =
      moved del.addr.toNat del.count (designated inp part s k rel.sym).toNat
  elsewhere : isHere inp s rel.sym = false →
    designated inp part (del.after inp) k rel.sym = designated inp part s k rel.sym

/-- The bytes that go lie in the section, and every relocation that is clear of them lies on its instruction and
designates the byte that it did in `s`, before the instructions were rewritten. -/
def Deletion.Keeps (del : Deletion nl ng) (s : CodeSection nl ng) : Prop :=
  del.addr.toNat + del.count ≤ del.before.size.toNat ∧ ∀ (k : Nat) (rel new : Rela nl ng), s.relocs[k]? = some rel →
    del.before.relocs[k]? = some new → Clear del.before del.addr del.count new →
      ∃ rel', (del.after inp).relocs[k]? = some rel' ∧ del.Kept inp part s k rel rel'

section Lowered

variable (s : CodeSection nl ng) (addr : BfdVma) (count : Nat)

/-- How often the entry of a global symbol occurs in the symbol table. -/
def occurrences (k : Fin ng) : Nat := (List.ofFn inp.hashes).count (inp.hashes k)

/-- How often the value of a symbol is lowered: a global symbol is looked at for each of its occurrences, and is above
the address as long as it has not been lowered below it. -/
def timesLowered (sym : Fin nl ⊕ Fin ng) : Nat :=
  match sym with
  | .inl k => if (s.locals k).sec = inp.self ∧ addr < (s.locals k).value then 1 else 0
  | .inr k => RepeatedUpdate.timesTaken (movesGlobal inp.self addr) (lowerGlobal count) (occurrences inp k)
      (symEntry inp s k)

theorem lower_iterate (k : Nat) (h : GlobalSym) :
    (lowerGlobal count)^[k] h = { h with value := h.value - BitVec.ofNat 64 (k * count) } := by
  induction k generalizing h with
  | zero => simp
  | succ k ih =>
    have total : BitVec.ofNat 64 ((k + 1) * count) = BitVec.ofNat 64 count + BitVec.ofNat 64 (k * count) := by
      rw [← BitVec.ofNat_add, Nat.add_mul, Nat.one_mul, Nat.add_comm]
    rw [Function.iterate_succ_apply, ih, total, lowerGlobal, BitVec.sub_sub]

theorem entry_after (k : Fin ng) : symEntry inp (mipsElfRelaxDeleteBytes inp s addr count) k =
    (lowerGlobal count)^[timesLowered inp s addr count (.inr k)] (symEntry inp s k) :=
  (RepeatedUpdate.update_all_apply _ _ _ _).trans
    (RepeatedUpdate.iterate_guarded (movesGlobal inp.self addr) (lowerGlobal count) _ _)

theorem value_after (sym : Fin nl ⊕ Fin ng) : valueOf inp (mipsElfRelaxDeleteBytes inp s addr count) sym =
    valueOf inp s sym - BitVec.ofNat 64 (timesLowered inp s addr count sym * count) := by
  cases sym with
  | inl k =>
    have value : valueOf inp (mipsElfRelaxDeleteBytes inp s addr count) (.inl k) =
        (adjustLocal inp.self addr count (s.locals k)).value := rfl
    rw [value, adjustLocal, timesLowered]
    split
    · rw [Nat.one_mul, valueOf]
    · rw [Nat.zero_mul, valueOf, BitVec.sub_zero]
  | inr k => rw [valueOf, entry_after, lower_iterate, valueOf]

theorem elsewhere_stays {sym : Fin nl ⊕ Fin ng} (elsewhere : isHere inp s sym = false) :
    timesLowered inp s addr count sym = 0 := by
  cases sym with
  | inl k =>
    have other : (s.locals k).sec ≠ inp.self := by simpa [isHere] using elsewhere
    exact if_neg fun both => other both.1
  | inr k =>
    have still : movesGlobal inp.self addr (symEntry inp s k) = false := by
      simp only [isHere] at elsewhere
      rw [movesGlobal, elsewhere, Bool.false_and]
    rw [timesLowered]
    cases occurrences inp k with
    | zero => rfl
    | succ n => rw [RepeatedUpdate.timesTaken, still, if_neg Bool.false_ne_true]

end Lowered

section Deleted

variable {inp} {s : CodeSection nl ng} {addr : BfdVma} {count : Nat} (positive : 0 < count)
  (room : addr.toNat + count ≤ s.size.toNat) {rel : Rela nl ng}

include positive room

theorem size_left : (s.size - addr - BitVec.ofNat 64 count).toNat = s.size.toNat - addr.toNat - count := by
  have size := s.size.isLt
  have number : (BitVec.ofNat 64 count).toNat = count := by
    rw [BitVec.toNat_ofNat]
    omega
  rw [BitVec.toNat_sub_of_le, BitVec.toNat_sub_of_le, number]
  · rw [BitVec.le_def]
    omega
  · rw [BitVec.le_def, BitVec.toNat_sub_of_le (by rw [BitVec.le_def]; omega), number]
    omega

omit room in
theorem adjust_reloc_place (clear : Clear s addr count rel) :
    (adjustReloc addr count rel).offset.toNat = moved addr.toNat count rel.offset.toNat := by
  obtain ⟨within, spared⟩ := clear
  by_cases behind : addr < rel.offset
  · have order := BitVec.lt_def.mp behind
    have far : addr.toNat + count ≤ rel.offset.toNat := by
      rcases spared with before | behind'
      · omega
      · exact behind'
    have offset := rel.offset.isLt
    have number : (BitVec.ofNat 64 count).toNat = count := by
      rw [BitVec.toNat_ofNat]
      omega
    rw [adjustReloc, if_pos behind, moved_behind order, BitVec.toNat_sub_of_le, number]
    rw [BitVec.le_def]
    omega
  · have order : rel.offset.toNat ≤ addr.toNat := Nat.le_of_not_lt fun less => behind (BitVec.lt_def.mpr less)
    rw [adjustReloc, if_neg behind, moved_before order]

theorem adjust_reloc_field (clear : Clear s addr count rel) :
    fieldOf inp (mipsElfRelaxDeleteBytes inp s addr count) (adjustReloc addr count rel) = fieldOf inp s rel := by
  have type : fieldSize (adjustReloc addr count rel) = fieldSize rel := by
    unfold adjustReloc
    split <;> rfl
  rw [fieldOf, type, adjust_reloc_place positive clear]
  apply congrArg (BitVec.ofNat 64)
  apply load_moveDown _ positive clear.2
  rw [size_left positive room]
  have fits := clear.1
  omega

end Deleted

theorem adjust_reloc_sym (addr : BfdVma) (count : Nat) (rel : Rela nl ng) :
    (adjustReloc addr count rel).sym = rel.sym := by
  unfold adjustReloc
  split <;> rfl

theorem adjust_reloc_type (addr : BfdVma) (count : Nat) (rel : Rela nl ng) :
    (adjustReloc addr count rel).type = rel.type := by
  unfold adjustReloc
  split <;> rfl

theorem addend_after {inp : Input nl ng} {s : CodeSection nl ng} {addr : BfdVma} {count : Nat} (positive : 0 < count)
    (room : addr.toNat + count ≤ s.size.toNat) {k : Nat} {rel : Rela nl ng} (listed : s.relocs[k]? = some rel)
    (clear : Clear s addr count rel) (partners : ∀ p ∈ partner s.relocs k, Clear s addr count p) :
    addendAt inp part (mipsElfRelaxDeleteBytes inp s addr count) k = addendAt inp part s k := by
  have relocs : (mipsElfRelaxDeleteBytes inp s addr count).relocs = s.relocs.map (adjustReloc addr count) := rfl
  have same : ∀ r : Rela nl ng, Clear s addr count r →
      part (adjustReloc addr count r).type (fieldOf inp (mipsElfRelaxDeleteBytes inp s addr count)
        (adjustReloc addr count r)) = part r.type (fieldOf inp s r) := by
    intro r clear
    rw [adjust_reloc_type, adjust_reloc_field positive room clear]
  rw [addendAt, addendAt, relocs, List.getElem?_map, listed,
    partner_map (adjust_reloc_type addr count) (adjust_reloc_sym addr count)]
  simp only [Option.map_some, Option.elim_some, same rel clear]
  cases other : partner s.relocs k with
  | none => rfl
  | some p => simp only [Option.map_some, Option.elim_some, same p (partners p other)]

/-- What the addend of the `k`-th relocation loses in the rewritten instructions. -/
def lost (s : CodeSection nl ng) (r : Rewritten nl ng) (k : Nat) : BfdVma :=
  addendAt inp part s k - addendAt inp part (rewritten s r) k

/-- What is left of a place, once `q` was taken off it, is its place after a deletion exactly if `q` is what was deleted
in front of it. -/
theorem taken_iff {addr target q : BfdVma} {count : Nat} (spared : Spared addr.toNat count target.toNat 1) :
    (target - q).toNat = moved addr.toNat count target.toNat ↔
      q = if addr ≤ target then BitVec.ofNat 64 count else 0 := by
  have bound := target.isLt
  have place : moved addr.toNat count target.toNat =
      (target - if addr ≤ target then BitVec.ofNat 64 count else 0).toNat := by
    by_cases front : addr ≤ target
    · have order := BitVec.le_def.mp front
      have far : addr.toNat + count ≤ target.toNat := by
        rcases spared with before | behind
        · omega
        · exact behind
      have number : (BitVec.ofNat 64 count).toNat = count := by
        rw [BitVec.toNat_ofNat]
        omega
      rw [if_pos front, BitVec.toNat_sub_of_le (by rw [BitVec.le_def]; omega), number, moved]
      split <;> omega
    · rw [if_neg front, sub_zero, moved_before]
      rw [BitVec.le_def] at front
      omega
  rw [place, BitVec.toNat_inj]
  exact sub_right_inj

/-- What the symbol and the addend of a relocation lose is what was deleted in front of the byte it designates. -/
structure Balanced (s : CodeSection nl ng) (addr : BfdVma) (count : Nat) (gone : BfdVma) (k : Nat)
    (sym : Fin nl ⊕ Fin ng) : Prop where
  here : isHere inp s sym = true → (designated inp part s k sym).toNat < s.size.toNat →
    Spared addr.toNat count (designated inp part s k sym).toNat 1 →
    BitVec.ofNat 64 (timesLowered inp s addr count sym * count) + gone =
      if addr ≤ designated inp part s k sym then BitVec.ofNat 64 count else 0
  elsewhere : isHere inp s sym = false → gone = 0

section Kept

variable {inp} {s : CodeSection nl ng} {del : Deletion nl ng} (shape : del.Of s)

include shape

theorem Deletion.Of.value (sym : Fin nl ⊕ Fin ng) : valueOf inp del.before sym = valueOf inp s sym := by
  cases sym with
  | inl n => rw [valueOf, valueOf, shape.locals]
  | inr n => rw [valueOf, valueOf, symEntry, symEntry, shape.entries]

theorem Deletion.Of.lowered (sym : Fin nl ⊕ Fin ng) :
    timesLowered inp del.before del.addr del.count sym = timesLowered inp s del.addr del.count sym := by
  cases sym with
  | inl n => rw [timesLowered, timesLowered, shape.locals]
  | inr n => rw [timesLowered, timesLowered, symEntry, symEntry, shape.entries]

variable (room : del.addr.toNat + del.count ≤ del.before.size.toNat) {k : Nat} {rel new : Rela nl ng}
  (listed' : del.before.relocs[k]? = some new) (clear : Clear del.before del.addr del.count new)

include room listed' clear

theorem designated_after (partners : ∀ p ∈ partner del.before.relocs k, Clear del.before del.addr del.count p)
    (sym : Fin nl ⊕ Fin ng) : designated inp part (del.after inp) k sym = designated inp part s k sym -
      (BitVec.ofNat 64 (timesLowered inp s del.addr del.count sym * del.count) +
        (addendAt inp part s k - addendAt inp part del.before k)) := by
  rw [designated, designated, Deletion.after, value_after, addend_after part shape.positive room listed' clear partners,
    shape.value, shape.lowered]
  ring

theorem kept_iff (listed : s.relocs[k]? = some rel) :
    (∃ rel', (del.after inp).relocs[k]? = some rel' ∧ del.Kept inp part s k rel rel') ↔
    (∀ p ∈ partner del.before.relocs k, Clear del.before del.addr del.count p) ∧
      Balanced inp part s del.addr del.count (addendAt inp part s k - addendAt inp part del.before k) k rel.sym := by
  have after : (del.after inp).relocs[k]? = some (adjustReloc del.addr del.count new) := by
    simp [Deletion.after, mipsElfRelaxDeleteBytes, listed']
  obtain ⟨offset, sym⟩ := shape.reloc listed listed'
  have place := adjust_reloc_place shape.positive clear
  constructor
  · rintro ⟨rel', there, kept⟩
    have target : designated inp part (del.after inp) k rel.sym = _ :=
      designated_after part shape room listed' clear kept.partner rel.sym
    refine ⟨kept.partner, fun here below spared => ?_, fun elsewhere => ?_⟩
    · have moves := kept.here here below spared
      rw [target] at moves
      exact (taken_iff spared).mp moves
    · have stays := kept.elsewhere elsewhere
      rw [target, elsewhere_stays inp s del.addr del.count elsewhere, Nat.zero_mul] at stays
      simpa using stays
  · rintro ⟨partners, balanced⟩
    have target : designated inp part (del.after inp) k rel.sym = _ :=
      designated_after part shape room listed' clear partners rel.sym
    refine ⟨_, after, (adjust_reloc_sym _ _ _).trans sym, by rw [place, offset], fun new' same => ?_, partners,
      fun here below spared => ?_, fun elsewhere => ?_⟩
    · rw [listed'] at same
      cases same
      exact ⟨adjust_reloc_type _ _ _, adjust_reloc_field shape.positive room clear⟩
    · rw [target]
      exact (taken_iff spared).mpr (balanced.here here below spared)
    · rw [target, elsewhere_stays inp s del.addr del.count elsewhere, balanced.elsewhere elsewhere, Nat.zero_mul]
      simp

end Kept

end Openisa.Relax
