import Openisa.Relax.RelaxedAddresses

/-! A whole call of the relaxation: where the bytes of the section end up, and what the relocations
designate. -/

namespace Openisa.Relax

open Openisa.Bfd
open Openisa.Library
open Openisa.Library.ByteStore
open Openisa.Library.ByteDeletion

variable {nl ng : Nat} (inp : Input nl ng) (part : MipsReloc → BfdVma → BfdVma) (s : CodeSection nl ng)

/-- The place of a byte of the section after `n` turns. -/
def movedBy : Nat → Nat → Nat
  | 0, p => p
  | n + 1, p =>
      match (turn inp (sectionAt inp s n) n).deletion with
      | none => movedBy n p
      | some del => moved del.addr.toNat del.count (movedBy n p)

/-- The turn for the `n`-th relocation deletes neither a byte of the field of the `k`-th one, against `sym`, nor the byte
that this one designates. -/
def Untouched (k : Nat) (sym : Fin nl ⊕ Fin ng) (n : Nat) : Prop :=
  ∀ del ∈ (turn inp (sectionAt inp s n) n).deletion, ∀ new, del.before.relocs[k]? = some new →
    Clear del.before del.addr del.count new ∧
      (isHere inp (sectionAt inp s n) sym = true →
        Spared del.addr.toNat del.count (designated inp part (sectionAt inp s n) k sym).toNat 1)

/-- The `k`-th relocation of the section, after `n` turns. -/
structure Follows (n k : Nat) (rel rel' : Rela nl ng) : Prop where
  sym : rel'.sym = rel.sym
  place : rel'.offset.toNat = movedBy inp s n rel.offset.toNat
  here : isHere inp s rel.sym = true → (designated inp part s k rel.sym).toNat < s.size.toNat →
    (designated inp part (sectionAt inp s n) k rel.sym).toNat =
        movedBy inp s n (designated inp part s k rel.sym).toNat ∧
      (designated inp part (sectionAt inp s n) k rel.sym).toNat < (sectionAt inp s n).size.toNat
  elsewhere : isHere inp s rel.sym = false →
    designated inp part (sectionAt inp s n) k rel.sym = designated inp part s k rel.sym

section Here

variable {inp s}

theorem Deletion.Of.here {del : Deletion nl ng} (shape : del.Of s) (sym : Fin nl ⊕ Fin ng) :
    isHere inp del.before sym = isHere inp s sym := by
  cases sym with
  | inl k => rw [isHere, isHere, shape.locals]
  | inr k => rw [isHere, isHere, symEntry, symEntry, shape.entries]

theorem here_after (del : Deletion nl ng) (sym : Fin nl ⊕ Fin ng) :
    isHere inp (del.after inp) sym = isHere inp del.before sym := by
  cases sym with
  | inl k =>
    have own : ((del.after inp).locals k).sec = (del.before.locals k).sec := by
      change (adjustLocal inp.self del.addr del.count (del.before.locals k)).sec = _
      unfold adjustLocal
      split <;> rfl
    rw [isHere, isHere, own]
  | inr k =>
    rw [isHere, isHere, Deletion.after, entry_after, lower_iterate]
    rfl

theorem here_at (n : Nat) (sym : Fin nl ⊕ Fin ng) : isHere inp (sectionAt inp s n) sym = isHere inp s sym := by
  induction n with
  | zero => rfl
  | succ n ih =>
    rw [← ih, sectionAt, afterTurn]
    split
    · rfl
    · rename_i del deleted
      rw [here_after, (deletion_shape deleted).here]

end Here

section Run

variable {inp part s} {k n : Nat} {rel rel' : Rela nl ng}

theorem follows_start (k : Nat) (rel : Rela nl ng) : Follows inp part s 0 k rel rel where
  sym := rfl
  place := rfl
  here _ below := ⟨rfl, below⟩
  elsewhere _ := rfl

theorem Follows.idle (follows : Follows inp part s n k rel rel')
    (nothing : (turn inp (sectionAt inp s n) n).deletion = none) : Follows inp part s (n + 1) k rel rel' := by
  have same : sectionAt inp s (n + 1) = sectionAt inp s n := by
    rw [sectionAt, afterTurn, nothing]
  have places : ∀ p, movedBy inp s (n + 1) p = movedBy inp s n p := by
    intro p
    rw [movedBy, nothing]
  refine ⟨follows.sym, ?_, ?_, ?_⟩
  · rw [places]
    exact follows.place
  · rw [same, places]
    exact follows.here
  · rw [same]
    exact follows.elsewhere

theorem moved_inside {del : Deletion nl ng} (room : del.addr.toNat + del.count ≤ del.before.size.toNat) {p : Nat}
    (below : p < del.before.size.toNat) (spared : Spared del.addr.toNat del.count p 1) :
    moved del.addr.toNat del.count p < (del.after inp).size.toNat := by
  have bound := del.before.size.isLt
  have number : (BitVec.ofNat 64 del.count).toNat = del.count := by
    rw [BitVec.toNat_ofNat]
    omega
  have size : (del.after inp).size.toNat = del.before.size.toNat - del.count := by
    change (del.before.size - BitVec.ofNat 64 del.count).toNat = _
    rw [BitVec.toNat_sub_of_le (by rw [BitVec.le_def, number]; omega), number]
  rw [size]
  rcases spared with before | behind
  · rw [moved_before (by omega)]
    omega
  · by_cases same : p = del.addr.toNat
    · rw [moved_before (by omega)]
      omega
    · rw [moved_behind (by omega)]
      omega

theorem Follows.delete (follows : Follows inp part s n k rel rel')
    (listed : (sectionAt inp s n).relocs[k]? = some rel') (preserves : TurnPreserves inp part (sectionAt inp s n) n)
    (untouched : Untouched inp part s k rel.sym n) {del : Deletion nl ng}
    (deleted : del ∈ (turn inp (sectionAt inp s n) n).deletion) :
    ∃ next, (sectionAt inp s (n + 1)).relocs[k]? = some next ∧ Follows inp part s (n + 1) k rel next := by
  have shape := deletion_shape deleted
  obtain ⟨new, there⟩ : ∃ new, del.before.relocs[k]? = some new := by
    have short := (List.getElem?_eq_some_iff.mp listed).1
    rw [← shape.length] at short
    exact ⟨_, List.getElem?_eq_getElem short⟩
  obtain ⟨clear, spared⟩ := untouched del deleted new there
  obtain ⟨room, keeps⟩ := preserves.keeps del deleted
  obtain ⟨next, listed', kept⟩ := keeps k rel' new listed there clear
  have after : sectionAt inp s (n + 1) = del.after inp := by
    rw [sectionAt, afterTurn, Option.mem_def.mp deleted]
  have places : ∀ p, movedBy inp s (n + 1) p = moved del.addr.toNat del.count (movedBy inp s n p) := by
    intro p
    rw [movedBy, Option.mem_def.mp deleted]
  have here : isHere inp (sectionAt inp s n) rel.sym = isHere inp s rel.sym := here_at n rel.sym
  have keptHere := follows.sym ▸ kept.here
  have keptElsewhere := follows.sym ▸ kept.elsewhere
  refine ⟨next, by rw [after]; exact listed', kept.sym.trans follows.sym, ?_, ?_, ?_⟩
  · rw [kept.place, places, follows.place]
  · intro isHere below
    obtain ⟨target, within⟩ := follows.here isHere below
    have away := spared (here.trans isHere)
    rw [after, places, keptHere (here.trans isHere) within away, ← target]
    rw [← shape.size] at within
    exact ⟨rfl, moved_inside room within away⟩
  · intro isElsewhere
    rw [after, keptElsewhere (here.trans isElsewhere)]
    exact follows.elsewhere isElsewhere

theorem follows_run (preserves : ∀ i < n, TurnPreserves inp part (sectionAt inp s i) i)
    (untouched : ∀ i < n, Untouched inp part s k rel.sym i) (listed : s.relocs[k]? = some rel) :
    ∃ rel', (sectionAt inp s n).relocs[k]? = some rel' ∧ Follows inp part s n k rel rel' := by
  induction n with
  | zero => exact ⟨rel, listed, follows_start k rel⟩
  | succ n ih =>
    obtain ⟨rel', listed', follows⟩ := ih (fun i less => preserves i (Nat.lt_succ_of_lt less))
      fun i less => untouched i (Nat.lt_succ_of_lt less)
    cases deleted : (turn inp (sectionAt inp s n) n).deletion with
    | none =>
      refine ⟨rel', ?_, follows.idle deleted⟩
      rw [sectionAt, afterTurn, deleted]
      exact listed'
    | some del =>
      exact follows.delete listed' (preserves n (Nat.lt_succ_self n)) (untouched n (Nat.lt_succ_self n)) deleted

end Run

/-- What is asked of a whole call: of each turn, and of every relocation that no turn touches, that after the call it
lies on its instruction and designates its byte. -/
structure RelaxPreserves : Prop where
  turn : ∀ i < turns inp s, TurnPreserves inp part (sectionAt inp s i) i
  call : ∀ (k : Nat) (rel : Rela nl ng), s.relocs[k]? = some rel →
    (∀ i < turns inp s, Untouched inp part s k rel.sym i) →
      ∃ rel', (bfdMipsElfRelaxSection inp s).2.relocs[k]? = some rel' ∧ Follows inp part s (turns inp s) k rel rel'

def inPlacePart (type : MipsReloc) (word : BfdVma) : BfdVma :=
  let howto := mipsElf32RtypeToHowto type
  let field := word &&& howto.srcMask
  if type.hi16RelocP || type.got16RelocP then ((field <<< 16).setWidth 32).setWidth 64
  else if type.lo16RelocP || type == .rMicromipsHi0Lo16 then (field.setWidth 16).signExtend 64
  else field <<< howto.rightshift

def plainInput : Input 2 0 where
  order := .big
  relocatable := false
  secReloc := true
  secCode := true
  self := 1
  base sec := if sec = 2 then 0x1000 else 0x400000
  hashes k := k.elim0
  beyond := ⟨0, .rMipsNone, .inl 0⟩

/-- A LUI with the high half `high`, two ADDIU with the same register, and a word. -/
def luiBytes (high word : BitVec 8) : List (BitVec 8) :=
  [0x41, 0xa2, 0, high, 0x30, 0x42, 0, 0, 0x30, 0x42, 0, 0, 0, 0, 0, word]

def luiSection (high word : BitVec 8) (label size : BfdVma) (relocs : List (Rela 2 0)) : CodeSection 2 0 where
  contents i := (luiBytes high word).getD i 0
  size := size
  relocs := relocs
  locals
    | 0 => ⟨2, 0x10, false⟩
    | 1 => ⟨1, label, false⟩
  entries _ := ⟨.new, 0, 0, false, false⟩

def highPart : Rela 2 0 := ⟨0, .rMicromipsHi16, .inl 0⟩

def lowPart (offset : BfdVma) : Rela 2 0 := ⟨offset, .rMicromipsLo16, .inl 0⟩

def labelWord : Rela 2 0 := ⟨12, .rMips32, .inl 1⟩

def pairSection : CodeSection 2 0 := luiSection 0 4 8 16 [highPart, lowPart 4, labelWord]

theorem pair_facts : ∀ c ∈ candidate plainInput pairSection 0, ∀ r ∈ relaxation plainInput pairSection 0 c,
    c.delAddr r = 0 ∧ r.delcnt = 4 ∧ r.relocs.length = 3 ∧
      ∀ k < 3, partner r.relocs k = none ∧ lost plainInput inPlacePart pairSection r k = 0 := by
  decide

theorem pair_balanced (k : Nat) : ∀ sym, Balanced plainInput inPlacePart pairSection 0 4 0 k sym
  | .inl 0 => ⟨fun here => absurd here (by decide), fun _ => rfl⟩
  | .inl 1 => by
    have lowered : timesLowered plainInput pairSection 0 4 (.inl 1) = 1 := by decide
    refine ⟨fun _ _ _ => ?_, fun _ => rfl⟩
    rw [lowered, if_pos (BitVec.le_def.mpr (Nat.zero_le _))]
    rfl

theorem pair_relaxes {c : Candidate 2 0} {r : Rewritten 2 0} (found : candidate plainInput pairSection 0 = some c)
    (chosen : relaxation plainInput pairSection 0 c = some r) :
    Relaxation.Condition plainInput inPlacePart pairSection 0 c r := by
  obtain ⟨addr, count, length, plain⟩ := pair_facts c found r chosen
  have few : ∀ {k : Nat} {new : Rela 2 0}, r.relocs[k]? = some new → k < 3 := fun listed =>
    length ▸ (List.getElem?_eq_some_iff.mp listed).1
  have single : ∀ j, 2 ≤ j → ¬ FedBy pairSection.relocs 0 c.rel.sym j := by
    rintro j far ⟨_, ⟨rel, listed, low⟩, _⟩
    have two : j = 2 := by
      have short : j < 3 := (List.getElem?_eq_some_iff.mp listed).1
      omega
    subst two
    cases listed
    exact Bool.false_ne_true low
  refine ⟨fun _ => single, by rw [addr, count]; decide, fun k new listed clear p other => ?_, fun k new listed clear => ?_⟩
  · rw [(plain k (few listed)).1] at other
    cases other
  · rw [(plain k (few listed)).2, addr, count]
    exact pair_balanced k new.sym

theorem pair_condition : ∀ i < turns plainInput pairSection,
    TurnCondition plainInput inPlacePart (sectionAt plainInput pairSection i) i := by
  have idle : ∀ i < turns plainInput pairSection, 0 < i →
      candidate plainInput (sectionAt plainInput pairSection i) i = none := by
    decide
  intro i more
  by_cases first : i = 0
  · subst first
    exact ⟨fun c found high pair => by decide, fun c r found chosen => pair_relaxes found chosen⟩
  · have none := idle i more (Nat.pos_of_ne_zero first)
    refine ⟨fun c found => ?_, fun c r found => ?_⟩
    · rw [none] at found
      cases found
    · rw [none] at found
      cases found

theorem unbalanced {s : CodeSection 2 0} (k : Nat) (new : Rela 2 0) (gone : BfdVma) (more : 0 < turns plainInput s)
    (deleted : (turn plainInput s 0).deletion.isSome = true)
    (facts : ∀ c ∈ candidate plainInput s 0, ∀ r ∈ relaxation plainInput s 0 c, c.delAddr r = 0 ∧ r.delcnt = 4 ∧
      r.relocs[k]? = some new ∧ lost plainInput inPlacePart s r k = gone)
    (clear : Clear s 0 4 new) (wrong : ¬ Balanced plainInput inPlacePart s 0 4 gone k new.sym) :
    ¬ RelaxPreserves plainInput inPlacePart s := by
  intro preserves
  obtain ⟨del, member⟩ := Option.isSome_iff_exists.mp deleted
  obtain ⟨c, r, found, chosen, _⟩ := mem_deletion.mp member
  obtain ⟨addr, count, listed, same⟩ := facts c found r chosen
  have inside := Nat.lt_of_lt_of_le more (turns_le plainInput s)
  have condition := ((turn_preserves_iff inPlacePart inside).mp (preserves.turn 0 more)).relaxes c r found chosen
  have balanced := condition.balanced k new listed
  rw [addr, count, same] at balanced
  exact wrong (balanced clear)

end Openisa.Relax
