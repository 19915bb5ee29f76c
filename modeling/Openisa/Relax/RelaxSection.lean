import Openisa.Relax.Opcodes
import Openisa.Relax.Section

/-! One call of the relaxation: a turn for each relocation of the section. -/

namespace Openisa.Relax

open Openisa.Bfd
open Openisa.Library.ByteStore

variable {nl ng : Nat} (inp : Input nl ng) (s : CodeSection nl ng) (i : Nat)

/-- `internal_relocs[k]`, also where there is no such relocation. -/
def relocAt (k : Nat) : Rela nl ng := s.relocs.getD k inp.beyond

def symbolValue (sym : Fin nl ⊕ Fin ng) : Option (BfdVma × Bool) :=
  match sym with
  | .inl k =>
      let isym := s.locals k
      some (isym.value + inp.base isym.sec, isym.isMicromips)
  | .inr k =>
      let h := s.entries (inp.hashes k)
      if h.isDefined then some (h.value + inp.base h.sec, !h.needsPlt && h.isMicromips) else none

def Rela.place (rel : Rela nl ng) : BfdVma × (Fin nl ⊕ Fin ng) := (rel.offset, rel.sym)

def Rela.isA (rel : Rela nl ng) (type : MipsReloc) (sym : Fin nl ⊕ Fin ng) : Bool :=
  rel.type == type && rel.sym == sym

structure LookAround where
  pass : Bool
  -- the relocations that were looked at
  read : List Nat
  deriving DecidableEq, Repr

/-- The tests of the relocations beside the `i`-th, one of type `R_MICROMIPS_HI16` against `sym`. -/
def lookAround (sym : Fin nl ⊕ Fin ng) : LookAround :=
  let read := if i > 0 then [i - 1] else []
  -- the previous reloc was a HI16 against this symbol too
  if i > 0 && (relocAt inp s (i - 1)).isA .rMicromipsHi16 sym then ⟨false, read⟩ else
  let read := read ++ if i + 1 ≥ s.relocs.length then [] else [i + 1]
  -- the next reloc is not a LO16 against this symbol
  if i + 1 ≥ s.relocs.length || !(relocAt inp s (i + 1)).isA .rMicromipsLo16 sym then ⟨false, read⟩ else
  let read := read ++ if i + 2 ≥ s.relocs.length then [i + 2] else []
  -- the second next reloc is a LO16 against this symbol too
  if i + 2 ≥ s.relocs.length && (relocAt inp s (i + 2)).isA .rMicromipsLo16 sym then ⟨false, read⟩ else
  ⟨true, read⟩

def checkRelocatedBzc (loc : Nat) (offset : BfdVma) : Bool :=
  (findMatch (bfdGetMicromips32 inp.order s.contents loc) bzcInsns32).isSome &&
    s.relocs.any fun irel => irel.offset == offset && irel.type == .rMicromipsPc16S1

/-- The instruction at `offset` may lie in a branch delay slot. -/
def delaySlotP (offset : BfdVma) : Bool :=
  let loc := offset.toNat
  let br16 := 2 ≤ offset && checkBr16Dslot inp.order s.contents (loc - 2) != 0
  let bzc := br16 && 4 ≤ offset && checkRelocatedBzc inp s (loc - 4) (offset - 4)
  (br16 && !bzc) || (4 ≤ offset && !bzc && checkBr32Dslot inp.order s.contents (loc - 4) != 0)

/-- The two instructions are adjacent, or have a branch or jump between them that leaves the register
alone. -/
def pairAdjacentP (loc : Nat) (offset reg : BfdVma) : Bool :=
  if offset - 4 = 0 then true
  else if offset - 4 = 2 then checkBr16 inp.order s.contents (loc + 4) reg
  else if offset - 4 = 4 then checkBr32 inp.order s.contents (loc + 4) reg
  else false

structure Rewritten (nl ng : Nat) where
  contents : Store
  relocs : List (Rela nl ng)
  delcnt : Nat
  deloff : Nat

/-- Gives the `k`-th relocation another type. -/
def setType (relocs : List (Rela nl ng)) (k : Nat) (type : MipsReloc) : List (Rela nl ng) :=
  relocs.modify k fun rel => { rel with type := type }

/-- The instruction of the `R_MICROMIPS_LO16` as it is without the high part. -/
def relaxLo16 (symval pcrval nextopc : BfdVma) (loc : Nat) : Option (MipsReloc × Store) :=
  if isBitsize symval 16 then
    let nextopc := nextopc &&& ~~~0x001f0000
    some (.rMicromipsHi0Lo16, bfdPut16 inp.order ((nextopc >>> 16) &&& 0xffff) s.contents loc)
  else if symval % 4 = 0 ∧ isBitsize (pcrval + 4) 25 ∧ matchInsn nextopc addiuInsn ∧
      op32Treg nextopc = op32Sreg nextopc ∧ op16ValidReg (op32Treg nextopc) then
    let nextopc := addiupcInsn.match ||| addiupcRegField (op32Treg nextopc)
    some (.rMicromipsPc23S2, bfdPutMicromips32 inp.order s.contents loc nextopc)
  else none

def relaxPair (rel : Rela nl ng) (opcode symval pcrval : BfdVma) : Option (Rewritten nl ng) :=
  let next := relocAt inp s (i + 1)
  let reg := op32Sreg opcode
  let offset := next.offset - rel.offset
  let nextopc := bfdGetMicromips32 inp.order s.contents next.offset.toNat
  if delaySlotP inp s rel.offset then none
  else if !pairAdjacentP inp s rel.offset.toNat offset reg then none
  else if op32Sreg nextopc ≠ reg then none
  else
    let pcrval := ((pcrval - offset + 3) ||| 3) ^^^ 3
    (relaxLo16 inp s symval pcrval nextopc next.offset.toNat).map fun (type, contents) =>
      { contents := contents, relocs := setType (setType s.relocs (i + 1) type) i .rMipsNone
        delcnt := 4, deloff := 0 }

def bzReg (opcode : BfdVma) : BfdVma := if op32Sreg opcode ≠ 0 then op32Sreg opcode else op32Treg opcode

def bzIndex (rsP rtP : Bool) (opcode : BfdVma) : Option Nat :=
  match findMatch opcode bzRsInsns32 with
  | some fndopc => if rsP then some fndopc else (findMatch opcode bzRtInsns32).filter fun _ => rtP
  | none => (findMatch opcode bzRtInsns32).filter fun _ => rtP

def insnAt (insns : List OpcodeDescriptor) (fndopc : Nat) : BfdVma :=
  (insns.getD fndopc ⟨0, 0⟩).match

/-- Relaxation of a branch, an `R_MICROMIPS_PC16_S1`. -/
def relaxBranch (rel : Rela nl ng) (opcode pcrval : BfdVma) : Option (Rewritten nl ng) :=
  let loc := rel.offset.toNat
  let compact := (bzIndex true true opcode).filter fun _ =>
    decide (rel.offset + 5 < s.size) && matchInsn (bfdGet16 inp.order s.contents (loc + 4)) nopInsn16
  match compact with
  | some fndopc =>
      -- the compact version, without the NOP in the delay slot
      let opcode := insnAt bzcInsns32 fndopc ||| bzc32RegField (bzReg opcode) ||| (opcode &&& 0xffff)
      some { contents := bfdPutMicromips32 inp.order s.contents loc opcode, relocs := s.relocs
             delcnt := 2, deloff := 4 }
  | none =>
      if isBitsize (pcrval - 2) 11 ∧ (findMatch opcode bInsns32).isSome then
        some { contents := bfdPut16 inp.order (bInsn16.match ||| (opcode &&& 0x3ff)) s.contents loc
               relocs := setType s.relocs i .rMicromipsPc10S1, delcnt := 2, deloff := 2 }
      else
        ((bzIndex (op16ValidReg (op32Sreg opcode)) (op16ValidReg (op32Treg opcode)) opcode).filter fun _ =>
          isBitsize (pcrval - 2) 8).map fun fndopc =>
          { contents := bfdPut16 inp.order
              (insnAt bzInsns16 fndopc ||| bz16RegField (bzReg opcode) ||| (opcode &&& 0x7f)) s.contents loc
            relocs := setType s.relocs i .rMicromipsPc7S1, delcnt := 2, deloff := 2 }

def shortDelaySlot (n32opc : BfdVma) : Option BfdVma :=
  if matchInsn n32opc nopInsn32 then some nopInsn16.match
  else if (findMatch n32opc moveInsns32).isSome then
    some (moveInsn16.match ||| move16RdField (move32Rd n32opc) ||| move16RsField (move32Rs n32opc))
  else none

def relaxJal (rel : Rela nl ng) (opcode : BfdVma) (targetIsMicromips : Bool) : Option (Rewritten nl ng) :=
  let loc := rel.offset.toNat
  if targetIsMicromips && decide (rel.offset + 7 < s.size) && matchInsn opcode jalInsn32Bd32 then
    (shortDelaySlot (bfdGetMicromips32 inp.order s.contents (loc + 4))).map fun n16opc =>
      { contents := bfdPutMicromips32 inp.order (bfdPut16 inp.order n16opc s.contents (loc + 4)) loc
          jalInsn32Bd16.match
        relocs := s.relocs, delcnt := 2, deloff := 6 }
  else none

/-- A call of `mips_elf_relax_delete_bytes`. -/
structure Deletion (nl ng : Nat) where
  before : CodeSection nl ng
  addr : BfdVma
  count : Nat

structure Turn (nl ng : Nat) where
  read : List Nat
  deletion : Option (Deletion nl ng)

/-- The relocation, the value of its symbol and the instruction word, if the turn gets so far. -/
structure Candidate (nl ng : Nat) where
  rel : Rela nl ng
  symval : BfdVma
  targetIsMicromips : Bool
  opcode : BfdVma

def candidate : Option (Candidate nl ng) :=
  let rel := relocAt inp s i
  if rel.type ≠ .rMicromipsHi16 ∧ rel.type ≠ .rMicromipsPc16S1 ∧ rel.type ≠ .rMicromips26S1 then none else
  match symbolValue inp s rel.sym with
  | none => none
  | some (symval, targetIsMicromips) =>
      -- only 32-bit instructions are relaxed
      if rel.offset + 4 > s.size then none
      else some ⟨rel, symval, targetIsMicromips, bfdGetMicromips32 inp.order s.contents rel.offset.toNat⟩

def Candidate.pcrval (c : Candidate nl ng) : BfdVma := c.symval - inp.base inp.self - c.rel.offset

def Candidate.isHigh (c : Candidate nl ng) : Bool :=
  c.rel.type == .rMicromipsHi16 && matchInsn c.opcode luiInsn

def relaxation (c : Candidate nl ng) : Option (Rewritten nl ng) :=
  if c.isHigh then
    if (lookAround inp s i c.rel.sym).pass then relaxPair inp s i c.rel c.opcode c.symval (c.pcrval inp) else none
  else if c.rel.type = .rMicromipsPc16S1 then relaxBranch inp s i c.rel c.opcode (c.pcrval inp)
  else if c.rel.type = .rMicromips26S1 then relaxJal inp s c.rel c.opcode c.targetIsMicromips
  else none

def rewritten (r : Rewritten nl ng) : CodeSection nl ng := { s with contents := r.contents, relocs := r.relocs }

def Candidate.delAddr (c : Candidate nl ng) (r : Rewritten nl ng) : BfdVma := c.rel.offset + BitVec.ofNat 64 r.deloff

def turn : Turn nl ng :=
  match candidate inp s i with
  | none => ⟨[], none⟩
  | some c =>
      ⟨if c.isHigh then (lookAround inp s i c.rel.sym).read else [],
        (relaxation inp s i c).map fun r => ⟨rewritten s r, c.delAddr r, r.delcnt⟩⟩

def Deletion.after (del : Deletion nl ng) : CodeSection nl ng :=
  mipsElfRelaxDeleteBytes inp del.before del.addr del.count

def afterTurn : CodeSection nl ng :=
  match (turn inp s i).deletion with
  | none => s
  | some del => del.after inp

/-- Nothing is done in a relocatable link, without relocations, or if the section is no code. -/
def turns : Nat := if inp.relocatable || !inp.secReloc || !inp.secCode then 0 else s.relocs.length

/-- The section before the turn for the `i`-th relocation. -/
def sectionAt : Nat → CodeSection nl ng
  | 0 => s
  | i + 1 => afterTurn inp (sectionAt i) i

/-- The section after the call, and whether something was deleted. -/
def bfdMipsElfRelaxSection : Bool × CodeSection nl ng :=
  ((List.range (turns inp s)).any fun i => (turn inp (sectionAt inp s i) i).deletion.isSome,
    sectionAt inp s (turns inp s))

theorem reloc_at_listed {k : Nat} (inside : k < s.relocs.length) : s.relocs[k]? = some (relocAt inp s k) := by
  rw [relocAt, List.getD_eq_getElem?_getD, List.getElem?_eq_getElem inside]
  rfl

section Shape

variable {inp s i}

theorem set_type_place (relocs : List (Rela nl ng)) (k : Nat) (type : MipsReloc) :
    (setType relocs k type).map Rela.place = relocs.map Rela.place := by
  apply List.ext_getElem?
  intro n
  simp only [setType, List.getElem?_map, List.getElem?_modify]
  cases relocs[n]? with
  | none => rfl
  | some rel =>
    by_cases here : k = n <;> simp [here, Rela.place]

theorem relax_pair_shape {rel : Rela nl ng} {opcode symval pcrval : BfdVma} {r : Rewritten nl ng}
    (rewritten : relaxPair inp s i rel opcode symval pcrval = some r) :
    r.delcnt = 4 ∧ r.relocs.map Rela.place = s.relocs.map Rela.place := by
  unfold relaxPair at rewritten
  dsimp only at rewritten
  split at rewritten
  · cases rewritten
  · split at rewritten
    · cases rewritten
    · split at rewritten
      · cases rewritten
      · obtain ⟨_, _, rfl⟩ := Option.map_eq_some_iff.mp rewritten
        exact ⟨rfl, by rw [set_type_place, set_type_place]⟩

theorem relax_branch_shape {rel : Rela nl ng} {opcode pcrval : BfdVma} {r : Rewritten nl ng}
    (rewritten : relaxBranch inp s i rel opcode pcrval = some r) :
    r.delcnt = 2 ∧ r.relocs.map Rela.place = s.relocs.map Rela.place := by
  unfold relaxBranch at rewritten
  dsimp only at rewritten
  split at rewritten
  · cases rewritten
    exact ⟨rfl, rfl⟩
  · split at rewritten
    · cases rewritten
      exact ⟨rfl, set_type_place _ _ _⟩
    · obtain ⟨_, _, rfl⟩ := Option.map_eq_some_iff.mp rewritten
      exact ⟨rfl, set_type_place _ _ _⟩

theorem relax_jal_shape {rel : Rela nl ng} {opcode : BfdVma} {micromips : Bool} {r : Rewritten nl ng}
    (rewritten : relaxJal inp s rel opcode micromips = some r) :
    r.delcnt = 2 ∧ r.relocs.map Rela.place = s.relocs.map Rela.place := by
  unfold relaxJal at rewritten
  dsimp only at rewritten
  split at rewritten
  · obtain ⟨_, _, rfl⟩ := Option.map_eq_some_iff.mp rewritten
    exact ⟨rfl, rfl⟩
  · cases rewritten

theorem relaxation_shape {c : Candidate nl ng} {r : Rewritten nl ng} (chosen : relaxation inp s i c = some r) :
    (r.delcnt = 4 ∨ r.delcnt = 2) ∧ r.relocs.map Rela.place = s.relocs.map Rela.place := by
  unfold relaxation at chosen
  split at chosen
  · split at chosen
    · obtain ⟨four, kept⟩ := relax_pair_shape chosen
      exact ⟨.inl four, kept⟩
    · cases chosen
  · split at chosen
    · obtain ⟨two, kept⟩ := relax_branch_shape chosen
      exact ⟨.inr two, kept⟩
    · split at chosen
      · obtain ⟨two, kept⟩ := relax_jal_shape chosen
        exact ⟨.inr two, kept⟩
      · cases chosen

theorem mem_deletion {del : Deletion nl ng} : del ∈ (turn inp s i).deletion ↔
    ∃ c r, candidate inp s i = some c ∧ relaxation inp s i c = some r ∧
      del = ⟨rewritten s r, c.delAddr r, r.delcnt⟩ := by
  unfold turn
  cases found : candidate inp s i with
  | none => simp
  | some c => simp [Option.mem_def, eq_comm]

theorem candidate_rel {c : Candidate nl ng} (found : candidate inp s i = some c) : c.rel = relocAt inp s i := by
  unfold candidate at found
  dsimp only at found
  split at found
  · cases found
  · split at found
    · cases found
    · split at found
      · cases found
      · cases found
        rfl

/-- Before a deletion only contents and types of relocations were changed; two or four bytes are deleted. -/
structure Deletion.Of (del : Deletion nl ng) (s : CodeSection nl ng) : Prop where
  positive : 0 < del.count
  few : del.count ≤ 4
  size : del.before.size = s.size
  relocs : del.before.relocs.map Rela.place = s.relocs.map Rela.place
  locals : del.before.locals = s.locals
  entries : del.before.entries = s.entries

theorem deletion_shape {del : Deletion nl ng} (deleted : del ∈ (turn inp s i).deletion) : del.Of s := by
  obtain ⟨c, r, _, chosen, rfl⟩ := mem_deletion.mp deleted
  obtain ⟨few, kept⟩ := relaxation_shape chosen
  exact ⟨by dsimp only; omega, by dsimp only; omega, rfl, kept, rfl, rfl⟩

theorem Deletion.Of.length {del : Deletion nl ng} (shape : del.Of s) :
    del.before.relocs.length = s.relocs.length := by
  have lengths := congrArg List.length shape.relocs
  rwa [List.length_map, List.length_map] at lengths

theorem Deletion.Of.reloc {del : Deletion nl ng} (shape : del.Of s) {k : Nat} {rel rel' : Rela nl ng}
    (listed : s.relocs[k]? = some rel) (listed' : del.before.relocs[k]? = some rel') :
    rel'.offset = rel.offset ∧ rel'.sym = rel.sym := by
  have places := congrArg (fun l => l[k]?) shape.relocs
  simp only [List.getElem?_map, listed, listed', Option.map_some, Option.some.injEq, Rela.place,
    Prod.mk.injEq] at places
  exact places

end Shape

theorem after_turn_length : (afterTurn inp s i).relocs.length = s.relocs.length := by
  unfold afterTurn
  split
  · rfl
  · rename_i del deleted
    rw [← (deletion_shape deleted).length]
    exact List.length_map _

theorem section_at_length : (sectionAt inp s i).relocs.length = s.relocs.length := by
  induction i with
  | zero => rfl
  | succ i ih => rw [sectionAt, after_turn_length, ih]

theorem turns_le : turns inp s ≤ s.relocs.length := by
  unfold turns
  split
  · exact Nat.zero_le _
  · exact Nat.le_refl _

end Openisa.Relax
