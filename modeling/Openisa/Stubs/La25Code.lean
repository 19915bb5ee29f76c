import Openisa.Relax.Opcodes
import Openisa.Stubs.HiLoCode
import Openisa.Stubs.La25Layout

/-! The code of the stubs that load $25, and what it does. -/

namespace Openisa.Stubs

open Openisa.Bfd
open Openisa.Elf
open Openisa.Library
open Openisa.Library.ByteStore
open Openisa.Library.Mips

structure StubContents where
  strampoline : Store
  intros : Nat → Store

variable {η : Type}

/-- The words of a stub before the function and of a trampoline, for standard code and for microMIPS code. -/
def introWords (micromips : Bool) (target : BfdVma) : List BfdVma :=
  if micromips then [0x41b90000 ||| highOperand target, 0x33390000 ||| lowOperand target]
  else [0x3c190000 ||| highOperand target, 0x27390000 ||| lowOperand target]

def trampolineWords (micromips : Bool) (target : BfdVma) : List BfdVma :=
  if micromips then
    [0x41b90000 ||| highOperand target, 0xd4000000 ||| ((target >>> 1) &&& 0x3ffffff), 0x33390000 ||| lowOperand target]
  else [0x3c190000 ||| highOperand target, 0x08000000 ||| jumpOperand target, 0x27390000 ||| lowOperand target]

def putInstruction (order : Endian) (micromips : Bool) (word : BfdVma) (d : Store) (loc : Nat) : Store :=
  if micromips then Relax.bfdPutMicromips32 order d loc word else bfdPut32 order word d loc

/-- `mips_elf_create_la25_stub`. A section starts out with zeros before its stub; a trampoline ends with a nop. -/
def mipsElfCreateLa25Stub (order : Endian) (symbol : η → FunctionSymbol) (c : StubContents) (stub : La25Stub η) :
    StubContents :=
  let s := symbol stub.h
  let micromips := s.isa = .micromips
  match stub.place with
  | .intro i =>
      let zeroed : Store := fun k => if k < stub.offset then 0 else c.intros i k
      { c with
        intros := Function.update c.intros i
          (putWords (putInstruction order micromips) (introWords micromips s.la25Address) zeroed stub.offset) }
  | .trampoline =>
      let coded := putWords (putInstruction order micromips) (trampolineWords micromips s.la25Address) c.strampoline stub.offset
      { c with strampoline := bfdPut32 order 0 coded (stub.offset + 12) }

def createLa25Stubs (order : Endian) (symbol : η → FunctionSymbol) (slots : List (La25Stub η)) (c : StubContents) :
    StubContents :=
  slots.foldl (mipsElfCreateLa25Stub order symbol) c

def StubContents.at (c : StubContents) : StubPlace → Store
  | .trampoline => c.strampoline
  | .intro i => c.intros i

section Create

variable (order : Endian) (symbol : η → FunctionSymbol)

theorem putInstruction_outside (micromips : Bool) (word : BfdVma) (d : Store) (loc k : Nat)
    (outside : k < loc ∨ loc + 4 ≤ k) : putInstruction order micromips word d loc k = d k := by
  unfold putInstruction
  split
  · unfold Relax.bfdPutMicromips32 bfdPut16 bfdPut
    rw [store_outside order 2 _ _ _ k (by omega), store_outside order 2 _ _ _ k (by omega)]
  · exact bfdPut32_outside order word d loc k outside

theorem create_other_place (c : StubContents) (stub : La25Stub η) {place : StubPlace} (other : place ≠ stub.place) :
    (mipsElfCreateLa25Stub order symbol c stub).at place = c.at place := by
  unfold mipsElfCreateLa25Stub
  cases within : stub.place with
  | trampoline =>
    cases place with
    | trampoline => exact absurd within.symm other
    | «intro» i => rfl
  | «intro» i =>
    cases place with
    | trampoline => rfl
    | «intro» j =>
      have apart : j ≠ i := fun same => other (by rw [same, within])
      simp [StubContents.at, apart]

theorem create_other_trampoline (c : StubContents) (stub : La25Stub η) (within : stub.place = .trampoline) {k : Nat}
    (outside : k < stub.offset ∨ stub.offset + 16 ≤ k) :
    (mipsElfCreateLa25Stub order symbol c stub).strampoline k = c.strampoline k := by
  have length : ∀ micromips target, (trampolineWords micromips target).length = 3 := by
    intro micromips target
    cases micromips <;> rfl
  unfold mipsElfCreateLa25Stub
  rw [within]
  dsimp only
  rw [bfdPut32_outside order _ _ _ k (by omega),
    putWords_outside (putInstruction_outside order _) _ _ (by rw [length]; omega)]

def La25Stub.words (stub : La25Stub η) : List BfdVma :=
  match stub.place with
  | .trampoline => trampolineWords false (symbol stub.h).la25Address
  | .intro _ => introWords false (symbol stub.h).la25Address

def Coded (stub : La25Stub η) (c : StubContents) : Prop :=
  WordsAt order (c.at stub.place) stub.offset (stub.words symbol)

theorem create_coded (c : StubContents) (stub : La25Stub η) (standard : (symbol stub.h).isa ≠ .micromips) :
    Coded order symbol stub (mipsElfCreateLa25Stub order symbol c stub) := by
  obtain ⟨place, offset, h⟩ := stub
  have code : decide ((symbol h).isa = .micromips) = false := decide_eq_false standard
  have plain : putInstruction order false = bfdPut32 order := rfl
  cases place with
  | trampoline =>
    have coded := putWords_at order (trampolineWords false (symbol h).la25Address) c.strampoline offset
    simp only [Coded, mipsElfCreateLa25Stub, StubContents.at, La25Stub.words, code, plain]
    refine coded.congr fun k _ high => bfdPut32_outside order _ _ _ k ?_
    have three : (trampolineWords false (symbol h).la25Address).length = 3 := rfl
    omega
  | «intro» j =>
    simp only [Coded, mipsElfCreateLa25Stub, StubContents.at, La25Stub.words, code, plain, Function.update_self]
    exact putWords_at order _ _ _

section Run

variable {st : StubState η} {a b : La25Stub η}

theorem StubState.Laid.separate (laid : st.Laid) (first : a ∈ st.stubs) (second : b ∈ st.stubs) (other : a ≠ b)
    (shared : a.place = b.place) :
    a.place = .trampoline ∧ (a.offset + 16 ≤ b.offset ∨ b.offset + 16 ≤ a.offset) := by
  have either : st.stubs.Pairwise fun a b => a.Apart b ∨ b.Apart a := laid.apart.imp Or.inl
  have symmetric : Std.Symm fun a b : La25Stub η => a.Apart b ∨ b.Apart a := ⟨fun _ _ => Or.symm⟩
  have bytes : a.offset + 16 ≤ b.offset ∨ b.offset + 16 ≤ a.offset :=
    (either.forall first second other).imp (fun apart => apart shared) (fun apart => apart shared.symm)
  cases within : a.place with
  | trampoline => exact ⟨rfl, bytes⟩
  | «intro» i =>
    obtain ⟨sec, present, before⟩ := (laid.fits a first).intro i within
    obtain ⟨sec', present', before'⟩ := (laid.fits b second).intro i (shared ▸ within)
    have same : sec = sec' := Option.some.inj (present.symm.trans present')
    have ends := before.ends
    have ends' := before'.ends
    subst same
    omega

theorem create_keeps_coded (laid : st.Laid) (first : a ∈ st.stubs) (second : b ∈ st.stubs) (other : b ≠ a)
    (c : StubContents) (coded : Coded order symbol b c) :
    Coded order symbol b (mipsElfCreateLa25Stub order symbol c a) := by
  unfold Coded
  by_cases shared : b.place = a.place
  · obtain ⟨within, apart⟩ := laid.separate second first other shared
    have three : (b.words symbol).length = 3 := by
      rw [La25Stub.words, within]
      rfl
    refine coded.congr fun k low high => ?_
    rw [within]
    exact create_other_trampoline order symbol c a (shared ▸ within) (by omega)
  · rw [create_other_place order symbol c a shared]
    exact coded

theorem createLa25Stubs_coded (laid : st.Laid) {slots : List (La25Stub η)} (all : slots.Perm st.stubs) (c : StubContents)
    {stub : La25Stub η} (member : stub ∈ st.stubs) (standard : (symbol stub.h).isa ≠ .micromips) :
    Coded order symbol stub (createLa25Stubs order symbol slots c) := by
  have brings : ∀ a ∈ slots, ∀ d e, e = mipsElfCreateLa25Stub order symbol d a → True →
      a ∈ st.stubs → (symbol a.h).isa ≠ .micromips → Coded order symbol a e := by
    rintro a _ d _ rfl _ _ standard
    exact create_coded order symbol d a standard
  have stays : ∀ a ∈ slots, ∀ b d e, e = mipsElfCreateLa25Stub order symbol d a → True →
      (b ∈ st.stubs → (symbol b.h).isa ≠ .micromips → Coded order symbol b d) →
      b ∈ st.stubs → (symbol b.h).isa ≠ .micromips → Coded order symbol b e := by
    rintro a inSlots b d _ rfl _ before member standard
    by_cases same : b = a
    · exact same ▸ create_coded order symbol d b (same ▸ standard)
    · exact create_keeps_coded order symbol laid (all.mem_iff.mp inSlots) member same d (before member standard)
  have done := (Run.of_foldl (mipsElfCreateLa25Stub order symbol) slots c).each (fun _ _ _ _ _ _ => trivial)
    brings stays trivial
  exact done stub (all.mem_iff.mpr member) member standard

end Run

end Create

end Openisa.Stubs
