import Openisa.Stubs.La25Code

/-! What a processor does that enters a stub: it reaches the function with its address in $25. -/

namespace Openisa.Stubs

open Openisa.Bfd
open Openisa.Elf
open Openisa.Library
open Openisa.Library.ByteStore
open Openisa.Library.Mips

section Regions

theorem region_append (target : Word) (place : aligned target = true) :
    target.extractLsb' 28 4 ++ target.extractLsb' 2 26 ++ (0 : BitVec 2) = target := by
  have low : target.extractLsb' 0 2 = 0 := by
    apply BitVec.eq_of_toNat_eq
    simpa [BitVec.extractLsb'_toNat, aligned] using place
  rw [← low, BitVec.append_assoc, BitVec.extractLsb'_append_extractLsb'_eq_extractLsb' (by rfl)]
  exact (BitVec.extractLsb'_append_extractLsb'_eq_extractLsb' (by rfl)).trans BitVec.extractLsb'_eq_self

theorem region_jump (here target : Word) (place : aligned target = true) :
    here.extractLsb' 28 4 ++ target.extractLsb' 2 26 ++ (0 : BitVec 2) = target ↔
      here.extractLsb' 28 4 = target.extractLsb' 28 4 := by
  constructor
  · intro reached
    have top := extract_above (here.extractLsb' 28 4 ++ target.extractLsb' 2 26) (0 : BitVec 2) 26 4
    rw [reached] at top
    exact (top.trans ((extract_above (here.extractLsb' 28 4) (target.extractLsb' 2 26) 0 4).trans
      BitVec.extractLsb'_eq_self)).symm
  · intro same
    rw [same]
    exact region_append target place

end Regions

section Code

variable {order : Endian} {mem : Store} {entry target : Word}

theorem lui_begins (reg : RegNumber → Word) (loading : Option (RegNumber × Word)) (pc nextPc : Word) :
    (Instr.lui 25 (highHalf target)).effect order mem ⟨reg, loading, pc, nextPc⟩ =
      some ⟨some (25, highHalf target ++ (0 : Half)), none, none⟩ := rfl

theorem j_leaves (reg : RegNumber → Word) (loading : Option (RegNumber × Word)) (pc nextPc : Word) :
    (Instr.j (target.extractLsb' 2 26)).effect order mem ⟨reg, loading, pc, nextPc⟩ =
      some ⟨none, none, some (nextPc.extractLsb' 28 4 ++ target.extractLsb' 2 26 ++ (0 : BitVec 2))⟩ := rfl

theorem addiu_completes (reg : RegNumber → Word) (pc nextPc : Word) :
    (Instr.addiu 25 25 (lowHalf target)).effect order mem
        ⟨Function.update reg 25 (highHalf target ++ (0 : Half)), none, pc, nextPc⟩ =
      some ⟨some (25, target), none, none⟩ := by
  rw [Instr.effect, State.get_update (by decide), halves_add]

variable (place : aligned entry = true)
  (upper : readWord order mem entry = (Instr.lui 25 (highHalf target)).encode)
  (interlocks : Bool) (reg : RegNumber → Word) (loading : Option (RegNumber × Word))
include place upper

theorem intro_runs (lower : readWord order mem (entry + 4) = (Instr.addiu 25 25 (lowHalf target)).encode) :
    steps order mem interlocks 2 ⟨reg, loading, entry, entry + 4⟩ =
      some ⟨Function.update (write loading reg) 25 target, none, entry + 4 + 4, entry + 4 + 4 + 4⟩ := by
  rw [steps_result place upper (lui_begins reg loading entry (entry + 4)),
    steps_result (aligned_next place) lower (addiu_completes _ _ _), steps, write_none, Function.update_idem]

theorem trampoline_runs (leave : readWord order mem (entry + 4) = (Instr.j (target.extractLsb' 2 26)).encode)
    (lower : readWord order mem (entry + 4 + 4) = (Instr.addiu 25 25 (lowHalf target)).encode) :
    ∃ pc, steps order mem interlocks 3 ⟨reg, loading, entry, entry + 4⟩ =
        some ⟨Function.update (write loading reg) 25 target, none, pc, pc + 4⟩ ∧
      pc = (entry + 4 + 4).extractLsb' 28 4 ++ target.extractLsb' 2 26 ++ (0 : BitVec 2) := by
  refine ⟨_, ?_, rfl⟩
  rw [steps_result place upper (lui_begins reg loading entry (entry + 4)),
    steps_jump (aligned_next place) leave (j_leaves _ _ _ _), write_none,
    steps_result (aligned_next (aligned_next place)) lower (addiu_completes _ _ _), steps, write_none,
    Function.update_idem]

end Code

def nextAligned (power address : Nat) : Nat := (address + (2 ^ power - 1)) / 2 ^ power * 2 ^ power

theorem nextAligned_self {power address : Nat} (whole : 2 ^ power ∣ address) : nextAligned power address = address := by
  obtain ⟨count, rfl⟩ := whole
  have positive : 0 < 2 ^ power := Nat.two_pow_pos power
  rw [nextAligned, Nat.mul_add_div positive, Nat.div_eq_of_lt (by omega), Nat.add_zero, Nat.mul_comm]

/-- The section goes immediately before another, which starts at the next address that suits it. -/
structure IntroSection.Precedes (sec : IntroSection) (base : Word) : Prop where
  place : 2 ^ sec.alignmentPower ∣ base.toNat
  next : (sec.before.base.setWidth 32).toNat = nextAligned sec.before.alignmentPower (base.toNat + sec.size)

variable {η : Type}

structure StubState.Image (st : StubState η) (mem : Store) (c : StubContents) (base : StubPlace → Word) : Prop where
  trampoline : ∀ size, st.strampoline = some size →
    16 ∣ (base .trampoline).toNat ∧ Loaded mem (base .trampoline) size c.strampoline
  «intro» : ∀ i sec, st.intros[i]? = some sec →
    sec.Precedes (base (.intro i)) ∧ Loaded mem (base (.intro i)) sec.size (c.intros i)

def La25Stub.entry (stub : La25Stub η) (base : StubPlace → Word) : Word := base stub.place + BitVec.ofNat 32 stub.offset

section Enter

variable {order : Endian} {symbol : η → FunctionSymbol} {st : StubState η} {mem : Store} {c : StubContents}
  {base : StubPlace → Word} {stub : La25Stub η}

theorem lui_word (value : BfdVma) :
    (0x3c190000 ||| highOperand value).setWidth 32 = (Instr.lui 25 (highHalf (value.setWidth 32))).encode :=
  template_high (by decide) value

theorem j_word (value : BfdVma) :
    (0x08000000 ||| jumpOperand value).setWidth 32 = (Instr.j ((value.setWidth 32).extractLsb' 2 26)).encode :=
  template_jump (by decide) value

theorem addiu_word (value : BfdVma) :
    (0x27390000 ||| lowOperand value).setWidth 32 = (Instr.addiu 25 25 (lowHalf (value.setWidth 32))).encode :=
  template_low (by decide) value

def La25Stub.target (stub : La25Stub η) (symbol : η → FunctionSymbol) : Word :=
  (symbol stub.h).la25Address.setWidth 32

variable (interlocks : Bool) (reg : RegNumber → Word) (loading : Option (RegNumber × Word))

theorem trampoline_enters (fits : st.Fits stub) (image : st.Image mem c base) (coded : Coded order symbol stub c)
    (within : stub.place = .trampoline) :
    ∃ pc, steps order mem interlocks 3 ⟨reg, loading, stub.entry base, stub.entry base + 4⟩ =
        some ⟨Function.update (write loading reg) 25 (stub.target symbol), none, pc, pc + 4⟩ ∧
      pc = (stub.entry base + 4 + 4).extractLsb' 28 4 ++ (stub.target symbol).extractLsb' 2 26 ++ (0 : BitVec 2) := by
  obtain ⟨size, present, room, whole⟩ := fits.trampoline within
  obtain ⟨place, loaded⟩ := image.trampoline size present
  have loadedHere : Loaded mem (base stub.place) size (c.at stub.place) := by
    rw [within]
    exact loaded
  have code : WordsAt order (c.at stub.place) stub.offset (trampolineWords false (symbol stub.h).la25Address) := by
    unfold Coded La25Stub.words at coded
    rwa [within] at coded ⊢
  have inside : stub.offset + 4 * (trampolineWords false (symbol stub.h).la25Address).length ≤ size := by
    have three : (trampolineWords false (symbol stub.h).la25Address).length = 3 := rfl
    omega
  have entered : aligned (stub.entry base) = true := by
    have top := loaded.room
    rw [La25Stub.entry, within]
    refine aligned_offset ?_ (by omega) (by omega)
    rw [aligned, decide_eq_true_eq]
    omega
  have upper := code.readWord loadedHere inside (i := 0) rfl (BitVec.add_zero (stub.entry base)).symm
  have leave := code.readWord loadedHere inside (i := 1) rfl (show stub.entry base + 4 = _ from rfl)
  have lower := code.readWord loadedHere inside (i := 2) rfl (two_words (stub.entry base))
  exact trampoline_runs entered (upper.trans (lui_word _)) interlocks reg loading (leave.trans (j_word _))
    (lower.trans (addiu_word _))

theorem intro_falls_through (image : st.Image mem c base) {i : Nat} {sec : IntroSection} (within : stub.place = .intro i)
    (present : st.intros[i]? = some sec) (before : st.Before stub sec) :
    (stub.target st.symbol).toNat = (stub.entry base).toNat + 8 := by
  obtain ⟨precedes, loaded⟩ := image.intro i sec present
  have room := loaded.room
  have ends := before.ends
  have address : (st.symbol stub.h).la25Address = sec.before.base := by
    rw [FunctionSymbol.la25Address, before.start, before.before, zero_add]
  have next := precedes.next
  rw [← before.alignment, nextAligned_self (Dvd.dvd.add precedes.place before.whole)] at next
  have entry : (stub.entry base).toNat = (base (.intro i)).toNat + stub.offset := by
    rw [La25Stub.entry, within, BitVec.toNat_add, BitVec.toNat_ofNat, Nat.mod_eq_of_lt (show stub.offset < 2 ^ 32 by omega),
      Nat.mod_eq_of_lt (by omega)]
  rw [La25Stub.target, address, next, entry]
  omega

theorem intro_enters (image : st.Image mem c base) (coded : Coded order st.symbol stub c) {i : Nat} {sec : IntroSection}
    (within : stub.place = .intro i) (present : st.intros[i]? = some sec) (before : st.Before stub sec)
    (words : aligned (stub.target st.symbol) = true) :
    steps order mem interlocks 2 ⟨reg, loading, stub.entry base, stub.entry base + 4⟩ =
      some ⟨Function.update (write loading reg) 25 (stub.target st.symbol), none, stub.target st.symbol,
        stub.target st.symbol + 4⟩ := by
  have follows := intro_falls_through image within present before
  obtain ⟨_, loaded⟩ := image.intro i sec present
  have ends := before.ends
  have loadedHere : Loaded mem (base stub.place) sec.size (c.at stub.place) := by
    rw [within]
    exact loaded
  have code : WordsAt order (c.at stub.place) stub.offset (introWords false (st.symbol stub.h).la25Address) := by
    unfold Coded La25Stub.words at coded
    rwa [within] at coded ⊢
  have inside : stub.offset + 4 * (introWords false (st.symbol stub.h).la25Address).length ≤ sec.size := by
    have two : (introWords false (st.symbol stub.h).la25Address).length = 2 := rfl
    omega
  have entered : aligned (stub.entry base) = true := by
    rw [aligned, decide_eq_true_eq] at words ⊢
    omega
  have last : stub.entry base + 4 + 4 = stub.target st.symbol := by
    have below := (stub.target st.symbol).isLt
    have eight : (BitVec.ofNat 32 (4 * 2)).toNat = 8 := rfl
    apply BitVec.eq_of_toNat_eq
    rw [two_words, BitVec.toNat_add, eight, follows, Nat.mod_eq_of_lt (by omega)]
  have upper := code.readWord loadedHere inside (i := 0) rfl (BitVec.add_zero (stub.entry base)).symm
  have lower := code.readWord loadedHere inside (i := 1) rfl (show stub.entry base + 4 = _ from rfl)
  have run := intro_runs entered (upper.trans (lui_word _)) interlocks reg loading (lower.trans (addiu_word _))
  rw [last] at run
  exact run

end Enter

variable [DecidableEq η]

/-- The symbols at the place of one agree on where its stub leads, and none is microMIPS code. -/
def StubState.Agree (st : StubState η) (h : η) : Prop :=
  ∀ g, (st.symbol h).samePlace (st.symbol g) = true →
    (st.symbol g).isa ≠ .micromips ∧ (st.symbol g).la25Target = (st.symbol h).la25Target

/-- Whoever enters the stub of a function that needs one gets to the function with its address in $25 and the other
registers as they were, from a trampoline if and only if the function is in the region of its delay slot. -/
theorem la25_stub_enters_function {order : Endian} {outputPic : Bool} {traversal : List η} {st final : StubState η}
    (checked : final = mipsElfCheckSymbols false outputPic traversal st) (laid : st.Laid) {h : η} (member : h ∈ traversal)
    (needs : (final.symbol h).NeedsStub) (agree : final.Agree h) {slots : List (La25Stub η)}
    (all : slots.Perm final.stubs) {c : StubContents} {mem : Store} {base : StubPlace → Word}
    (image : final.Image mem (createLa25Stubs order final.symbol slots c) base) {target : Word}
    (address : target = (final.symbol h).la25Address.setWidth 32) (words : aligned target = true) :
    ∃ stub, final.la25Stub h = some stub ∧
      ∀ interlocks reg loading, ∃ n pc,
        steps order mem interlocks n ⟨reg, loading, stub.entry base, stub.entry base + 4⟩ =
            some ⟨Function.update (write loading reg) 25 target, none, pc, pc + 4⟩ ∧
          (pc = target ↔ (stub.place = .trampoline →
            (stub.entry base + 4 + 4).extractLsb' 28 4 = target.extractLsb' 28 4)) := by
  subst checked
  obtain ⟨outLaid, _, served⟩ := checked_laid_served outputPic traversal st laid
  obtain ⟨stub, points⟩ := Option.isSome_iff_exists.mp (served h member needs)
  obtain ⟨present, shared⟩ := outLaid.pointed h stub points
  obtain ⟨standard, sameTarget⟩ := agree stub.h shared
  have coded := createLa25Stubs_coded order _ outLaid all c present standard
  have loads : stub.target (mipsElfCheckSymbols false outputPic traversal st).symbol = target := by
    rw [address, La25Stub.target, FunctionSymbol.la25Address, FunctionSymbol.la25Address, sameTarget]
  refine ⟨stub, points, fun interlocks reg loading => ?_⟩
  cases within : stub.place with
  | trampoline =>
    obtain ⟨pc, run, jumped⟩ := trampoline_enters interlocks reg loading (outLaid.fits stub present) image coded within
    rw [loads] at run jumped
    refine ⟨3, pc, run, ?_⟩
    rw [jumped, region_jump _ _ words]
    exact ⟨fun same _ => same, fun same => same rfl⟩
  | «intro» i =>
    obtain ⟨sec, made, before⟩ := (outLaid.fits stub present).intro i within
    have run := intro_enters interlocks reg loading image coded within made before (loads.symm ▸ words)
    rw [loads] at run
    exact ⟨2, target, run, fun _ none => (nomatch none), fun _ => rfl⟩

def checkedFunctions : StubState Bool := mipsElfCheckSymbols false false [false, true] (freshStubs picFunctions)

def stubbedContents (order : Endian) : StubContents :=
  createLa25Stubs order checkedFunctions.symbol checkedFunctions.stubs ⟨fun _ => 0, fun _ _ => 0⟩

def stubbedBase : StubPlace → Word
  | .trampoline => 0x400000
  | .intro _ => 0x400100

def stubbedMemory (order : Endian) : Store := fun address =>
  if address < 0x400100 then (stubbedContents order).strampoline (address - 0x400000)
  else (stubbedContents order).intros 0 (address - 0x400100)

theorem stubbed_image (order : Endian) :
    checkedFunctions.Image (stubbedMemory order) (stubbedContents order) stubbedBase := by
  constructor
  · intro size present
    have sixteen : size = 16 := (Option.some.inj present).symm
    subst sixteen
    refine ⟨by decide, by decide, fun i inside => ?_⟩
    have start : (stubbedBase .trampoline).toNat = 0x400000 := rfl
    rw [start, stubbedMemory, if_pos (by omega), Nat.add_sub_cancel_left]
  · intro i sec present
    cases i with
    | zero =>
      cases present
      refine ⟨⟨by decide, by decide⟩, by decide, fun k _ => ?_⟩
      have start : (stubbedBase (.intro 0)).toNat = 0x400100 := rfl
      rw [start, stubbedMemory, if_neg (by omega), Nat.add_sub_cancel_left]
    | succ i => cases present

theorem la25_stub_enters_function_second :
    ∃ stub, checkedFunctions.la25Stub true = some stub ∧
      ∀ interlocks reg loading, ∃ n pc,
        steps .big (stubbedMemory .big) interlocks n
            ⟨reg, loading, stub.entry stubbedBase, stub.entry stubbedBase + 4⟩ =
          some ⟨Function.update (write loading reg) 25 0x400150, none, pc, pc + 4⟩ ∧
        (pc = 0x400150 ↔ (stub.place = .trampoline →
          (stub.entry stubbedBase + 4 + 4).extractLsb' 28 4 = (0x400150 : Word).extractLsb' 28 4)) := by
  have agree : checkedFunctions.Agree true := by
    intro g shared
    cases g with
    | false => exact absurd shared (by decide)
    | true => exact ⟨by decide, rfl⟩
  exact la25_stub_enters_function rfl (freshStubs_laid picFunctions) (by decide) ⟨by decide, by decide, by decide⟩ agree
    (List.Perm.refl _) (stubbed_image .big) (by decide) (by decide)

end Openisa.Stubs
