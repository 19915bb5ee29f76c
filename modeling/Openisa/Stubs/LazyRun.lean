import Openisa.Stubs.DynPass

/-! What a processor does that enters a lazy-binding stub: it gets to the resolver with the index of the symbol. -/

namespace Openisa.Stubs

open Openisa.Bfd
open Openisa.Elf
open Openisa.Dynamic
open Openisa.Library
open Openisa.Library.ByteStore
open Openisa.Library.Mips

section Operands

theorem add_operand (template operand : BfdVma) (plain : template &&& 0xffff = 0) (fits : operand &&& 0xffff = operand) :
    template + operand = template ||| operand := by
  apply BitVec.add_eq_or_of_and_eq_zero
  rw [← fits, BitVec.and_comm operand, ← BitVec.and_assoc, plain]
  exact BitVec.zero_and

theorem lowOperand_fits (value : BfdVma) : lowOperand value &&& 0xffff = lowOperand value := by
  rw [lowOperand, BitVec.and_assoc]
  rfl

theorem index_word (n : Nat) : (BitVec.ofNat 64 n).setWidth 32 = BitVec.ofNat 32 n :=
  BitVec.setWidth_ofNat_of_le (by decide) n

theorem small_operand {n : Nat} (small : n < 2 ^ 16) : BitVec.ofNat 64 n = lowOperand (BitVec.ofNat 64 n) := by
  apply BitVec.eq_of_toNat_eq
  have mask : ∀ m : Nat, m &&& 65535 = m % 65536 := fun m => Nat.and_two_pow_sub_one_eq_mod m 16
  simp [lowOperand, mask]
  omega

theorem high_operand {n : Nat} (small : n < 2 ^ 31) :
    (BitVec.ofNat 64 n >>> 16) &&& 0x7fff = lowOperand (BitVec.ofNat 64 (n / 2 ^ 16)) := by
  apply BitVec.eq_of_toNat_eq
  have mask : ∀ m : Nat, m &&& 65535 = m % 65536 := fun m => Nat.and_two_pow_sub_one_eq_mod m 16
  have mask15 : ∀ m : Nat, m &&& 32767 = m % 32768 := fun m => Nat.and_two_pow_sub_one_eq_mod m 15
  simp [lowOperand, mask, mask15, Nat.shiftRight_eq_div_pow]
  omega

theorem template_add {template : BfdVma} {op : BitVec 6} {rs rt : RegNumber} (plain : template &&& 0xffff = 0)
    (word : template.setWidth 32 = immediate op rs rt 0) (n : Nat) :
    (template + lowOperand (BitVec.ofNat 64 n)).setWidth 32 = immediate op rs rt (lowHalf (BitVec.ofNat 32 n)) := by
  rw [add_operand template _ plain (lowOperand_fits _), template_low word, index_word]

end Operands

section Code

def stubCode (big : Bool) (n : Nat) : List Instr :=
  if big then
    [.lw 25 28 0x8010, .addu 15 31 0, .lui 24 (lowHalf (BitVec.ofNat 32 (n / 2 ^ 16))), .jalr 31 25,
      .ori 24 24 (lowHalf (BitVec.ofNat 32 n))]
  else
    [.lw 25 28 0x8010, .addu 15 31 0, .jalr 31 25,
      if n < 0x8000 then .addiu 24 0 (lowHalf (BitVec.ofNat 32 n)) else .ori 24 0 (lowHalf (BitVec.ofNat 32 n))]

theorem stub_words (big : Bool) {n : Nat} (small : n < 2 ^ 31) (normal : big = false → n < 2 ^ 16) :
    (stubWords big n).map (·.setWidth 32) = (stubCode big n).map Instr.encode := by
  have loads : (0x8f998010 : BfdVma).setWidth 32 = (Instr.lw 25 28 0x8010).encode := by decide
  have saves : (0x03e07821 : BfdVma).setWidth 32 = (Instr.addu 15 31 0).encode := by decide
  have leave : (0x0320f809 : BfdVma).setWidth 32 = (Instr.jalr 31 25).encode := by decide
  cases big with
  | true =>
    have upper : (0x3c180000 + ((BitVec.ofNat 64 n >>> 16) &&& 0x7fff)).setWidth 32 =
        (Instr.lui 24 (lowHalf (BitVec.ofNat 32 (n / 2 ^ 16)))).encode := by
      rw [high_operand small]
      exact template_add (by decide) (by decide) _
    have lower : (0x37180000 + (BitVec.ofNat 64 n &&& 0xffff)).setWidth 32 =
        (Instr.ori 24 24 (lowHalf (BitVec.ofNat 32 n))).encode := template_add (by decide) (by decide) n
    simp only [stubWords, stubCode, List.map_cons, List.map_nil, if_true, loads, saves, leave, upper, lower]
  | false =>
    have signed : (0x24180000 + BitVec.ofNat 64 n).setWidth 32 =
        (Instr.addiu 24 0 (lowHalf (BitVec.ofNat 32 n))).encode := by
      rw [small_operand (normal rfl)]
      exact template_add (by decide) (by decide) n
    have unsigned : (0x34180000 + (BitVec.ofNat 64 n &&& 0xffff)).setWidth 32 =
        (Instr.ori 24 0 (lowHalf (BitVec.ofNat 32 n))).encode := template_add (by decide) (by decide) n
    by_cases positive : n < 0x8000
    · simp only [stubWords, stubCode, List.map_cons, List.map_nil, Bool.false_eq_true, if_false, if_pos positive, loads,
        saves, leave, signed]
    · simp only [stubWords, stubCode, List.map_cons, List.map_nil, Bool.false_eq_true, if_false, if_neg positive, loads,
        saves, leave, unsigned]

theorem low_signed {n : Nat} (positive : n < 0x8000) :
    (0 : Word) + (lowHalf (BitVec.ofNat 32 n)).signExtend 32 = BitVec.ofNat 32 n := by
  rw [zero_add]
  apply BitVec.eq_of_toNat_eq
  rw [signExtend_low, BitVec.toNat_ofNat]
  split <;> omega

theorem toNat_lowHalf (n : Nat) : (lowHalf (BitVec.ofNat 32 n)).toNat = n % 65536 := by
  simp [lowHalf, BitVec.extractLsb'_toNat]

theorem low_unsigned {n : Nat} (small : n < 2 ^ 16) :
    (0 : Word) ||| (lowHalf (BitVec.ofNat 32 n)).setWidth 32 = BitVec.ofNat 32 n := by
  refine BitVec.zero_or.trans (BitVec.eq_of_toNat_eq ?_)
  rw [BitVec.toNat_setWidth, toNat_lowHalf, BitVec.toNat_ofNat]
  omega

theorem halves_or {n : Nat} (small : n < 2 ^ 31) :
    lowHalf (BitVec.ofNat 32 (n / 2 ^ 16)) ++ (0 : Half) ||| (lowHalf (BitVec.ofNat 32 n)).setWidth 32 =
      BitVec.ofNat 32 n := by
  refine (append_or _ _).symm.trans (BitVec.eq_of_toNat_eq ?_)
  rw [BitVec.toNat_append, ← Nat.shiftLeft_add_eq_or_of_lt (lowHalf (BitVec.ofNat 32 n)).isLt, toNat_lowHalf,
    toNat_lowHalf, Nat.shiftLeft_eq, BitVec.toNat_ofNat]
  omega

end Code

section Run

variable {order : Endian} {mem : Store} {stub address resolver : Word} {n : Nat}

/-- What a stub does: control gets to the resolver with the index in $24 and the return address of the call in $15. -/
structure StubRun (order : Endian) (mem : Store) (interlocks : Bool) (s : State) (resolver : Word) (n : Nat) : Prop where
  run : ∃ k s', steps order mem interlocks k s = some s' ∧ Arrives s s' resolver [15, 24, 25, 31] ∧
    s'.get 24 = BitVec.ofNat 32 n ∧ s'.get 15 = s.settle.get 31 ∧ s'.get 25 = resolver

variable (place : aligned stub = true) (addressPlace : aligned address = true)
  (word : readWord order mem address = resolver) (reg : RegNumber → Word) (loading : Option (RegNumber × Word))
  (base : State.get ⟨reg, loading, stub, stub + 4⟩ 28 + (0x8010 : Half).signExtend 32 = address) (interlocks : Bool)
include place addressPlace word base

theorem stub_begins (loads : readWord order mem stub = (Instr.lw 25 28 0x8010).encode)
    (saves : readWord order mem (stub + 4) = (Instr.addu 15 31 0).encode) (m : Nat) :
    steps order mem interlocks (m + 2) ⟨reg, loading, stub, stub + 4⟩ =
      steps order mem interlocks m
        ⟨Function.update (Function.update (write loading reg) 25 resolver) 15 (write loading reg 31), none,
          stub + BitVec.ofNat 32 (4 * 2), stub + BitVec.ofNat 32 (4 * 3)⟩ := by
  have saved : ∀ reg' loading', (∀ x, x ≠ 25 → reg' x = write loading reg x) →
      (Instr.addu 15 31 0).effect order mem ⟨reg', loading', stub + 4, stub + 4 + 4⟩ =
        some ⟨some (15, write loading reg 31), none, none⟩ := fun reg' loading' same =>
    effect_addu ((BitVec.add_zero (reg' 31)).trans (same 31 (by decide)))
  rw [steps_load_result place loads (effect_lw base addressPlace word) (aligned_next place) saves saved, two_words,
    word_next]

theorem normal_stub_runs (code : ∀ k i, (stubCode false n)[k]? = some i →
      readWord order mem (stub + BitVec.ofNat 32 (4 * k)) = i.encode) (small : n < 2 ^ 16) :
    StubRun order mem interlocks ⟨reg, loading, stub, stub + 4⟩ resolver n := by
  let r2 : RegNumber → Word :=
    Function.update (Function.update (write loading reg) 25 resolver) 15 (write loading reg 31)
  let r3 : RegNumber → Word := Function.update r2 31 (stub + BitVec.ofNat 32 (4 * 4))
  let r4 : RegNumber → Word := Function.update r3 24 (BitVec.ofNat 32 n)
  let there (k : Nat) : Word := stub + BitVec.ofNat 32 (4 * k)
  have start : there 0 = stub := BitVec.add_zero stub
  have begins := stub_begins place addressPlace word reg loading base interlocks (start ▸ code 0 _ rfl) (code 1 _ rfl) 2
  have jumps : steps order mem interlocks 2 ⟨r2, none, there 2, there 3⟩ =
      steps order mem interlocks 1 ⟨r3, none, there 3, resolver⟩ := by
    have leads : State.get ⟨r2, none, there 2, there 3⟩ 25 = resolver := rfl
    rw [steps_link (aligned_word place 2) (code 2 _ rfl) (effect_jalr leads (word_next stub 3)), write_none]
  have indexes : steps order mem interlocks 1 ⟨r3, none, there 3, resolver⟩ =
      some ⟨r4, none, resolver, resolver + 4⟩ := by
    have last := code 3 _ rfl
    by_cases positive : n < 0x8000
    · rw [if_pos positive] at last
      have sum : State.get ⟨r3, none, there 3, resolver⟩ 0 + (lowHalf (BitVec.ofNat 32 n)).signExtend 32 =
          BitVec.ofNat 32 n := low_signed positive
      rw [steps_result (aligned_word place 3) last (effect_addiu sum), write_none, steps]
    · rw [if_neg positive] at last
      have joined : State.get ⟨r3, none, there 3, resolver⟩ 0 ||| (lowHalf (BitVec.ofNat 32 n)).setWidth 32 =
          BitVec.ofNat 32 n := low_unsigned small
      rw [steps_result (aligned_word place 3) last (effect_ori joined), write_none, steps]
  refine ⟨4, ⟨r4, none, resolver, resolver + 4⟩, ?_, ⟨rfl, rfl, rfl, fun q unchanged => ?_⟩, rfl, rfl, rfl⟩
  · rw [begins, jumps, indexes]
  · simp only [List.mem_cons, List.not_mem_nil, or_false, not_or] at unchanged
    obtain ⟨n15, n24, n25, n31⟩ := unchanged
    refine State.get_of_reg fun _ => ?_
    dsimp only [State.settle, r4, r3, r2]
    rw [Function.update_of_ne n24, Function.update_of_ne n31, Function.update_of_ne n15, Function.update_of_ne n25]

theorem big_stub_runs (code : ∀ k i, (stubCode true n)[k]? = some i →
      readWord order mem (stub + BitVec.ofNat 32 (4 * k)) = i.encode) (small : n < 2 ^ 31) :
    StubRun order mem interlocks ⟨reg, loading, stub, stub + 4⟩ resolver n := by
  let r2 : RegNumber → Word :=
    Function.update (Function.update (write loading reg) 25 resolver) 15 (write loading reg 31)
  let r3 : RegNumber → Word := Function.update r2 24 (lowHalf (BitVec.ofNat 32 (n / 2 ^ 16)) ++ (0 : Half))
  let r4 : RegNumber → Word := Function.update r3 31 (stub + BitVec.ofNat 32 (4 * 5))
  let r5 : RegNumber → Word := Function.update r4 24 (BitVec.ofNat 32 n)
  let there (k : Nat) : Word := stub + BitVec.ofNat 32 (4 * k)
  have start : there 0 = stub := BitVec.add_zero stub
  have next : ∀ k, there k + 4 = there (k + 1) := word_next stub
  have begins := stub_begins place addressPlace word reg loading base interlocks (start ▸ code 0 _ rfl) (code 1 _ rfl) 3
  have raises : steps order mem interlocks 3 ⟨r2, none, there 2, there 3⟩ =
      steps order mem interlocks 2 ⟨r3, none, there 3, there 4⟩ := by
    rw [steps_result (aligned_word place 2) (code 2 _ rfl) effect_lui, write_none, next 3]
  have jumps : steps order mem interlocks 2 ⟨r3, none, there 3, there 4⟩ =
      steps order mem interlocks 1 ⟨r4, none, there 4, resolver⟩ := by
    have leads : State.get ⟨r3, none, there 3, there 4⟩ 25 = resolver := rfl
    rw [steps_link (aligned_word place 3) (code 3 _ rfl) (effect_jalr leads (next 4)), write_none]
  have indexes : steps order mem interlocks 1 ⟨r4, none, there 4, resolver⟩ =
      some ⟨r5, none, resolver, resolver + 4⟩ := by
    have joined : State.get ⟨r4, none, there 4, resolver⟩ 24 ||| (lowHalf (BitVec.ofNat 32 n)).setWidth 32 =
        BitVec.ofNat 32 n := halves_or small
    rw [steps_result (aligned_word place 4) (code 4 _ rfl) (effect_ori joined), write_none, steps]
  refine ⟨5, ⟨r5, none, resolver, resolver + 4⟩, ?_, ⟨rfl, rfl, rfl, fun q unchanged => ?_⟩, rfl, rfl, rfl⟩
  · rw [begins, raises, jumps, indexes]
  · simp only [List.mem_cons, List.not_mem_nil, or_false, not_or] at unchanged
    obtain ⟨n15, n24, n25, n31⟩ := unchanged
    refine State.get_of_reg fun _ => ?_
    dsimp only [State.settle, r5, r4, r3, r2]
    rw [Function.update_of_ne n24, Function.update_of_ne n31, Function.update_of_ne n24, Function.update_of_ne n15,
      Function.update_of_ne n25]

end Run

section Pass

variable {η : Type} [DecidableEq η] {link : DynLink} {generic : Generic η}

structure DynPass.StubImage (p : DynPass η link generic) (mem : Store) : Prop where
  sstubs : Loaded mem (p.file.sstubs.setWidth 32) p.sized.sstubs p.finished.sstubs
  place : aligned (p.file.sstubs.setWidth 32) = true

variable {p : DynPass η link generic} {pltNumber stubNumber : η → Option Nat} {pltOwners stubOwners : List η}
  {mem : Store} {h : η} {k : Nat}

theorem DynPass.Known.indexes (known : p.Known pltNumber stubNumber pltOwners stubOwners)
    (lazy : (p.sized.symbol h).noFnStub = false) (number : stubNumber h = some k) :
    StubCoded p.file k (p.dynindx h) p.finished ∧ p.dynindx h < 2 ^ 31 ∧
      SymFinished p.file (p.sized.symbol h) (stubNumber h) (p.finished.sym h) := by
  have given : (p.sized.symbol h).pltOffset.isSome = true := by
    rw [known.placed.stub h lazy, number]
    rfl
  have finished := known.symbols h given
  exact ⟨(finished.stub lazy k number).1, (finished.stub lazy k number).2, finished.sym given⟩

theorem DynPass.Known.someStub (known : p.Known pltNumber stubNumber pltOwners stubOwners) (number : stubNumber h = some k) :
    stubOwners ≠ [] := List.ne_nil_of_length_pos (Nat.zero_lt_of_lt (known.placed.stubNumbered.lt number))

theorem DynPass.Known.normalIndex (known : p.Known pltNumber stubNumber pltOwners stubOwners)
    (number : stubNumber h = some k) (normal : decide (p.file.functionStubSize = functionStubBigSize) = false) :
    p.dynindx h < 2 ^ 16 := by
  have size := known.stubSize (known.someStub number)
  have index := p.dynindx_lt h
  have few : ¬0x10000 < p.dynsymcount := by
    intro many
    rw [if_pos many] at size
    simp [size] at normal
  omega

theorem DynPass.Known.stubEnd (known : p.Known pltNumber stubNumber pltOwners stubOwners) (number : stubNumber h = some k) :
    p.file.functionStubSize * k + 2 * p.file.functionStubSize ≤ p.sized.sstubs := by
  have below := known.placed.stubNumbered.lt number
  have behind : (k + 2) * p.file.functionStubSize ≤ (stubOwners.length + 1) * p.file.functionStubSize :=
    Nat.mul_le_mul_right _ (by omega)
  rw [known.stubRoom (known.someStub number), Nat.mul_comm _ k, ← Nat.add_mul]
  exact behind

theorem DynPass.Known.stubSizes (known : p.Known pltNumber stubNumber pltOwners stubOwners)
    (number : stubNumber h = some k) : p.file.functionStubSize = 20 ∨ p.file.functionStubSize = 16 := by
  rw [known.stubSize (known.someStub number)]
  split
  · exact .inl rfl
  · exact .inr rfl

theorem DynPass.StubImage.code (image : p.StubImage mem) (known : p.Known pltNumber stubNumber pltOwners stubOwners)
    (lazy : (p.sized.symbol h).noFnStub = false) (number : stubNumber h = some k) {i : Instr} {m : Nat}
    (present : (stubCode (p.file.functionStubSize = functionStubBigSize) (p.dynindx h))[m]? = some i) :
    readWord p.file.order mem (p.file.sstubs.setWidth 32 + BitVec.ofNat 32 (p.file.functionStubSize * k) +
      BitVec.ofNat 32 (4 * m)) = i.encode := by
  obtain ⟨coded, small, _⟩ := known.indexes lazy number
  have room := known.stubEnd number
  have length := stubWords_length p.file.functionStubSize (p.dynindx h)
    (by rcases known.stubSizes number with size | size <;> omega)
  exact coded.fetch (stub_words _ small (known.normalIndex number)) image.sstubs (by omega) present rfl

theorem DynPass.StubImage.stubPlace (image : p.StubImage mem) (known : p.Known pltNumber stubNumber pltOwners stubOwners)
    (number : stubNumber h = some k) :
    aligned (p.file.sstubs.setWidth 32 + BitVec.ofNat 32 (p.file.functionStubSize * k)) = true := by
  obtain ⟨m, words⟩ : ∃ m, p.file.functionStubSize * k = 4 * m := by
    rcases known.stubSizes number with size | size
    · exact ⟨5 * k, by rw [size]; omega⟩
    · exact ⟨4 * k, by rw [size]; omega⟩
  rw [words]
  exact aligned_word image.place m

/-- What a call through the stub with a number does, and what the file has for it. -/
structure DynPass.LazyCall (p : DynPass η link generic) (mem : Store) (interlocks : Bool) (h : η) (k : Nat) (got : Word)
    (s : State) : Prop where
  own : ∀ g, (p.sized.symbol g).noFnStub = false →
    (p.sized.symbol g).pltOffset = some (p.file.functionStubSize * k) → g = h
  inside : p.file.functionStubSize * k + 2 * p.file.functionStubSize ≤ p.sized.sstubs
  undef : (p.finished.sym h).undef = true
  value : (p.finished.sym h).value = p.file.sstubs + BitVec.ofNat 64 (p.file.functionStubSize * k)
  resolves : StubRun p.file.order mem interlocks s (readWord p.file.order mem got) (p.dynindx h)

/-- A call through a lazy-binding stub, at the address that `.dynsym` has for the symbol, goes where the first word of
the GOT leads, with the symbol's own index in `.dynsym` in $24 and the return address in $15. -/
theorem lazy_call_resolves (p : DynPass η link generic) {h : η} {offset : Nat}
    (called : (p.sized.symbol h).noFnStub = false) (given : (p.sized.symbol h).pltOffset = some offset) {mem : Store}
    (image : p.StubImage mem) (interlocks : Bool) (reg : RegNumber → Word) (loading : Option (RegNumber × Word))
    {got entry : Word} (gotPlace : aligned got = true) (gp : reg 28 = got + 0x7ff0)
    (address : entry = (p.finished.sym h).value.setWidth 32) :
    ∃ k, offset = p.file.functionStubSize * k ∧
      p.LazyCall mem interlocks h k got ⟨reg, loading, entry, entry + 4⟩ := by
  obtain ⟨pltNumber, stubNumber, pltOwners, stubOwners, known⟩ := p.known
  have placed := known.placed.stub h called
  rw [given] at placed
  obtain ⟨k, number, rfl⟩ := Option.map_eq_some_iff.mp placed.symm
  obtain ⟨_, small, sym⟩ := known.indexes called number
  have value := sym.value called k number
  have base : State.get ⟨reg, loading, entry, entry + 4⟩ 28 + (0x8010 : Half).signExtend 32 = got := by
    have raised : State.get ⟨reg, loading, entry, entry + 4⟩ 28 = got + 0x7ff0 := gp
    have back : (0x7ff0 : Word) + (0x8010 : Half).signExtend 32 = 0 := by decide
    rw [raised, BitVec.add_assoc, back]
    exact BitVec.add_zero got
  have start : entry = p.file.sstubs.setWidth 32 + BitVec.ofNat 32 (p.file.functionStubSize * k) := by
    rw [address, value, BitVec.setWidth_add _ _ (by decide), BitVec.setWidth_ofNat_of_le (by decide)]
  have place : aligned entry = true := start ▸ image.stubPlace known number
  refine ⟨k, rfl, ⟨fun g lazy same => ?_, known.stubEnd number, sym.undef, value, ?_⟩⟩
  · have other := known.placed.stub g lazy
    rw [same] at other
    obtain ⟨m, numberG, equal⟩ := Option.map_eq_some_iff.mp other.symm
    have positive : 0 < p.file.functionStubSize := by rcases known.stubSizes number with size | size <;> omega
    have sameNumber : m = k := Nat.eq_of_mul_eq_mul_left positive equal
    exact known.placed.stubNumbered.injective (sameNumber ▸ numberG) number
  · cases big : decide (p.file.functionStubSize = functionStubBigSize) with
    | true =>
      refine big_stub_runs place gotPlace rfl reg loading base interlocks (fun m i present => ?_) small
      rw [start]
      exact image.code known called number (big.symm ▸ present)
    | false =>
      refine normal_stub_runs place gotPlace rfl reg loading base interlocks (fun m i present => ?_)
        (known.normalIndex number big)
      rw [start]
      exact image.code known called number (big.symm ▸ present)

end Pass

def lazyMemory : Store := fun address => lazyFinished.sstubs (address - 0x400900)

theorem lazy_image : lazyPass.StubImage lazyMemory := by
  refine ⟨⟨by decide, fun i _ => ?_⟩, by decide⟩
  have start : (lazyPass.file.sstubs.setWidth 32).toNat = 0x400900 := rfl
  rw [start, lazyMemory, Nat.add_sub_cancel_left]
  rfl

theorem lazy_call_resolves_big :
    ∃ k, 0 = lazyPass.file.functionStubSize * k ∧
      lazyPass.LazyCall lazyMemory false () k 0x410000
        ⟨fun _ => 0x417ff0, none, (lazyPass.finished.sym ()).value.setWidth 32,
          (lazyPass.finished.sym ()).value.setWidth 32 + 4⟩ :=
  lazy_call_resolves lazyPass rfl rfl lazy_image false _ _ (by decide) (by decide) rfl

end Openisa.Stubs
