import Openisa.Stubs.DynPass

/-! What a processor does that enters the PLT: it gets to the resolver at first, and to the function once the word
of `.got.plt` is bound. -/

namespace Openisa.Stubs

open Openisa.Bfd
open Openisa.Elf
open Openisa.Dynamic
open Openisa.Library
open Openisa.Library.ByteStore
open Openisa.Library.Mips

section Entry

variable {order : Endian} {mem : Store} {entry slot v : Word} {reg : RegNumber → Word}
  {loading : Option (RegNumber × Word)} {pc nextPc : Word}

theorem halves_sum {r : RegNumber} (nonzero : r ≠ 0) (high : reg r = highHalf slot ++ (0 : Half)) :
    State.get ⟨reg, loading, pc, nextPc⟩ r + (lowHalf slot).signExtend 32 = slot := by
  rw [State.get, if_neg nonzero]
  exact (congrArg (· + (lowHalf slot).signExtend 32) high).trans (halves_add slot)

/-- What an entry does: control gets to where its word leads, with the address of the word in $24. -/
structure EntryRun (order : Endian) (mem : Store) (interlocks : Bool) (s : State) (slot v : Word) : Prop where
  run : ∃ n s', steps order mem interlocks n s = some s' ∧ Arrives s s' v [15, 24, 25] ∧ s'.get 24 = slot ∧ s'.get 25 = v

variable (place : aligned entry = true) (word : readWord order mem slot = v) (slotPlace : aligned slot = true)
  (upper : readWord order mem entry = (Instr.lui 15 (highHalf slot)).encode)
  (loads : readWord order mem (entry + 4) = (Instr.lw 25 15 (lowHalf slot)).encode)
  (reg : RegNumber → Word) (loading : Option (RegNumber × Word))
include place word slotPlace upper loads

theorem interlocked_entry_runs (leave : readWord order mem (entry + 4 + 4) = (Instr.jr 25).encode)
    (lower : readWord order mem (entry + 4 + 4 + 4) = (Instr.addiu 24 15 (lowHalf slot)).encode) :
    EntryRun order mem true ⟨reg, loading, entry, entry + 4⟩ slot v := by
  have second := aligned_next place
  have third := aligned_next second
  refine ⟨4, ⟨Function.update (Function.update (Function.update (write loading reg) 15 (highHalf slot ++ (0 : Half))) 25 v)
    24 slot, none, v, v + 4⟩, ?_, ⟨rfl, rfl, rfl, fun r unchanged => ?_⟩, rfl, rfl⟩
  · rw [steps_result place upper effect_lui,
      steps_load second loads (effect_lw (halves_sum (by decide) (Function.update_self _ _ _)) slotPlace word), write_none,
      steps_jump third leave (effect_jr (State.get_update (by decide) _ _ _ _ _)), write_none,
      steps_result (aligned_next third) lower (effect_addiu (halves_sum (by decide) ?_)), steps, write_none]
    simp
  · simp only [List.mem_cons, List.not_mem_nil, or_false, not_or] at unchanged
    refine State.get_of_reg fun _ => ?_
    dsimp only [State.settle]
    rw [Function.update_of_ne unchanged.2.1, Function.update_of_ne unchanged.2.2, Function.update_of_ne unchanged.1]

/-- The instruction in the delay slot of an entry made without interlocks: the first of the next entry, or a nop behind
the last. -/
def Harmless (i : Instr) : Prop := (∃ imm, i = .lui 15 imm) ∨ i = .sll 0 0 0

theorem plain_entry_runs (lower : readWord order mem (entry + 4 + 4) = (Instr.addiu 24 15 (lowHalf slot)).encode)
    (leave : readWord order mem (entry + 4 + 4 + 4) = (Instr.jr 25).encode) {i : Instr} (harmless : Harmless i)
    (delay : readWord order mem (entry + 4 + 4 + 4 + 4) = i.encode) (interlocks : Bool) :
    EntryRun order mem interlocks ⟨reg, loading, entry, entry + 4⟩ slot v := by
  have second := aligned_next place
  have third := aligned_next second
  have fourth := aligned_next third
  obtain ⟨r, w, effect, changed⟩ :
      ∃ r w, (∀ s, i.effect order mem s = some ⟨some (r, w), none, none⟩) ∧ (r = 15 ∨ r = 0) := by
    rcases harmless with ⟨imm, rfl⟩ | rfl
    · exact ⟨15, _, fun _ => rfl, .inl rfl⟩
    · exact ⟨0, 0, fun _ => rfl, .inr rfl⟩
  let begun : RegNumber → Word := Function.update (write loading reg) 15 (highHalf slot ++ (0 : Half))
  have high : begun 15 = highHalf slot ++ (0 : Half) := rfl
  have completes : ∀ reg' loading', (∀ x, x ≠ 25 → reg' x = write none begun x) →
      (Instr.addiu 24 15 (lowHalf slot)).effect order mem ⟨reg', loading', entry + 4 + 4, entry + 4 + 4 + 4⟩ =
        some ⟨some (24, slot), none, none⟩ := fun reg' loading' same =>
    effect_addiu (halves_sum (by decide) ((same 15 (by decide)).trans high))
  let before : RegNumber → Word := Function.update (Function.update begun 25 v) 24 slot
  have leads : State.get ⟨before, none, entry + 4 + 4 + 4, entry + 4 + 4 + 4 + 4⟩ 25 = v := rfl
  refine ⟨5, ⟨Function.update before r w, none, v, v + 4⟩, ?_, ⟨rfl, rfl, rfl, fun q unchanged => ?_⟩, ?_, ?_⟩
  · rw [steps_result place upper effect_lui,
      steps_load_result second loads (effect_lw (halves_sum (by decide) high) slotPlace word) third lower completes,
      write_none,
      steps_jump fourth leave (effect_jr leads), write_none,
      steps_result (aligned_next fourth) delay (effect _), steps, write_none]
  · simp only [List.mem_cons, List.not_mem_nil, or_false, not_or] at unchanged
    refine State.get_of_reg fun nonzero => ?_
    have other : q ≠ r := by
      rintro rfl
      exact changed.elim unchanged.1 nonzero
    dsimp only [State.settle, before, begun]
    rw [Function.update_of_ne other, Function.update_of_ne unchanged.2.1, Function.update_of_ne unchanged.2.2,
      Function.update_of_ne unchanged.1]
  · rcases changed with rfl | rfl <;> rfl
  · rcases changed with rfl | rfl <;> rfl

end Entry

section Header

variable {order : Endian} {mem : Store} {plt got resolver : Word}

def headerCode (got : Word) : List Instr :=
  [.lui 28 (highHalf got), .lw 25 28 (lowHalf got), .addiu 28 28 (lowHalf got), .subu 24 24 28, .addu 15 31 0,
    .srl 24 24 2, .jalr 31 25, .addiu 24 24 0xfffe]

/-- The header goes to the resolver with the number of the word that $24 points to, counted behind the reserved two, and
with the return address of the call in $15. -/
theorem header_runs (place : aligned plt = true) (word : readWord order mem got = resolver) (gotPlace : aligned got = true)
    (code : ∀ k i, (headerCode got)[k]? = some i → readWord order mem (plt + BitVec.ofNat 32 (4 * k)) = i.encode)
    (interlocks : Bool) (reg : RegNumber → Word) :
    ∃ s', steps order mem interlocks 8 ⟨reg, none, plt, plt + 4⟩ = some s' ∧
      Arrives ⟨reg, none, plt, plt + 4⟩ s' resolver [15, 24, 25, 28, 31] ∧
      s'.get 24 = (reg 24 - got) >>> 2 + (0xfffe : Half).signExtend 32 ∧ s'.get 25 = resolver ∧ s'.get 28 = got ∧
      s'.get 15 = reg 31 ∧ s'.get 31 = plt + BitVec.ofNat 32 32 := by
  let r1 : RegNumber → Word := Function.update reg 28 (highHalf got ++ (0 : Half))
  let r3 : RegNumber → Word := Function.update (Function.update r1 25 resolver) 28 got
  let r4 : RegNumber → Word := Function.update r3 24 (reg 24 - got)
  let r5 : RegNumber → Word := Function.update r4 15 (reg 31)
  let r6 : RegNumber → Word := Function.update r5 24 ((reg 24 - got) >>> 2)
  let r7 : RegNumber → Word := Function.update r6 31 (plt + BitVec.ofNat 32 (4 * 8))
  let r8 : RegNumber → Word := Function.update r7 24 ((reg 24 - got) >>> 2 + (0xfffe : Half).signExtend 32)
  let address (k : Nat) : Word := plt + BitVec.ofNat 32 (4 * k)
  have next : ∀ k, address k + 4 = address (k + 1) := word_next plt
  have high : r1 28 = highHalf got ++ (0 : Half) := rfl
  have completes : ∀ reg' loading', (∀ x, x ≠ 25 → reg' x = write none r1 x) →
      (Instr.addiu 28 28 (lowHalf got)).effect order mem ⟨reg', loading', address 2, address 2 + 4⟩ =
        some ⟨some (28, got), none, none⟩ := fun reg' loading' same =>
    effect_addiu (halves_sum (by decide) ((same 28 (by decide)).trans high))
  have begins : steps order mem interlocks 8 ⟨reg, none, plt, plt + 4⟩ =
      steps order mem interlocks 7 ⟨r1, none, address 1, address 2⟩ := by
    have first := code 0 _ rfl
    rw [show plt + BitVec.ofNat 32 (4 * 0) = plt from BitVec.add_zero plt] at first
    rw [steps_result place first effect_lui, write_none, ← next 1]
    rfl
  have loads : steps order mem interlocks 7 ⟨r1, none, address 1, address 2⟩ =
      steps order mem interlocks 5 ⟨r3, none, address 3, address 4⟩ := by
    rw [steps_load_result (aligned_word place 1) (code 1 _ rfl) (effect_lw (halves_sum (by decide) high) gotPlace word)
      (aligned_word place 2) (code 2 _ rfl) completes, write_none, next 2, next 3]
  have subtracts : steps order mem interlocks 5 ⟨r3, none, address 3, address 4⟩ =
      steps order mem interlocks 4 ⟨r4, none, address 4, address 5⟩ := by
    have difference : State.get ⟨r3, none, address 3, address 4⟩ 24 - State.get ⟨r3, none, address 3, address 4⟩ 28 =
        reg 24 - got := rfl
    rw [steps_result (aligned_word place 3) (code 3 _ rfl) (effect_subu difference), write_none, next 4]
  have saves : steps order mem interlocks 4 ⟨r4, none, address 4, address 5⟩ =
      steps order mem interlocks 3 ⟨r5, none, address 5, address 6⟩ := by
    have sum : State.get ⟨r4, none, address 4, address 5⟩ 31 + State.get ⟨r4, none, address 4, address 5⟩ 0 = reg 31 :=
      BitVec.add_zero (reg 31)
    rw [steps_result (aligned_word place 4) (code 4 _ rfl) (effect_addu sum), write_none, next 5]
  have shifts : steps order mem interlocks 3 ⟨r5, none, address 5, address 6⟩ =
      steps order mem interlocks 2 ⟨r6, none, address 6, address 7⟩ := by
    have shifted : State.get ⟨r5, none, address 5, address 6⟩ 24 >>> (2 : RegNumber).toNat = (reg 24 - got) >>> 2 := rfl
    rw [steps_result (aligned_word place 5) (code 5 _ rfl) (effect_srl shifted), write_none, next 6]
  have jumps : steps order mem interlocks 2 ⟨r6, none, address 6, address 7⟩ =
      steps order mem interlocks 1 ⟨r7, none, address 7, resolver⟩ := by
    have leads : State.get ⟨r6, none, address 6, address 7⟩ 25 = resolver := rfl
    rw [steps_link (aligned_word place 6) (code 6 _ rfl) (effect_jalr leads (next 7)), write_none]
  have counts : steps order mem interlocks 1 ⟨r7, none, address 7, resolver⟩ =
      some ⟨r8, none, resolver, resolver + 4⟩ := by
    have sum : State.get ⟨r7, none, address 7, resolver⟩ 24 + (0xfffe : Half).signExtend 32 =
        (reg 24 - got) >>> 2 + (0xfffe : Half).signExtend 32 := rfl
    rw [steps_result (aligned_word place 7) (code 7 _ rfl) (effect_addiu sum), write_none, steps]
  refine ⟨⟨r8, none, resolver, resolver + 4⟩, ?_, ⟨rfl, rfl, rfl, fun q unchanged => ?_⟩, rfl, rfl, rfl, rfl, rfl⟩
  · rw [begins, loads, subtracts, saves, shifts, jumps, counts]
  · simp only [List.mem_cons, List.not_mem_nil, or_false, not_or] at unchanged
    obtain ⟨n15, n24, n25, n28, n31⟩ := unchanged
    refine State.get_of_reg fun _ => ?_
    dsimp only [State.settle, r8, r7, r6, r5, r4, r3, r1]
    rw [Function.update_of_ne n24, Function.update_of_ne n31, Function.update_of_ne n24, Function.update_of_ne n15,
      Function.update_of_ne n24, Function.update_of_ne n28, Function.update_of_ne n25, Function.update_of_ne n28]
    rfl

end Header

section Code

def entryCode (interlocks : Bool) (slot : Word) : List Instr :=
  if interlocks then [.lui 15 (highHalf slot), .lw 25 15 (lowHalf slot), .jr 25, .addiu 24 15 (lowHalf slot)]
  else [.lui 15 (highHalf slot), .lw 25 15 (lowHalf slot), .addiu 24 15 (lowHalf slot), .jr 25]

theorem entry_words (interlocks : Bool) (gotAddress : BfdVma) :
    (pltEntryWords interlocks gotAddress).map (·.setWidth 32) =
      (entryCode interlocks (gotAddress.setWidth 32)).map Instr.encode := by
  have upper : (0x3c0f0000 ||| highOperand gotAddress).setWidth 32 =
      (Instr.lui 15 (highHalf (gotAddress.setWidth 32))).encode := template_high (by decide) gotAddress
  have loads : (0x01f90000 ||| lowOperand gotAddress ||| 0x8c000000).setWidth 32 =
      (Instr.lw 25 15 (lowHalf (gotAddress.setWidth 32))).encode := by
    rw [BitVec.or_assoc, BitVec.or_comm (lowOperand gotAddress), ← BitVec.or_assoc]
    exact template_low (by decide) gotAddress
  have lower : (0x25f80000 ||| lowOperand gotAddress).setWidth 32 =
      (Instr.addiu 24 15 (lowHalf (gotAddress.setWidth 32))).encode := template_low (by decide) gotAddress
  have leave : (0x03200008 : BfdVma).setWidth 32 = (Instr.jr 25).encode := by decide
  cases interlocks <;> simp only [pltEntryWords, entryCode, List.map_cons, List.map_nil, upper, loads, lower, leave,
    if_true, if_false, Bool.false_eq_true]

theorem header_words (gotplt : BfdVma) :
    (plt0Words false gotplt).map (·.setWidth 32) = (headerCode (gotplt.setWidth 32)).map Instr.encode := by
  have upper : (0x3c1c0000 ||| highOperand gotplt).setWidth 32 = (Instr.lui 28 (highHalf (gotplt.setWidth 32))).encode :=
    template_high (by decide) gotplt
  have loads : (0x8f990000 ||| lowOperand gotplt).setWidth 32 = (Instr.lw 25 28 (lowHalf (gotplt.setWidth 32))).encode :=
    template_low (by decide) gotplt
  have lower : (0x279c0000 ||| lowOperand gotplt).setWidth 32 =
      (Instr.addiu 28 28 (lowHalf (gotplt.setWidth 32))).encode := template_low (by decide) gotplt
  have rest : [0x031cc023 ||| 0, 0x03e07821 ||| 0, 0x0018c082 ||| 0, 0x0320f809 ||| 0, (0x2718fffe : BfdVma) ||| 0].map
      (·.setWidth 32) = [Instr.subu 24 24 28, .addu 15 31 0, .srl 24 24 2, .jalr 31 25, .addiu 24 24 0xfffe].map
        Instr.encode := by decide
  have split : plt0Words false gotplt = [0x3c1c0000 ||| highOperand gotplt, 0x8f990000 ||| lowOperand gotplt,
      0x279c0000 ||| lowOperand gotplt] ++
        [0x031cc023 ||| 0, 0x03e07821 ||| 0, 0x0018c082 ||| 0, 0x0320f809 ||| 0, (0x2718fffe : BfdVma) ||| 0] := rfl
  have code : headerCode (gotplt.setWidth 32) = [.lui 28 (highHalf (gotplt.setWidth 32)),
      .lw 25 28 (lowHalf (gotplt.setWidth 32)), .addiu 28 28 (lowHalf (gotplt.setWidth 32))] ++
        [.subu 24 24 28, .addu 15 31 0, .srl 24 24 2, .jalr 31 25, .addiu 24 24 0xfffe] := rfl
  rw [split, code, List.map_append, List.map_append, rest]
  simp only [List.map_cons, List.map_nil, upper, loads, lower]

theorem slot_number {got : Word} {n : Nat} (small : (2 + n) * 4 < 2 ^ 32) :
    (got + BitVec.ofNat 32 ((2 + n) * 4) - got) >>> 2 + (0xfffe : Half).signExtend 32 = BitVec.ofNat 32 n := by
  have minus : ((0xfffe : Half).signExtend 32).toNat = 2 ^ 32 - 2 := by decide
  rw [add_sub_cancel_left]
  apply BitVec.eq_of_toNat_eq
  rw [BitVec.toNat_add, minus, BitVec.toNat_ushiftRight, BitVec.toNat_ofNat, BitVec.toNat_ofNat,
    Nat.shiftRight_eq_div_pow]
  omega

end Code

section Pass

variable {η : Type} [DecidableEq η] {link : DynLink} {generic : Generic η}

/-- The PLT is in memory as it was written, and the words of `.got.plt` have their places there. -/
structure DynPass.Image (p : DynPass η link generic) (mem : Store) : Prop where
  splt : Loaded mem (p.file.splt.setWidth 32) (sizePlt p.file p.adjusted.plt) p.finished.splt
  spltPlace : aligned (p.file.splt.setWidth 32) = true
  gotPlace : aligned (p.file.sgotplt.setWidth 32) = true
  gotRoom : (p.file.sgotplt.setWidth 32).toNat + p.adjusted.plt.sgotplt ≤ 2 ^ 32

variable {p : DynPass η link generic} {pltNumber stubNumber : η → Option Nat} {pltOwners stubOwners : List η}
  {mem : Store} {n : Nat}

theorem slotAddress_word (file : DynFile) (n : Nat) :
    (file.slotAddress n).setWidth 32 = file.sgotplt.setWidth 32 + BitVec.ofNat 32 ((2 + n) * 4) := by
  rw [DynFile.slotAddress, BitVec.setWidth_add _ _ (by decide), BitVec.setWidth_ofNat_of_le (by decide)]

theorem DynPass.Image.room (image : p.Image mem) (known : p.Known pltNumber stubNumber pltOwners stubOwners)
    (below : n < pltOwners.length) :
    32 + 16 * n + 16 ≤ sizePlt p.file p.adjusted.plt ∧ (2 + n) * 4 < 2 ^ 32 ∧ 0 < p.adjusted.plt.splt := by
  have splt := known.sections.splt
  have sgotplt := known.sections.sgotplt
  have room := image.gotRoom
  rw [if_neg (by omega)] at splt sgotplt
  have whole : p.adjusted.plt.splt ≤ sizePlt p.file p.adjusted.plt := by
    unfold sizePlt
    split <;> omega
  omega

variable (p) in
def DynPass.entry (n : Nat) : Word := p.file.splt.setWidth 32 + BitVec.ofNat 32 (32 + 16 * n)

theorem DynPass.Image.entry (image : p.Image mem) (known : p.Known pltNumber stubNumber pltOwners stubOwners)
    (below : n < pltOwners.length) {k : Nat} {i : Instr}
    (present : (entryCode (loadInterlocksP p.file.flags)
      (p.file.sgotplt.setWidth 32 + BitVec.ofNat 32 ((2 + n) * 4)))[k]? = some i) :
    readWord p.file.order mem (p.entry n + BitVec.ofNat 32 (4 * k)) = i.encode := by
  obtain ⟨h, number⟩ := known.placed.pltNumbered.surjective below
  have addressed := known.addressed h (known.placed.pltNumbered.mem_iff.mpr (by rw [number]; rfl))
  have given : (p.sized.symbol h).pltOffset.isSome = true := by
    rw [known.placed.plt h addressed, number]
    rfl
  have coded := ((known.symbols h given).entry addressed n number).words
  rw [← slotAddress_word] at present
  refine coded.fetch (entry_words _ _) image.splt ?_ present rfl
  rw [pltEntryWords_length]
  exact (image.room known below).1

theorem DynPass.Image.delay (image : p.Image mem) (known : p.Known pltNumber stubNumber pltOwners stubOwners)
    (below : n < pltOwners.length) (plain : loadInterlocksP p.file.flags = false) :
    ∃ i, Harmless i ∧ readWord p.file.order mem (p.entry n + BitVec.ofNat 32 (4 * 4)) = i.encode := by
  have next : p.entry n + BitVec.ofNat 32 (4 * 4) = p.entry (n + 1) + BitVec.ofNat 32 (4 * 0) := by
    rw [DynPass.entry, DynPass.entry, BitVec.add_assoc, BitVec.add_assoc, BitVec.ofNat_add_ofNat, BitVec.ofNat_add_ofNat]
    congr 2
  by_cases last : n + 1 < pltOwners.length
  · have word := image.entry known last (k := 0)
      (i := .lui 15 (highHalf (p.file.sgotplt.setWidth 32 + BitVec.ofNat 32 ((2 + (n + 1)) * 4)))) (by rw [plain]; rfl)
    exact ⟨_, .inl ⟨_, rfl⟩, next ▸ word⟩
  · refine ⟨.sll 0 0 0, .inr rfl, ?_⟩
    have splt := known.sections.splt
    rw [if_neg (by omega)] at splt
    have size : sizePlt p.file p.adjusted.plt = 32 + 16 * (n + 1) + 4 := by
      unfold sizePlt
      rw [plain, if_pos (by simp [splt]), splt]
      omega
    have behind : p.entry n + BitVec.ofNat 32 (4 * 4) = p.file.splt.setWidth 32 + BitVec.ofNat 32 (32 + 16 * (n + 1)) := by
      rw [next, DynPass.entry, Nat.mul_zero, BitVec.add_zero]
    have zeros : bfdGet32 p.file.order p.finished.splt (32 + 16 * (n + 1)) = 0 := by
      rw [bfdGet32_congr p.file.order fun k low _ => known.beyond k (by omega)]
      simp [bfdGet32, bfdGet, load, digits]
    rw [behind, image.splt.readWord (by omega), zeros]
    rfl

theorem DynPass.Image.entryPlace (image : p.Image mem) (n : Nat) : aligned (p.entry n) = true := by
  have words : 32 + 16 * n = 4 * (8 + 4 * n) := by omega
  rw [DynPass.entry, words]
  exact aligned_word image.spltPlace _

theorem DynPass.Image.entry_runs (image : p.Image mem) (known : p.Known pltNumber stubNumber pltOwners stubOwners)
    (below : n < pltOwners.length) {slot v : Word}
    (here : slot = p.file.sgotplt.setWidth 32 + BitVec.ofNat 32 ((2 + n) * 4)) (word : readWord p.file.order mem slot = v)
    {interlocks : Bool} (able : loadInterlocksP p.file.flags = true → interlocks = true) (reg : RegNumber → Word)
    (loading : Option (RegNumber × Word)) :
    EntryRun p.file.order mem interlocks ⟨reg, loading, p.entry n, p.entry n + 4⟩ slot v := by
  have place := image.entryPlace n
  have slotPlace : aligned slot = true := by
    rw [here, Nat.mul_comm]
    exact aligned_word image.gotPlace _
  have code : ∀ {k i}, (entryCode (loadInterlocksP p.file.flags) slot)[k]? = some i →
      readWord p.file.order mem (p.entry n + BitVec.ofNat 32 (4 * k)) = i.encode := by
    intro k i present
    rw [here] at present
    exact image.entry known below present
  have start : p.entry n + BitVec.ofNat 32 (4 * 0) = p.entry n := BitVec.add_zero _
  cases made : loadInterlocksP p.file.flags with
  | true =>
    rw [made] at code
    rw [able made]
    have first := code (k := 0) rfl
    rw [start] at first
    refine interlocked_entry_runs place word slotPlace first (code (k := 1) rfl) reg loading ?_ ?_
    · rw [two_words]
      exact code (k := 2) rfl
    · rw [three_words]
      exact code (k := 3) rfl
  | false =>
    rw [made] at code
    have first := code (k := 0) rfl
    rw [start] at first
    obtain ⟨i, harmless, behind⟩ := image.delay known below made
    refine plain_entry_runs place word slotPlace first (code (k := 1) rfl) reg loading ?_ ?_ harmless ?_ interlocks
    · rw [two_words]
      exact code (k := 2) rfl
    · rw [three_words]
      exact code (k := 3) rfl
    · rw [four_words]
      exact behind

theorem DynPass.Image.header (image : p.Image mem) (known : p.Known pltNumber stubNumber pltOwners stubOwners)
    (below : n < pltOwners.length) (o32 : p.file.n32 = false) (k : Nat) (i : Instr)
    (present : (headerCode (p.file.sgotplt.setWidth 32))[k]? = some i) :
    readWord p.file.order mem (p.file.splt.setWidth 32 + BitVec.ofNat 32 (4 * k)) = i.encode := by
  obtain ⟨inside, _, used⟩ := image.room known below
  have coded := known.header used
  rw [o32] at coded
  refine coded.fetch (header_words _) image.splt ?_ present ?_
  · rw [plt0Words_length]
    omega
  · rw [show (BitVec.ofNat 32 0 : Word) = 0#32 from rfl, BitVec.add_zero]

theorem DynPass.Image.lazy_runs (image : p.Image mem) (known : p.Known pltNumber stubNumber pltOwners stubOwners)
    (below : n < pltOwners.length) (o32 : p.file.n32 = false) {slot : Word}
    (here : slot = p.file.sgotplt.setWidth 32 + BitVec.ofNat 32 ((2 + n) * 4))
    (word : readWord p.file.order mem slot = p.file.splt.setWidth 32) {interlocks : Bool}
    (able : loadInterlocksP p.file.flags = true → interlocks = true) (reg : RegNumber → Word)
    (loading : Option (RegNumber × Word)) {s : State} (entered : s = ⟨reg, loading, p.entry n, p.entry n + 4⟩) :
    ∃ k s', steps p.file.order mem interlocks k s = some s' ∧
      Arrives s s' (readWord p.file.order mem (p.file.sgotplt.setWidth 32)) [15, 24, 25, 28, 31] ∧
      s'.get 24 = BitVec.ofNat 32 n ∧ s'.get 15 = s.settle.get 31 ∧ s'.get 28 = p.file.sgotplt.setWidth 32 := by
  subst entered
  obtain ⟨k, t, run, arrives, slotAddress, _⟩ := (image.entry_runs known below here word able reg loading).run
  obtain ⟨treg, tloading, tpc, tnext⟩ := t
  obtain ⟨pc, next, idle, kept⟩ := arrives
  dsimp only at pc next idle
  subst pc next idle
  obtain ⟨s', rest, arrives', number, _, base, saved, _⟩ :=
    header_runs image.spltPlace rfl image.gotPlace (image.header known below o32) interlocks treg
  have address : treg 24 = slot := slotAddress
  have back : treg 31 = State.get ⟨treg, none, p.file.splt.setWidth 32, p.file.splt.setWidth 32 + 4⟩ 31 := rfl
  refine ⟨k + 8, s', ?_, ⟨arrives'.pc, arrives'.nextPc, arrives'.loading, fun r unchanged => ?_⟩, ?_, ?_, base⟩
  · rw [steps_add, run, Option.bind_some, rest]
  · simp only [List.mem_cons, List.not_mem_nil, or_false, not_or] at unchanged
    obtain ⟨n15, n24, n25, n28, n31⟩ := unchanged
    rw [arrives'.kept r (by simp only [List.mem_cons, List.not_mem_nil, or_false, not_or]; exact ⟨n15, n24, n25, n28, n31⟩)]
    exact kept r (by simp only [List.mem_cons, List.not_mem_nil, or_false, not_or]; exact ⟨n15, n24, n25⟩)
  · rw [number, address, here]
    exact slot_number (image.room known below).2.1
  · rw [saved, back]
    exact kept 31 (by decide)

/-- What a call through the PLT entry with a number does, and what the file has for it. -/
structure DynPass.PltCall (p : DynPass η link generic) (mem : Store) (interlocks : Bool) (h : η) (n : Nat) (s : State) :
    Prop where
  own : ∀ g, (p.sized.symbol g).noFnStub = true → (p.sized.symbol g).pltOffset = some (32 + 16 * n) → g = h
  reloc : p.finished.srelplt n = some ⟨p.file.slotAddress n, p.dynindx h⟩
  unbound : (bfdGet32 p.file.order p.finished.sgotplt ((2 + n) * 4)).setWidth 32 = p.file.splt.setWidth 32
  first : readWord p.file.order mem ((p.file.slotAddress n).setWidth 32) = p.file.splt.setWidth 32 →
    ∃ k s', steps p.file.order mem interlocks k s = some s' ∧
      Arrives s s' (readWord p.file.order mem (p.file.sgotplt.setWidth 32)) [15, 24, 25, 28, 31] ∧
      s'.get 24 = BitVec.ofNat 32 n ∧ s'.get 15 = s.settle.get 31 ∧ s'.get 28 = p.file.sgotplt.setWidth 32
  bound : ∃ k s', steps p.file.order mem interlocks k s = some s' ∧
    Arrives s s' (readWord p.file.order mem ((p.file.slotAddress n).setWidth 32)) [15, 24, 25] ∧
    s'.get 25 = readWord p.file.order mem ((p.file.slotAddress n).setWidth 32)

/-- A call through a PLT entry goes where the symbol's own word of `.got.plt` leads. That is the header at first, which
goes on to the resolver with the number of the relocation for this word and symbol in $24 and the return address in $15. -/
theorem plt_call_binds (p : DynPass η link generic) (o32 : p.file.n32 = false) {h : η} {offset : Nat}
    (addressed : (p.sized.symbol h).noFnStub = true) (given : (p.sized.symbol h).pltOffset = some offset) {mem : Store}
    (image : p.Image mem) {interlocks : Bool} (able : loadInterlocksP p.file.flags = true → interlocks = true)
    (reg : RegNumber → Word) (loading : Option (RegNumber × Word)) {entry : Word}
    (address : entry = p.file.splt.setWidth 32 + BitVec.ofNat 32 offset) :
    ∃ n, offset = 32 + 16 * n ∧ p.PltCall mem interlocks h n ⟨reg, loading, entry, entry + 4⟩ := by
  obtain ⟨pltNumber, stubNumber, pltOwners, stubOwners, known⟩ := p.known
  have placed := known.placed.plt h addressed
  rw [given] at placed
  obtain ⟨n, number, rfl⟩ := Option.map_eq_some_iff.mp placed.symm
  subst address
  have below := known.placed.pltNumbered.lt number
  have coded := (known.symbols h (by rw [given]; rfl)).entry addressed n number
  have slot := slotAddress_word p.file n
  refine ⟨n, rfl, ⟨fun g plain same => ?_, coded.reloc, coded.slot, fun leads => ?_, ?_⟩⟩
  · have other := known.placed.plt g plain
    rw [same] at other
    obtain ⟨m, numberG, equal⟩ := Option.map_eq_some_iff.mp other.symm
    have sameNumber : m = n := by omega
    exact known.placed.pltNumbered.injective (sameNumber ▸ numberG) number
  · exact image.lazy_runs known below o32 slot leads able reg loading rfl
  · obtain ⟨k, s', run, arrives, _, value⟩ := (image.entry_runs known below slot rfl able reg loading).run
    exact ⟨k, s', run, arrives, value⟩

end Pass

/-- The PLT and the words of `.got.plt` in memory. -/
def calledMemory : Store := fun address =>
  if address < 0x410800 then calledFinished.splt (address - 0x400800) else calledFinished.sgotplt (address - 0x410800)

theorem called_image : calledPass.Image calledMemory := by
  have size : sizePlt calledFile calledAdjusted.plt = 48 := by decide
  refine ⟨⟨by decide, fun i inside => ?_⟩, by decide, by decide, by decide⟩
  have below : i < 48 := size ▸ inside
  have start : (calledPass.file.splt.setWidth 32).toNat = 0x400800 := rfl
  rw [start, calledMemory, if_pos (by omega), Nat.add_sub_cancel_left]
  rfl

theorem plt_call_binds_called :
    ∃ n, 32 = 32 + 16 * n ∧ calledPass.PltCall calledMemory true () n ⟨fun _ => 0, none, 0x400820, 0x400820 + 4⟩ :=
  plt_call_binds calledPass rfl rfl rfl called_image (fun _ => rfl) _ _ rfl

end Openisa.Stubs
