import Openisa.Bfd.Howto
import Openisa.Library.ByteStore

/-! Reading and writing section bytes, and the order of the instruction halves that hold a MIPS16
immediate. -/

namespace Openisa.Bfd

open Openisa.Library.ByteStore

def bfdGet (order : Endian) (bytes : Nat) (d : Store) (loc : Nat) : BfdVma :=
  BitVec.ofNat 64 (load order bytes d loc)

def bfdPut (order : Endian) (bytes : Nat) (x : BfdVma) (d : Store) (loc : Nat) : Store :=
  store order bytes x.toNat d loc

abbrev bfdGet16 (order : Endian) (d : Store) (loc : Nat) : BfdVma := bfdGet order 2 d loc
abbrev bfdGet32 (order : Endian) (d : Store) (loc : Nat) : BfdVma := bfdGet order 4 d loc
abbrev bfdPut16 (order : Endian) (x : BfdVma) (d : Store) (loc : Nat) : Store := bfdPut order 2 x d loc
abbrev bfdPut32 (order : Endian) (x : BfdVma) (d : Store) (loc : Nat) : Store := bfdPut order 4 x d loc

/-- Neither shuffle touches an instruction of a type for which this holds. -/
def plainOrderP (rType : MipsReloc) : Bool :=
  !rType.mips16RelocP && !rType.micromipsRelocShuffleP

def bfdMipsElfRelocUnshuffle (order : Endian) (rType : MipsReloc) (jalShuffle : Bool) (d : Store)
    (loc : Nat) : Store :=
  if plainOrderP rType then d else
  let first := bfdGet16 order d loc
  let second := bfdGet16 order d (loc + 2)
  let val :=
    if rType.micromipsRelocP || (rType == .rMips16_26 && !jalShuffle) then
      first <<< 16 ||| second
    else if rType != .rMips16_26 then
      (first &&& 0xf800) <<< 16 ||| (second &&& 0xffe0) <<< 11 ||| (first &&& 0x1f) <<< 11 |||
        (first &&& 0x7e0) ||| (second &&& 0x1f)
    else
      (first &&& 0xfc00) <<< 16 ||| (first &&& 0x3e0) <<< 11 ||| (first &&& 0x1f) <<< 21 ||| second
  bfdPut32 order val d loc

def bfdMipsElfRelocShuffle (order : Endian) (rType : MipsReloc) (jalShuffle : Bool) (d : Store)
    (loc : Nat) : Store :=
  if plainOrderP rType then d else
  let val := bfdGet32 order d loc
  let (first, second) : BfdVma × BfdVma :=
    if rType.micromipsRelocP || (rType == .rMips16_26 && !jalShuffle) then
      (val >>> 16, val &&& 0xffff)
    else if rType != .rMips16_26 then
      (((val >>> 16) &&& 0xf800) ||| ((val >>> 11) &&& 0x1f) ||| (val &&& 0x7e0),
        ((val >>> 11) &&& 0xffe0) ||| (val &&& 0x1f))
    else
      (((val >>> 16) &&& 0xfc00) ||| ((val >>> 11) &&& 0x3e0) ||| ((val >>> 21) &&& 0x1f),
        val &&& 0xffff)
  bfdPut16 order first (bfdPut16 order second d (loc + 2)) loc

theorem unshuffle_plain (order : Endian) (rType : MipsReloc) (jalShuffle : Bool) (d : Store) (loc : Nat)
    (plain : plainOrderP rType = true) : bfdMipsElfRelocUnshuffle order rType jalShuffle d loc = d := by
  rw [bfdMipsElfRelocUnshuffle, if_pos plain]

theorem shuffle_plain (order : Endian) (rType : MipsReloc) (jalShuffle : Bool) (d : Store) (loc : Nat)
    (plain : plainOrderP rType = true) : bfdMipsElfRelocShuffle order rType jalShuffle d loc = d := by
  rw [bfdMipsElfRelocShuffle, if_pos plain]

theorem bfdGet32_lt (order : Endian) (d : Store) (loc : Nat) : (bfdGet32 order d loc).toNat < 2 ^ 32 := by
  have word := load_lt order 4 d loc
  simp only [bfdGet, BitVec.toNat_ofNat]
  omega

theorem bfdGet32_put32 (order : Endian) (x : BfdVma) (d : Store) (loc : Nat) (word : x.toNat < 2 ^ 32) :
    bfdGet32 order (bfdPut32 order x d loc) loc = x := by
  apply BitVec.eq_of_toNat_eq
  simp only [bfdGet, bfdPut, load_store, BitVec.toNat_ofNat]
  omega

theorem bfdPut32_get32 (order : Endian) (d : Store) (loc : Nat) :
    bfdPut32 order (bfdGet32 order d loc) d loc = d := by
  have word := load_lt order 4 d loc
  simp only [bfdGet, bfdPut, BitVec.toNat_ofNat]
  rw [Nat.mod_eq_of_lt (by omega), store_load]

theorem bfdGet32_put32_disjoint (order : Endian) (x : BfdVma) (d : Store) (loc loc' : Nat)
    (apart : loc' + 4 ≤ loc ∨ loc + 4 ≤ loc') :
    bfdGet32 order (bfdPut32 order x d loc) loc' = bfdGet32 order d loc' := by
  simp only [bfdGet, bfdPut, load_store_disjoint _ _ _ _ _ _ _ apart]

theorem bfdPut32_put32 (order : Endian) (x y : BfdVma) (d : Store) (loc : Nat) :
    bfdPut32 order y (bfdPut32 order x d loc) loc = bfdPut32 order y d loc :=
  store_store order 4 x.toNat y.toNat d loc

theorem bfdPut32_comm (order : Endian) (x y : BfdVma) (d : Store) (loc loc' : Nat)
    (apart : loc' + 4 ≤ loc ∨ loc + 4 ≤ loc') :
    bfdPut32 order y (bfdPut32 order x d loc) loc' = bfdPut32 order x (bfdPut32 order y d loc') loc :=
  store_comm order 4 4 x.toNat y.toNat d loc loc' apart

theorem bfdPut32_eq_iff (order : Endian) (x y : BfdVma) (d : Store) (loc : Nat)
    (hx : x.toNat < 2 ^ 32) (hy : y.toNat < 2 ^ 32) :
    bfdPut32 order x d loc = bfdPut32 order y d loc ↔ x = y := by
  rw [bfdPut32, bfdPut32, bfdPut, bfdPut, store_eq_iff, Nat.mod_eq_of_lt (by omega),
    Nat.mod_eq_of_lt (by omega), BitVec.toNat_inj]

end Openisa.Bfd
