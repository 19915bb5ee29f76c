import Openisa.Bfd.Reloc

/-! The special functions that install a relocation themselves, and the list of pending high parts
that three of them share. -/

namespace Openisa.Bfd

open Openisa.Library
open Openisa.Library.ByteStore

/-- `val` once the field adjustment is built up. -/
def fieldAdjustment (entry : Arelent) (symbol : Asymbol) (inputSection : Asection)
    (relocatable : Bool) : BfdVma :=
  let val : BfdVma := 0
  let val := if !relocatable || symbol.flags.sectionSym then
    val + symbol.asection.outputSection.vma + symbol.asection.outputOffset else val
  if relocatable then val else
  let val := val + symbol.value
  if entry.howto.pcRelative then
    val - inputSection.outputSection.vma - inputSection.outputOffset - entry.address else val

def relocateField (lib : BfdLib) (order : Endian) (h : RelocHowto) (val : BfdVma) (d : Store)
    (loc : Nat) : BfdRelocStatus × Store :=
  let d := bfdMipsElfRelocUnshuffle order h.type false d loc
  let (status, d) := lib.relocateContents h order val d loc
  (status, bfdMipsElfRelocShuffle order h.type false d loc)

def Arelent.moved (entry : Arelent) (inputSection : Asection) (relocatable : Bool) : Arelent :=
  if relocatable then { entry with address := entry.address + inputSection.outputOffset } else entry

def bfdMipsElfGenericReloc (lib : BfdLib) (order : Endian) (entry : Arelent) (symbol : Asymbol)
    (data : DataPtr) (inputSection : Asection) (relocatable : Bool) (s : RelocState) : SpecialResult :=
  if entry.address > inputSection.limit then ⟨.outofrange, entry, s, none⟩ else
  let val := fieldAdjustment entry symbol inputSection relocatable
  if relocatable && !entry.howto.partialInplace then
    ⟨.ok, ({ entry with addend := entry.addend + val } : Arelent).moved inputSection relocatable, s, none⟩
  else
    let (status, d) :=
      relocateField lib order entry.howto (val + entry.addend) (s.mem data) entry.address.toNat
    if status ≠ .ok then ⟨status, entry, s.setData data d, none⟩
    else ⟨.ok, entry.moved inputSection relocatable, s.setData data d, none⟩

def bfdMipsElfHi16Reloc (entry : Arelent) (data : DataPtr) (inputSection : Asection)
    (relocatable : Bool) (s : RelocState) : SpecialResult :=
  if entry.address > inputSection.limit then ⟨.outofrange, entry, s, none⟩ else
  let n : MipsHi16 := ⟨data, inputSection, entry⟩
  ⟨.ok, entry.moved inputSection relocatable,
    { s with mipsHi16List := n :: s.mipsHi16List, history := s.history ++ [.pushed n] }, none⟩

def got16GlobalP (symbol : Asymbol) : Bool :=
  symbol.flags.isGlobal || symbol.flags.isWeak || symbol.asection.kind == .undefined ||
    symbol.asection.kind == .common

def bfdMipsElfGot16Reloc (lib : BfdLib) (order : Endian) (entry : Arelent) (symbol : Asymbol)
    (data : DataPtr) (inputSection : Asection) (relocatable : Bool) (s : RelocState) : SpecialResult :=
  if got16GlobalP symbol then
    bfdMipsElfGenericReloc lib order entry symbol data inputSection relocatable s
  else bfdMipsElfHi16Reloc entry data inputSection relocatable s

/-- A queued GOT16 relocation is installed with the howto of the HI16 relocation of its family. -/
def MipsHi16.withHi16Howto (hi : MipsHi16) : MipsHi16 :=
  match hi.rel.howto.type with
  | .rMipsGot16 => { hi with rel.howto := mipsElf32RtypeToHowto .rMipsHi16 }
  | .rMips16Got16 => { hi with rel.howto := mipsElf32RtypeToHowto .rMips16Hi16 }
  | .rMicromipsGot16 => { hi with rel.howto := mipsElf32RtypeToHowto .rMicromipsHi16 }
  | _ => hi

/-- The loop over `mips_hi16_list`, whose entries are the list argument. An entry that was out of
range has not been relocated. -/
def drainHi16List (lib : BfdLib) (order : Endian) (symbol : Asymbol) (data : DataPtr)
    (relocatable : Bool) : List MipsHi16 → RelocState → BfdRelocStatus × RelocState
  | [], s => (.ok, { s with mipsHi16List := [] })
  | hi :: next, s =>
      let rel := hi.withHi16Howto.rel
      let r := bfdMipsElfGenericReloc lib order rel symbol hi.data hi.inputSection relocatable s
      let done := if r.status = .outofrange then [] else [PendingQueue.Event.drained hi (symbol, data)]
      let s := { r.state with history := r.state.history ++ done }
      if r.status ≠ .ok then (r.status, { s with mipsHi16List := { hi with rel := r.entry } :: next })
      else drainHi16List lib order symbol data relocatable next s

-- `vallo` is read between the two shuffles and never used
def bfdMipsElfLo16Reloc (lib : BfdLib) (order : Endian) (entry : Arelent) (symbol : Asymbol)
    (data : DataPtr) (inputSection : Asection) (relocatable : Bool) (s : RelocState) : SpecialResult :=
  if entry.address > inputSection.limit then ⟨.outofrange, entry, s, none⟩ else
  let location := entry.address.toNat
  let d := bfdMipsElfRelocUnshuffle order entry.howto.type false (s.mem data) location
  let s := s.setData data (bfdMipsElfRelocShuffle order entry.howto.type false d location)
  let (ret, s) := drainHi16List lib order symbol data relocatable s.mipsHi16List s
  if ret ≠ .ok then ⟨ret, entry, s, none⟩
  else bfdMipsElfGenericReloc lib order entry symbol data inputSection relocatable s

/-- The word at `loc` with `val`, shifted to the right as the howto says, added to its field. -/
def addToWord (order : Endian) (h : RelocHowto) (val : BfdVma) (d : Store) (loc : Nat) : Store :=
  bfdPut32 order (BitField.addField h.bitpos h.bitsize (bfdGet32 order d loc) (val >>> h.rightshift)) d loc

variable {lib : BfdLib} {order : Endian}

theorem addToWord_word (h : RelocHowto) (word : h.WordField) (val : BfdVma) (d : Store) (loc : Nat) :
    bfdGet32 order (addToWord order h val d loc) loc =
      BitField.addField h.bitpos h.bitsize (bfdGet32 order d loc) (val >>> h.rightshift) :=
  bfdGet32_put32 order _ d loc (BitField.addField_lt _ _ 32 word.fits _ _ (bfdGet32_lt order d loc))

theorem addToWord_field (h : RelocHowto) (word : h.WordField) (val : BfdVma) (d : Store) (loc : Nat) :
    (bfdGet32 order (addToWord order h val d loc) loc).extractLsb' h.bitpos h.bitsize =
      (bfdGet32 order d loc).extractLsb' h.bitpos h.bitsize + (val >>> h.rightshift).setWidth h.bitsize := by
  rw [addToWord_word h word]
  exact BitField.field_addField _ _ (le_trans word.fits (by decide)) _ _

theorem addToWord_outside (h : RelocHowto) (word : h.WordField) (val : BfdVma) (d : Store) (loc : Nat) :
    bfdGet32 order (addToWord order h val d loc) loc &&& ~~~h.dstMask =
      bfdGet32 order d loc &&& ~~~h.dstMask := by
  rw [addToWord_word h word, word.dst]
  exact BitField.addField_outside _ _ _ _

theorem addToWord_apart (h : RelocHowto) (val : BfdVma) (d : Store) (loc loc' : Nat)
    (apart : loc' + 4 ≤ loc ∨ loc + 4 ≤ loc') :
    bfdGet32 order (addToWord order h val d loc) loc' = bfdGet32 order d loc' :=
  bfdGet32_put32_disjoint order _ d loc loc' apart

theorem addToWord_byte (h : RelocHowto) (val : BfdVma) (d : Store) (loc i : Nat)
    (outside : i < loc ∨ loc + 4 ≤ i) : addToWord order h val d loc i = d i :=
  store_outside order 4 _ d loc i outside

def wordField (order : Endian) (h : RelocHowto) (d : Store) (loc : Nat) : Nat :=
  ((bfdGet32 order d loc).extractLsb' h.bitpos h.bitsize).toNat

theorem wordField_lt (order : Endian) (h : RelocHowto) (d : Store) (loc : Nat) : wordField order h d loc < 2 ^ h.bitsize :=
  ((bfdGet32 order d loc).extractLsb' h.bitpos h.bitsize).isLt

theorem addToWord_wordField (h : RelocHowto) (word : h.WordField) (val : BfdVma) (d : Store) (loc : Nat) :
    wordField order h (addToWord order h val d loc) loc =
      (wordField order h d loc + val.toNat / 2 ^ h.rightshift) % 2 ^ h.bitsize := by
  rw [wordField, addToWord_field h word, BitVec.toNat_add, BitVec.toNat_setWidth,
    BitVec.toNat_ushiftRight, Nat.shiftRight_eq_div_pow, Nat.add_mod_mod, wordField]

theorem relocate_contents_word (sums : lib.StoresSum) (h : RelocHowto) (word : h.WordField) (val : BfdVma)
    (d : Store) (loc : Nat) : (lib.relocateContents h order val d loc).2 = addToWord order h val d loc := by
  have four : bfdGetRelocSize h = 4 := by simp only [bfdGetRelocSize, word.size]
  rw [sums, four, relocatedWord, word.src, word.dst]
  rfl

theorem relocate_field_plain (sums : lib.StoresSum) (h : RelocHowto) (word : h.WordField)
    (plain : plainOrderP h.type = true) (val : BfdVma) (d : Store) (loc : Nat) :
    relocateField lib order h val d loc =
      ((lib.relocateContents h order val d loc).1, addToWord order h val d loc) := by
  simp only [relocateField, unshuffle_plain _ _ _ _ _ plain, shuffle_plain _ _ _ _ _ plain]
  rw [relocate_contents_word sums h word]

/-- What a final link does to a word: the verdict is the one of `_bfd_relocate_contents`, and the
field adjustment is added whatever the verdict. -/
theorem generic_reloc_final (order : Endian) (sums : lib.StoresSum) (entry : Arelent) (symbol : Asymbol) (data : DataPtr)
    (inputSection : Asection) (s : RelocState) (inside : ¬ entry.address > inputSection.limit)
    (word : entry.howto.WordField) (plain : plainOrderP entry.howto.type = true) :
    let val := fieldAdjustment entry symbol inputSection false + entry.addend
    let loc := entry.address.toNat
    bfdMipsElfGenericReloc lib order entry symbol data inputSection false s =
      ⟨(lib.relocateContents entry.howto order val (s.mem data) loc).1, entry,
        s.setData data (addToWord order entry.howto val (s.mem data) loc), none⟩ := by
  simp only [bfdMipsElfGenericReloc, if_neg inside, relocate_field_plain sums _ word plain,
    Bool.false_and, Arelent.moved]
  by_cases ok : (lib.relocateContents entry.howto order
      (fieldAdjustment entry symbol inputSection false + entry.addend) (s.mem data)
      entry.address.toNat).1 = .ok
  · simp [ok]
  · simp [ok]

theorem generic_reloc_partial (order : Endian) (sums : lib.StoresSum) (entry : Arelent) (symbol : Asymbol) (data : DataPtr)
    (inputSection : Asection) (s : RelocState) (inside : ¬ entry.address > inputSection.limit)
    (word : entry.howto.WordField) (plain : plainOrderP entry.howto.type = true)
    (inplace : entry.howto.partialInplace = true) :
    let val := fieldAdjustment entry symbol inputSection true + entry.addend
    let loc := entry.address.toNat
    let status := (lib.relocateContents entry.howto order val (s.mem data) loc).1
    bfdMipsElfGenericReloc lib order entry symbol data inputSection true s =
      ⟨status, if status = .ok then entry.moved inputSection true else entry,
        s.setData data (addToWord order entry.howto val (s.mem data) loc), none⟩ := by
  simp only [bfdMipsElfGenericReloc, if_neg inside, relocate_field_plain sums _ word plain, inplace,
    Bool.not_true, Bool.and_false]
  by_cases ok : (lib.relocateContents entry.howto order
      (fieldAdjustment entry symbol inputSection true + entry.addend) (s.mem data)
      entry.address.toNat).1 = .ok
  · simp [ok]
  · simp [ok]

theorem generic_reloc_queue (entry : Arelent) (symbol : Asymbol) (data : DataPtr) (inputSection : Asection)
    (relocatable : Bool) (s : RelocState) :
    (bfdMipsElfGenericReloc lib order entry symbol data inputSection relocatable s).state.queue =
      s.queue := by
  rw [bfdMipsElfGenericReloc]
  split
  · rfl
  · dsimp only
    split
    · rfl
    · split <;> rfl

end Openisa.Bfd
