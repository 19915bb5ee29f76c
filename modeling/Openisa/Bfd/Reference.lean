import Openisa.Bfd.RelocatedContents

/-! A libbfd that behaves as the linker relies on, for runs on concrete input. -/

namespace Openisa.Bfd

open Openisa.Library.ByteStore

/-- Whether the addressed value `a`, the field `b` and their sum pass the check of the howto. -/
def passes (h : RelocHowto) (v x : BfdVma) : Bool :=
  let a := signedAddress v / 2 ^ h.rightshift
  let b := (x.extractLsb' h.bitpos h.bitsize).toInt
  let unsigned := (v.setWidth 32).toNat / 2 ^ h.rightshift
  match h.complainOnOverflow with
  | .dont => true
  | .signed => decide (FitsSigned h.bitsize a ∧ FitsSigned h.bitsize (a + b))
  | .bitfield => decide (FitsSigned (h.bitsize + 1) a ∧ FitsSigned (h.bitsize + 1) (a + b))
  | .unsigned => decide (unsigned < 2 ^ h.bitsize ∧
      unsigned + (x.extractLsb' h.bitpos h.bitsize).toNat < 2 ^ h.bitsize)

def referenceRelocateContents (h : RelocHowto) (order : Endian) (v : BfdVma) (d : Store) (loc : Nat) :
    BfdRelocStatus × Store :=
  let size := bfdGetRelocSize h
  let x := bfdGet order size d loc
  (if passes h v x then .ok else .overflow, bfdPut order size (relocatedWord h v x) d loc)

def referencePerformRelocation (special : Option (RelocState → SpecialResult)) (entry : Arelent)
    (_ : DataPtr) (inputSection : Asection) (relocatable : Bool) (s : RelocState) : SpecialResult :=
  if relocatable && entry.sym.asection.kind == .absolute then
    ⟨.ok, { entry with address := entry.address + inputSection.outputOffset }, s, none⟩
  else
    match special with
    | none => ⟨.notsupported, entry, s, none⟩
    | some f => if (f s).status = .continue then ⟨.notsupported, entry, s, none⟩ else f s

def referenceLib : BfdLib where
  relocateContents := referenceRelocateContents
  performRelocation := referencePerformRelocation
  bfdElfGenericReloc entry d _ _ := (.continue, entry, d)
  bfdElfRelVtableRelocFn entry d _ _ := (.ok, entry, d)
  literalRelocP type := type == .rMipsLiteral || type == .rMicromipsLiteral

theorem reference_stores_sum : referenceLib.StoresSum := fun _ _ _ _ _ => rfl

theorem reference_ok_or_overflow : referenceLib.OkOrOverflow := by
  intro h order v d loc
  simp only [referenceLib, referenceRelocateContents]
  split
  · exact Or.inl rfl
  · exact Or.inr rfl

theorem reference_never_complains : referenceLib.NeverComplains := by
  intro h order v d loc dont
  simp only [referenceLib, referenceRelocateContents, passes, dont, if_true]

theorem reference_checks_signed : referenceLib.ChecksSigned := by
  intro h order v d loc signed word
  have four : bfdGetRelocSize h = 4 := by simp only [bfdGetRelocSize, word.size]
  simp only [referenceLib, referenceRelocateContents, passes, signed, four, decide_eq_true_eq]
  split
  · rename_i fits
    exact ⟨fun reported => (by cases reported), fun unfit => absurd fits unfit⟩
  · rename_i unfit
    exact ⟨fun _ => unfit, fun _ => rfl⟩

theorem reference_returns_special : referenceLib.ReturnsSpecial := by
  intro f entry data inputSection relocatable s present finished
  have live : (relocatable && entry.sym.asection.kind == .absolute) = false := by
    cases relocatable with
    | false => rfl
    | true => simpa using present rfl
  simp only [referenceLib, referencePerformRelocation, live, if_neg finished, Bool.false_eq_true, if_false]

theorem reference_keeps_absolute : referenceLib.KeepsAbsolute := by
  intro special entry data inputSection s absolute
  simp [referenceLib, referencePerformRelocation, absolute]

theorem reference_leaves_pending : referenceLib.LeavesPending := by
  intro special entry data inputSection relocatable s untouched
  simp only [referenceLib, referencePerformRelocation]
  split
  · rfl
  · cases special with
    | none => rfl
    | some f =>
        dsimp only
        split
        · rfl
        · exact untouched f rfl

def referenceContext : LinkContext := ⟨referenceLib, .big, none, fun _ _ => true⟩

def sectionAt (vma limit : BfdVma) : Asection := ⟨.regular, ⟨vma⟩, 0, limit⟩

def symbolAt (vma value : BfdVma) : Asymbol :=
  ⟨"target", sectionAt vma 0xffffffff, value, ⟨false, true, false, false⟩⟩

def relocAt (type : MipsReloc) (address : BfdVma) (sym : Asymbol) : Arelent :=
  ⟨address, 0, mipsElf32RtypeToHowto type, sym⟩

def startState (d : Store) : RelocState := ⟨fun _ => d, [], 0, []⟩

def startLink (d : Store) : LinkState := ⟨startState d, [], []⟩

def finalJob (inputSection : Asection) : LinkOrder := ⟨inputSection, 0, false, false, 0x12345678⟩

end Openisa.Bfd
