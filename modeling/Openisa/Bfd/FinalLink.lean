import Openisa.Bfd.Reference
import Mathlib.Data.BitVec
import Mathlib.Data.List.Perm.Basic

/-! Final links of the relocations that fill one field of a word: what one of them does, and that a
list of them does the same in every order. -/

namespace Openisa.Bfd

open Openisa.Library
open Openisa.Library.ByteStore

/-- The types with a field layout of their own, each relocated without regard to the others. -/
def fieldRelocP : MipsReloc → Bool
  | .rMips32 | .rMips26 | .rMipsHi16 | .rMipsLo16 | .rMipsPc16 | .rMicromipsHi16
  | .rMicromipsLo16 | .rMicromipsPc16S1 => true
  | _ => false

def singleP : MipsReloc → Bool
  | .rMips32 | .rMips26 | .rMipsPc16 => true
  | _ => false

def branchP : MipsReloc → Bool
  | .rMipsPc16 | .rMicromipsPc16S1 => true
  | _ => false

def relocPlace (inputSection : Asection) (entry : Arelent) : BfdVma :=
  inputSection.outputSection.vma + inputSection.outputOffset + entry.address

/-- What a field should grow by: `S + A`, less `P` for a branch. -/
def linkedValue (inputSection : Asection) (entry : Arelent) : BfdVma :=
  entry.sym.address + entry.addend - if branchP entry.howto.type then relocPlace inputSection entry else 0

def finalValue (inputSection : Asection) (entry : Arelent) : BfdVma :=
  fieldAdjustment entry entry.sym inputSection false + entry.addend

def installFinal (order : Endian) (inputSection : Asection) (d : Store) (entry : Arelent) : Store :=
  addToWord order entry.howto (finalValue inputSection entry) d entry.address.toNat

structure FieldReloc (inputSection : Asection) (entry : Arelent) : Prop where
  known : entry.howto = mipsElf32RtypeToHowto entry.howto.type
  field : fieldRelocP entry.howto.type = true
  inside : ¬ entry.address > inputSection.limit

/-- Two relocations on disjoint words, or of one type at one address. -/
def Compatible (a b : Arelent) : Prop :=
  (a.howto.type = b.howto.type ∧ a.address = b.address) ∨
    a.address.toNat + 4 ≤ b.address.toNat ∨ b.address.toNat + 4 ≤ a.address.toNat

instance (a b : Arelent) : Decidable (Compatible a b) := inferInstanceAs (Decidable (_ ∨ _))

theorem field_howto (type : MipsReloc) (field : fieldRelocP type = true) :
    (mipsElf32RtypeToHowto type).WordField ∧ plainOrderP (mipsElf32RtypeToHowto type).type = true ∧
      (mipsElf32RtypeToHowto type).specialFunction = some .bfdMipsElfGenericReloc ∧
      (mipsElf32RtypeToHowto type).partialInplace = true := by
  revert field
  cases type <;> decide

variable {ctx : LinkContext} {job : LinkOrder} {order : Endian} {inputSection : Asection}

theorem FieldReloc.word {entry : Arelent} (reloc : FieldReloc inputSection entry) :
    entry.howto.WordField := by
  rw [reloc.known]
  exact (field_howto _ reloc.field).1

theorem FieldReloc.plain {entry : Arelent} (reloc : FieldReloc inputSection entry) :
    plainOrderP entry.howto.type = true := by
  rw [reloc.known]
  exact (field_howto _ reloc.field).2.1

theorem FieldReloc.special {entry : Arelent} (reloc : FieldReloc inputSection entry) :
    entry.howto.specialFunction = some .bfdMipsElfGenericReloc := by
  rw [reloc.known]
  exact (field_howto _ reloc.field).2.2.1

theorem FieldReloc.value {entry : Arelent} (reloc : FieldReloc inputSection entry) :
    finalValue inputSection entry = linkedValue inputSection entry := by
  have relative : entry.howto.pcRelative = branchP entry.howto.type := by
    have table : ∀ type, fieldRelocP type = true → (mipsElf32RtypeToHowto type).pcRelative = branchP type := by
      intro type field
      revert field
      cases type <;> decide
    rw [congrArg RelocHowto.pcRelative reloc.known]
    exact table _ reloc.field
  unfold finalValue linkedValue fieldAdjustment Asymbol.address relocPlace
  rw [relative]
  cases branchP entry.howto.type with
  | true =>
    simp only [Bool.not_false, Bool.true_or, if_true, Bool.false_eq_true, if_false]
    grind
  | false =>
    simp only [Bool.not_false, Bool.true_or, if_true, Bool.false_eq_true, if_false]
    grind

theorem FieldReloc.howto_eq {a b : Arelent} (first : FieldReloc inputSection a)
    (second : FieldReloc inputSection b) (same : a.howto.type = b.howto.type) : a.howto = b.howto := by
  rw [first.known, second.known, same]

/-- The loop hands such a relocation to the generic special function, whatever it found out about
gp. -/
theorem relocate_parent_field (special : ctx.lib.ReturnsSpecial) (sums : ctx.lib.StoresSum)
    (verdicts : ctx.lib.OkOrOverflow) (final : job.relocatable = false) (entry : Arelent)
    (reloc : FieldReloc job.inputSection entry) (s : RelocState) :
    relocateParent ctx job entry s =
      ⟨(ctx.lib.relocateContents entry.howto ctx.order (finalValue job.inputSection entry)
          (s.mem job.data) entry.address.toNat).1, entry,
        s.setData job.data (installFinal ctx.order job.inputSection (s.mem job.data) entry), none⟩ := by
  have value := generic_reloc_final ctx.order sums entry entry.sym job.data job.inputSection s
    reloc.inside reloc.word reloc.plain
  have generic : (some SpecialFunction.bfdMipsElfGenericReloc == some .bfdMipsElf32Gprel16Reloc) = false :=
    rfl
  simp only [relocateParent, reloc.special, generic, Bool.and_false, Option.map_some, final]
  rw [if_neg (by decide), special]
  · exact value
  · intro partial_link
    cases partial_link
  · change (bfdMipsElfGenericReloc _ _ _ _ _ _ _ _).status ≠ _
    rw [value]
    rcases verdicts entry.howto ctx.order (finalValue job.inputSection entry) (s.mem job.data)
      entry.address.toNat with ok | overflow
    · exact fun status => by cases ok.symm.trans status
    · exact fun status => by cases overflow.symm.trans status

theorem turn_field (special : ctx.lib.ReturnsSpecial) (sums : ctx.lib.StoresSum)
    (verdicts : ctx.lib.OkOrOverflow) (accepts : ∀ past d, ctx.callbacks past d = true)
    (final : job.relocatable = false) (entry : Arelent) (reloc : FieldReloc job.inputSection entry)
    (s : LinkState) :
    turnOutcome ctx job entry s = .data ∧ (s.turn ctx job entry).reloc =
      s.reloc.setData job.data (installFinal ctx.order job.inputSection (s.reloc.mem job.data) entry) := by
  have result := relocate_parent_field special sums verdicts final entry reloc s.reloc
  constructor
  · simp only [turnOutcome, respond, result]
    rcases verdicts entry.howto ctx.order (finalValue job.inputSection entry) (s.reloc.mem job.data)
      entry.address.toNat with ok | overflow
    · simp only [ok]
    · simp only [overflow, accepts, if_true]
  · simp only [LinkState.turn, result]

theorem fold_turn_field (special : ctx.lib.ReturnsSpecial) (sums : ctx.lib.StoresSum)
    (verdicts : ctx.lib.OkOrOverflow) (accepts : ∀ past d, ctx.callbacks past d = true)
    (final : job.relocatable = false) (relocs : List Arelent)
    (fields : ∀ entry ∈ relocs, FieldReloc job.inputSection entry) (s : LinkState) :
    (relocs.foldl (fun s entry => s.turn ctx job entry) s).reloc = s.reloc.setData job.data
      (relocs.foldl (installFinal ctx.order job.inputSection) (s.reloc.mem job.data)) := by
  induction relocs generalizing s with
  | nil => exact (s.reloc.setData_self job.data).symm
  | cons entry rest ih =>
      have turn := (turn_field special sums verdicts accepts final entry
        (fields entry (List.mem_cons_self ..)) s).2
      rw [List.foldl_cons, ih (fun later member => fields later (List.mem_cons_of_mem _ member)), turn,
        RelocState.setData_setData, RelocState.setData_mem, List.foldl_cons]

theorem relocate_loop_fields (special : ctx.lib.ReturnsSpecial) (sums : ctx.lib.StoresSum)
    (verdicts : ctx.lib.OkOrOverflow) (accepts : ∀ past d, ctx.callbacks past d = true)
    (final : job.relocatable = false) (relocs : List Arelent)
    (fields : ∀ entry ∈ relocs, FieldReloc job.inputSection entry) (s : LinkState) :
    (relocateLoop ctx job relocs s).1 = .data ∧ (relocateLoop ctx job relocs s).2.reloc =
      s.reloc.setData job.data
        (relocs.foldl (installFinal ctx.order job.inputSection) (s.reloc.mem job.data)) := by
  have runs := relocate_loop_runs relocs s fun entry member s =>
    (turn_field special sums verdicts accepts final entry (fields entry member) s).1
  rw [runs]
  exact ⟨rfl, fold_turn_field special sums verdicts accepts final relocs fields s⟩

theorem addToWord_addToWord (h : RelocHowto) (word : h.WordField) (u v : BfdVma) (d : Store) (loc : Nat) :
    addToWord order h v (addToWord order h u d loc) loc =
      bfdPut32 order (BitField.addField h.bitpos h.bitsize (bfdGet32 order d loc)
        (u >>> h.rightshift + v >>> h.rightshift)) d loc := by
  have fits : h.bitpos + h.bitsize ≤ 64 := le_trans word.fits (by decide)
  rw [addToWord, addToWord_word h word, BitField.addField_addField _ _ fits, addToWord, bfdPut32_put32]

theorem addToWord_comm (h h' : RelocHowto) (u v : BfdVma) (d : Store) (loc loc' : Nat)
    (apart : loc + 4 ≤ loc' ∨ loc' + 4 ≤ loc) :
    addToWord order h' v (addToWord order h u d loc) loc' =
      addToWord order h u (addToWord order h' v d loc') loc := by
  rw [addToWord, addToWord_apart _ _ _ _ _ apart.symm, addToWord, addToWord,
    addToWord_apart _ _ _ _ _ apart, addToWord, bfdPut32_comm _ _ _ _ _ _ apart.symm]

theorem install_comm (a b : Arelent) (first : FieldReloc inputSection a)
    (second : FieldReloc inputSection b) (compatible : Compatible a b) (d : Store) :
    installFinal order inputSection (installFinal order inputSection d a) b =
      installFinal order inputSection (installFinal order inputSection d b) a := by
  simp only [installFinal]
  rcases compatible with ⟨type, address⟩ | apart
  · rw [address, first.howto_eq second type, addToWord_addToWord _ second.word,
      addToWord_addToWord _ second.word, BitVec.add_comm]
  · exact addToWord_comm _ _ _ _ _ _ _ apart

theorem install_perm (relocs relocs' : List Arelent) (perm : relocs.Perm relocs')
    (fields : ∀ entry ∈ relocs, FieldReloc inputSection entry)
    (compatible : ∀ a ∈ relocs, ∀ b ∈ relocs, Compatible a b) (d : Store) :
    relocs.foldl (installFinal order inputSection) d = relocs'.foldl (installFinal order inputSection) d := by
  apply perm.foldl_eq'
  intro a inA b inB d
  exact install_comm a b (fields a inA) (fields b inB) (compatible a inA b inB) d

/-- What a list of relocations adds to the field of `entry`. -/
def fieldSum (inputSection : Asection) (entry : Arelent) (relocs : List Arelent) :
    BitVec entry.howto.bitsize :=
  ((relocs.filter fun other => other.address = entry.address).map fun other =>
    (linkedValue inputSection other >>> entry.howto.rightshift).setWidth entry.howto.bitsize).sum

def fieldAt (order : Endian) (entry : Arelent) (d : Store) : BitVec entry.howto.bitsize :=
  (bfdGet32 order d entry.address.toNat).extractLsb' entry.howto.bitpos entry.howto.bitsize

/-- Installing one relocation: its own word gets its value in the field and keeps the other bits, a
disjoint word keeps all of them. -/
theorem install_field (order : Endian) (entry other : Arelent) (reloc : FieldReloc inputSection entry)
    (reloc' : FieldReloc inputSection other) (compatible : Compatible entry other) (d : Store) :
    fieldAt order entry (installFinal order inputSection d other) =
        fieldAt order entry d + fieldSum inputSection entry [other] ∧
      bfdGet32 order (installFinal order inputSection d other) entry.address.toNat &&& ~~~entry.howto.dstMask =
        bfdGet32 order d entry.address.toNat &&& ~~~entry.howto.dstMask := by
  simp only [fieldAt, fieldSum, installFinal, reloc'.value]
  rcases compatible with ⟨type, address⟩ | apart
  · have howto := reloc.howto_eq reloc' type
    rw [← address, ← howto, addToWord_field _ reloc.word, addToWord_outside _ reloc.word]
    simp [address]
  · have ne : ¬ other.address = entry.address := by
      intro same
      rw [same] at apart
      omega
    rw [addToWord_apart _ _ _ _ _ apart]
    simp [ne]

theorem field_sum_cons (entry other : Arelent) (relocs : List Arelent) :
    fieldSum inputSection entry (other :: relocs) =
      fieldSum inputSection entry [other] + fieldSum inputSection entry relocs := by
  simp only [fieldSum]
  by_cases same : other.address = entry.address <;> simp [same]

theorem install_fold_field (entry : Arelent) (reloc : FieldReloc inputSection entry)
    (relocs : List Arelent) (fields : ∀ other ∈ relocs, FieldReloc inputSection other)
    (compatible : ∀ other ∈ relocs, Compatible entry other) (d : Store) :
    fieldAt order entry (relocs.foldl (installFinal order inputSection) d) =
        fieldAt order entry d + fieldSum inputSection entry relocs ∧
      bfdGet32 order (relocs.foldl (installFinal order inputSection) d) entry.address.toNat
          &&& ~~~entry.howto.dstMask =
        bfdGet32 order d entry.address.toNat &&& ~~~entry.howto.dstMask := by
  induction relocs generalizing d with
  | nil => exact ⟨(BitVec.add_zero _).symm, rfl⟩
  | cons other rest ih =>
      obtain ⟨field, outside⟩ := install_field order entry other reloc
        (fields other (List.mem_cons_self ..)) (compatible other (List.mem_cons_self ..)) d
      obtain ⟨fields', outside'⟩ := ih (fun later member => fields later (List.mem_cons_of_mem _ member))
        (fun later member => compatible later (List.mem_cons_of_mem _ member))
        (installFinal order inputSection d other)
      rw [List.foldl_cons, fields', outside', field, outside, field_sum_cons entry other rest,
        BitVec.add_assoc]
      exact ⟨rfl, rfl⟩

def Untouched (relocs : List Arelent) (i : Nat) : Prop :=
  ∀ entry ∈ relocs, i < entry.address.toNat ∨ entry.address.toNat + 4 ≤ i

theorem install_fold_untouched (relocs : List Arelent) (d : Store) (i : Nat)
    (untouched : Untouched relocs i) : relocs.foldl (installFinal order inputSection) d i = d i := by
  induction relocs generalizing d with
  | nil => rfl
  | cons entry rest ih =>
      rw [List.foldl_cons, ih _ fun later member => untouched later (List.mem_cons_of_mem _ member)]
      exact addToWord_byte _ _ _ _ _ (untouched entry (List.mem_cons_self ..))

/-- The bytes `d'` that a link of `relocs` must leave, given the bytes `d` it starts from. -/
structure FieldsLinked (order : Endian) (inputSection : Asection) (relocs : List Arelent) (d d' : Store) :
    Prop where
  field : ∀ entry ∈ relocs, fieldAt order entry d' = fieldAt order entry d + fieldSum inputSection entry relocs
  outside : ∀ entry ∈ relocs, bfdGet32 order d' entry.address.toNat &&& ~~~entry.howto.dstMask =
    bfdGet32 order d entry.address.toNat &&& ~~~entry.howto.dstMask
  untouched : ∀ i, Untouched relocs i → d' i = d i

theorem install_fold_linked (relocs : List Arelent)
    (fields : ∀ entry ∈ relocs, FieldReloc inputSection entry)
    (compatible : ∀ a ∈ relocs, ∀ b ∈ relocs, Compatible a b) (d : Store) :
    FieldsLinked order inputSection relocs d (relocs.foldl (installFinal order inputSection) d) where
  field entry member :=
    (install_fold_field entry (fields entry member) relocs fields (compatible entry member) d).1
  outside entry member :=
    (install_fold_field entry (fields entry member) relocs fields (compatible entry member) d).2
  untouched i untouched := install_fold_untouched relocs d i untouched

/-- Every order of the relocations, processed in two parts, gives the section the same bytes and
leaves the pending list alone. -/
theorem final_link_any_order (ctx : LinkContext) (job : LinkOrder) (special : ctx.lib.ReturnsSpecial) (sums : ctx.lib.StoresSum)
    (verdicts : ctx.lib.OkOrOverflow) (accepts : ∀ past d, ctx.callbacks past d = true)
    (final : job.relocatable = false) (relocs : List Arelent)
    (fields : ∀ entry ∈ relocs, FieldReloc job.inputSection entry)
    (compatible : ∀ a ∈ relocs, ∀ b ∈ relocs, Compatible a b) (s : LinkState) :
    ∃ linked : Store, FieldsLinked ctx.order job.inputSection relocs (s.reloc.mem job.data) linked ∧
      ∀ front back, relocs.Perm (front ++ back) →
        let first := relocateLoop ctx job front s
        let second := relocateLoop ctx job back first.2
        first.1 = .data ∧ second.1 = .data ∧
          relocateLoop ctx job (front ++ back) s = second ∧
          second.2.reloc.mem job.data = linked ∧
          second.2.reloc.mipsHi16List = s.reloc.mipsHi16List := by
  refine ⟨_, install_fold_linked relocs fields compatible _, ?_⟩
  intro front back perm
  have fieldsFront : ∀ entry ∈ front, FieldReloc job.inputSection entry := fun entry member =>
    fields entry (perm.mem_iff.mpr (List.mem_append_left _ member))
  have fieldsBack : ∀ entry ∈ back, FieldReloc job.inputSection entry := fun entry member =>
    fields entry (perm.mem_iff.mpr (List.mem_append_right _ member))
  obtain ⟨data, state⟩ := relocate_loop_fields special sums verdicts accepts final front fieldsFront s
  obtain ⟨data', state'⟩ := relocate_loop_fields special sums verdicts accepts final back fieldsBack
    (relocateLoop ctx job front s).2
  refine ⟨data, data', relocate_loop_append front back s data, ?_, ?_⟩
  · rw [state', state, RelocState.setData_setData, RelocState.setData_mem, RelocState.setData_mem,
      ← List.foldl_append, install_perm relocs _ perm fields compatible]
  · rw [state', state]
    rfl

def sampleRelocs : List Arelent :=
  [relocAt .rMipsHi16 0 (symbolAt 0x8123 0), relocAt .rMipsLo16 4 (symbolAt 0x8123 0),
    relocAt .rMipsPc16 8 (symbolAt 0x1100 0)]

theorem final_link_any_order_pair :
    let job := finalJob (sectionAt 0x1000 12)
    ∃ linked : Store, FieldsLinked .big job.inputSection sampleRelocs (fun _ => 0) linked ∧
      (relocateLoop referenceContext job sampleRelocs.reverse (startLink fun _ => 0)).2.reloc.mem 0 = linked ∧
        bfdGet32 .big linked 0 = 2 ∧ bfdGet32 .big linked 4 = 0x48c0 ∧ bfdGet32 .big linked 8 = 0x3e000 := by
  intro job
  obtain ⟨linked, fields, runs⟩ := final_link_any_order referenceContext job
    reference_returns_special reference_stores_sum reference_ok_or_overflow (fun _ _ => rfl) rfl sampleRelocs
    (by
      intro entry member
      simp only [sampleRelocs, List.mem_cons, List.not_mem_nil, or_false] at member
      rcases member with rfl | rfl | rfl <;> exact ⟨rfl, rfl, by decide⟩)
    (by decide) (startLink fun _ => 0)
  have perm : sampleRelocs.Perm ([] ++ sampleRelocs.reverse) := (List.reverse_perm sampleRelocs).symm
  obtain ⟨_, _, whole, backwards, _⟩ := runs [] sampleRelocs.reverse perm
  have zero : job.data = 0 := rfl
  rw [← whole, List.nil_append, zero] at backwards
  refine ⟨linked, fields, backwards, ?_⟩
  rw [← backwards]
  exact ⟨by decide, by decide, by decide⟩

end Openisa.Bfd
