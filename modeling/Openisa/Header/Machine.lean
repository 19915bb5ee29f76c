import Openisa.Library.ExtensionTable

/-! The machines that a header can name, and which of them extends which. -/

namespace Openisa.Header

open Openisa.Library
open Openisa.Library.ExtensionTable
open Relation

/-- The machine numbers of BFD; `other` is any number this linker has no name for. -/
inductive BfdMach where
  | mips3000 | mips3900 | mips4000 | mips4010 | mips4100 | mips4111 | mips4120 | mips4300 | mips4400
  | mips4600 | mips4650 | mips5000 | mips5400 | mips5500 | mips6000 | mips7000 | mips8000 | mips9000
  | mips10000 | mips12000 | mips14000 | mips16000 | mips5 | mipsLoongson2e | mipsLoongson2f
  | mipsLoongson3a | mipsSb1 | mipsOcteon | mipsOcteonp | mipsOcteon2 | mipsXlr | mipsisa32
  | mipsisa32r2 | mipsisa64 | mipsisa64r2 | other (number : Nat)
  deriving DecidableEq, Repr

def mipsMachExtensions : List (BfdMach × BfdMach) :=
  [ -- MIPS64r2
    (.mipsOcteon2, .mipsOcteonp), (.mipsOcteonp, .mipsOcteon), (.mipsOcteon, .mipsisa64r2),
    -- MIPS64
    (.mipsisa64r2, .mipsisa64), (.mipsSb1, .mipsisa64), (.mipsXlr, .mipsisa64),
    (.mipsLoongson3a, .mipsisa64),
    -- MIPS V
    (.mipsisa64, .mips5),
    -- R10000
    (.mips12000, .mips10000), (.mips14000, .mips10000), (.mips16000, .mips10000),
    -- R5000
    (.mips5500, .mips5400), (.mips5400, .mips5000),
    -- MIPS IV
    (.mips5, .mips8000), (.mips10000, .mips8000), (.mips5000, .mips8000), (.mips7000, .mips8000),
    (.mips9000, .mips8000),
    -- VR4100
    (.mips4120, .mips4100), (.mips4111, .mips4100),
    -- MIPS III
    (.mipsLoongson2e, .mips4000), (.mipsLoongson2f, .mips4000), (.mips8000, .mips4000),
    (.mips4650, .mips4000), (.mips4600, .mips4000), (.mips4400, .mips4000), (.mips4300, .mips4000),
    (.mips4100, .mips4000), (.mips4010, .mips4000),
    -- MIPS32
    (.mipsisa32r2, .mipsisa32),
    -- MIPS II
    (.mips4000, .mips6000), (.mipsisa32, .mips6000),
    -- MIPS I
    (.mips6000, .mips3000), (.mips3900, .mips3000) ]

/-- `mips_mach_extends_p` on a base that it does not single out. -/
def extendsInTable (base extension : BfdMach) : Bool :=
  if extension = base then true else climbs base mipsMachExtensions extension

def mipsMachExtendsP (base extension : BfdMach) : Bool :=
  if extension = base then true
  else if base = .mipsisa32 && extendsInTable .mipsisa64 extension then true
  else if base = .mipsisa32r2 && extendsInTable .mipsisa64r2 extension then true
  else climbs base mipsMachExtensions extension

/-- The recursive calls of the source are on bases that it does not single out. -/
theorem mipsMachExtendsP_recursion (base extension : BfdMach) :
    mipsMachExtendsP base extension =
      if extension = base then true
      else if base = .mipsisa32 && mipsMachExtendsP .mipsisa64 extension then true
      else if base = .mipsisa32r2 && mipsMachExtendsP .mipsisa64r2 extension then true
      else climbs base mipsMachExtensions extension := rfl

/-- One machine extends another by itself: the table says so, or it is the 64-bit form of the other. -/
def Extends (extension base : BfdMach) : Prop :=
  Row mipsMachExtensions extension base ∨ (extension = .mipsisa64 ∧ base = .mipsisa32) ∨
    (extension = .mipsisa64r2 ∧ base = .mipsisa32r2)

theorem extensions_topological : Topological mipsMachExtensions := by
  decide +kernel

theorem row_extends {a b : BfdMach} (path : TransGen (Row mipsMachExtensions) a b) : ReflTransGen Extends a b := by
  induction path with
  | single step => exact ReflTransGen.single (Or.inl step)
  | tail _ step ih => exact ih.tail (Or.inl step)

theorem climbs_extends {base extension : BfdMach} (found : climbs base mipsMachExtensions extension = true) :
    ReflTransGen Extends extension base :=
  row_extends ((climbs_iff extensions_topological base extension).mp found)

theorem extendsInTable_extends {base extension : BfdMach} (found : extendsInTable base extension = true) :
    ReflTransGen Extends extension base := by
  unfold extendsInTable at found
  split at found
  · next same => exact same ▸ ReflTransGen.refl
  · exact climbs_extends found

theorem extends_of_mipsMachExtendsP {base extension : BfdMach} (found : mipsMachExtendsP base extension = true) :
    ReflTransGen Extends extension base := by
  unfold mipsMachExtendsP at found
  split at found
  · next same => exact same ▸ ReflTransGen.refl
  · split at found
    · next special =>
      simp only [Bool.and_eq_true, decide_eq_true_eq] at special
      exact (extendsInTable_extends special.2).tail (Or.inr (Or.inl ⟨rfl, special.1⟩))
    · split at found
      · next special =>
        simp only [Bool.and_eq_true, decide_eq_true_eq] at special
        exact (extendsInTable_extends special.2).tail (Or.inr (Or.inr ⟨rfl, special.1⟩))
      · exact climbs_extends found

theorem climbs_of_32 (base : BfdMach) (found : climbs base mipsMachExtensions .mipsisa32 = true) :
    climbs base mipsMachExtensions .mipsisa64 = true := by
  cases base <;> first | rfl | cases found

theorem climbs_of_32r2 (base : BfdMach) (plain : base ≠ .mipsisa32)
    (found : climbs base mipsMachExtensions .mipsisa32r2 = true) :
    climbs base mipsMachExtensions .mipsisa64r2 = true := by
  cases base <;> first | exact absurd rfl plain | rfl | cases found

theorem mipsMachExtendsP_eq_true (base extension : BfdMach) :
    mipsMachExtendsP base extension = true ↔
      extension = base ∨ (base = .mipsisa32 ∧ extendsInTable .mipsisa64 extension = true) ∨
        (base = .mipsisa32r2 ∧ extendsInTable .mipsisa64r2 extension = true) ∨
          climbs base mipsMachExtensions extension = true := by
  unfold mipsMachExtendsP
  simp only [Bool.and_eq_true, decide_eq_true_eq]
  by_cases same : extension = base
  · simp [same]
  · by_cases first : base = .mipsisa32 ∧ extendsInTable .mipsisa64 extension = true
    · simp [first]
    · by_cases second : base = .mipsisa32r2 ∧ extendsInTable .mipsisa64r2 extension = true
      · simp [second]
      · simp [same, first, second]

theorem climbs_of_row {base a b : BfdMach} (step : Row mipsMachExtensions a b)
    (found : b = base ∨ climbs base mipsMachExtensions b = true) : climbs base mipsMachExtensions a = true := by
  rw [climbs_iff extensions_topological]
  rcases found with same | further
  · exact same ▸ TransGen.single step
  · exact TransGen.head step ((climbs_iff extensions_topological base b).mp further)

theorem extendsInTable_of_row {base a b : BfdMach} (step : Row mipsMachExtensions a b)
    (found : extendsInTable base b = true) : extendsInTable base a = true := by
  have reached : b = base ∨ climbs base mipsMachExtensions b = true := by
    unfold extendsInTable at found
    split at found
    · next same => exact Or.inl same
    · exact Or.inr found
  unfold extendsInTable
  split
  · rfl
  · exact climbs_of_row step reached

theorem mipsMachExtendsP_of_extends {base a b : BfdMach} (step : Extends a b)
    (found : mipsMachExtendsP base b = true) : mipsMachExtendsP base a = true := by
  rw [mipsMachExtendsP_eq_true] at found ⊢
  rcases step with row | ⟨rfl, rfl⟩ | ⟨rfl, rfl⟩
  · rcases found with same | ⟨is32, via⟩ | ⟨is32r2, via⟩ | further
    · exact Or.inr (Or.inr (Or.inr (climbs_of_row row (Or.inl same))))
    · exact Or.inr (Or.inl ⟨is32, extendsInTable_of_row row via⟩)
    · exact Or.inr (Or.inr (Or.inl ⟨is32r2, extendsInTable_of_row row via⟩))
    · exact Or.inr (Or.inr (Or.inr (climbs_of_row row (Or.inr further))))
  · rcases found with same | ⟨is32, _⟩ | ⟨_, via⟩ | further
    · exact Or.inr (Or.inl ⟨same.symm, rfl⟩)
    · exact Or.inr (Or.inl ⟨is32, rfl⟩)
    · cases via
    · exact Or.inr (Or.inr (Or.inr (climbs_of_32 base further)))
  · rcases found with same | ⟨is32, _⟩ | ⟨is32r2, _⟩ | further
    · exact Or.inr (Or.inr (Or.inl ⟨same.symm, rfl⟩))
    · exact Or.inr (Or.inl ⟨is32, rfl⟩)
    · exact Or.inr (Or.inr (Or.inl ⟨is32r2, rfl⟩))
    · by_cases is32 : base = .mipsisa32
      · exact Or.inr (Or.inl ⟨is32, rfl⟩)
      · exact Or.inr (Or.inr (Or.inr (climbs_of_32r2 base is32 further)))

theorem mipsMachExtendsP_of_path {base extension : BfdMach} (path : ReflTransGen Extends extension base) :
    mipsMachExtendsP base extension = true := by
  induction path using ReflTransGen.head_induction_on with
  | refl => exact (mipsMachExtendsP_eq_true base base).mpr (Or.inl rfl)
  | head step _ ih => exact mipsMachExtendsP_of_extends step ih

/-- Bases stand below what extends them: how far down the table a machine has its row. -/
def depth (m : BfdMach) : Nat := mipsMachExtensions.findIdx fun row => row.1 = m

theorem extends_depth (a b : BfdMach) (step : Extends a b) : depth a < depth b := by
  have rows : ∀ row ∈ mipsMachExtensions, depth row.1 < depth row.2 := by decide +kernel
  rcases step with row | ⟨rfl, rfl⟩ | ⟨rfl, rfl⟩
  · exact rows _ row
  · decide
  · decide

theorem mipsMachExtendsP_iff (base extension : BfdMach) :
    mipsMachExtendsP base extension = true ↔ ReflTransGen Extends extension base :=
  ⟨extends_of_mipsMachExtendsP, mipsMachExtendsP_of_path⟩

@[simp] theorem mipsMachExtendsP_refl (m : BfdMach) : mipsMachExtendsP m m = true :=
  (mipsMachExtendsP_iff m m).mpr ReflTransGen.refl

theorem mipsMachExtendsP_trans {a b c : BfdMach} (first : mipsMachExtendsP a b = true)
    (second : mipsMachExtendsP b c = true) : mipsMachExtendsP a c = true :=
  (mipsMachExtendsP_iff a c).mpr
    (((mipsMachExtendsP_iff b c).mp second).trans ((mipsMachExtendsP_iff a b).mp first))

theorem mipsMachExtendsP_antisymm {a b : BfdMach} (there : mipsMachExtendsP a b = true)
    (back : mipsMachExtendsP b a = true) : a = b :=
  antisymm_of_rank depth extends_depth ((mipsMachExtendsP_iff b a).mp back)
    ((mipsMachExtendsP_iff a b).mp there)

/-- The answer of the linker is the order that the extensions generate: it is reflexive and transitive,
and no two machines extend each other. -/
theorem mips_mach_extends_p_order :
    (∀ base extension, mipsMachExtendsP base extension = true ↔ ReflTransGen Extends extension base) ∧
      ∀ a b, mipsMachExtendsP a b = true → mipsMachExtendsP b a = true → a = b :=
  ⟨mipsMachExtendsP_iff, fun _ _ => mipsMachExtendsP_antisymm⟩

end Openisa.Header
