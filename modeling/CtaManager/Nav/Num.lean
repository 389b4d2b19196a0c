import Mathlib

/-!
The numbers of the NAV code.

Every quantity, price and amount of the source is an `f64`.  The model is
written over any type with the operations the source uses (`F64`), and no law
of arithmetic is assumed of them: what is proved at this level holds of the
machine numbers.  `exact` is the other reading, the rational numbers with
`clean_zero` as the identity; results about exact arithmetic are stated there.
-/

namespace CtaManager

/-- The operations of `f64`, and the tolerances the source writes as literals. -/
class F64 (F : Type) extends Zero F, One F, Add F, Sub F, Mul F, Div F, Neg F, LT F, LE F,
    Min F, Max F, BEq F where

  ltDec : DecidableLT F
  leDec : DecidableLE F
  abs : F → F
  isFinite : F → Bool
  /-- the `1e-12` of `clean_zero` -/
  cleanEps : F
  /-- the `1e-12` of every other place -/
  eps12 : F
  eps10 : F
  eps8 : F
  eps6 : F
  /-- The one law of the comparisons that is used. -/
  pos_of_finite : ∀ a : F, isFinite a = true → ¬ a < 0 → (a == 0) = false → 0 < a

attribute [reducible, instance] F64.ltDec F64.leDec

namespace F64

variable {F : Type} [F64 F]

/-- `Iterator::sum`. -/
def sum (l : List F) : F := l.foldl (· + ·) 0

end F64

def cleanZero {F : Type} [F64 F] (value : F) : F :=
  if F64.abs value < F64.cleanEps then 0 else value

/-- `validate_positive`: finite and positive. -/
def isPositive {F : Type} [F64 F] (value : F) : Bool := F64.isFinite value && decide (0 < value)

/-- What arithmetic says of zero, up to its sign.  Results that leave a zero
amount out of a sum, or put one in, ask for it. -/
class ZeroLaws (F : Type) [F64 F] : Prop where
  add_zero : ∀ a : F, a + 0 = a
  zero_sub_zero : (0 : F) - 0 = 0

theorem cleanZero_zero {F : Type} [F64 F] : cleanZero (0 : F) = 0 := by
  unfold cleanZero
  split
  · rfl
  · rfl

/-- Exact arithmetic. -/
instance exact : F64 ℚ where
  ltDec := inferInstance
  leDec := inferInstance
  abs := fun q => |q|
  isFinite := fun _ => true
  cleanEps := 0
  eps12 := 1 / 1000000000000
  eps10 := 1 / 10000000000
  eps8 := 1 / 100000000
  eps6 := 1 / 1000000
  pos_of_finite := fun a _ h h0 => by
    refine lt_of_le_of_ne (not_lt.1 h) fun h' => ?_
    subst h'
    simp at h0

instance : ZeroLaws ℚ where
  add_zero a := by simp
  zero_sub_zero := sub_zero 0

namespace Exact

@[simp] theorem isFinite_eq (q : ℚ) : F64.isFinite q = true := rfl

theorem abs_eq (q : ℚ) : F64.abs q = |q| := rfl

theorem sum_eq (l : List ℚ) : F64.sum l = l.sum := by
  rw [List.sum_eq_foldl]
  rfl

@[simp] theorem cleanZero_eq (q : ℚ) : cleanZero q = q := by
  unfold cleanZero
  rw [if_neg]
  exact not_lt.2 (abs_nonneg q)

@[simp] theorem isPositive_iff (q : ℚ) : isPositive q = true ↔ 0 < q := by
  simp [isPositive]

end Exact

end CtaManager
