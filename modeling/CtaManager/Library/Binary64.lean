import Mathlib.Data.Int.Log
import Mathlib.Data.Rat.Floor
import Mathlib.Tactic.FieldSimp
import Mathlib.Tactic.Linarith

/-!
Rounding to binary64, ties to even.

A finite number is its exact value, and the result of an operation is the exact one rounded
(`round`).  Underflow is gradual, and there is no greatest number.  Rounding never swaps two
numbers (`round_mono`).
-/

namespace Binary64

/-- The nearest integer, the even one of two. -/
def nearestEven (q : ℚ) : ℤ :=
  if q - ⌊q⌋ < 1 / 2 then ⌊q⌋
  else if 1 / 2 < q - ⌊q⌋ then ⌊q⌋ + 1
  else ⌊q⌋ + ⌊q⌋ % 2

/-- The unit in the last place of a positive number is `2 ^ exponent q`. -/
def exponent (q : ℚ) : ℤ := max (Int.log 2 q - 52) (-1074)

def roundPositive (q : ℚ) : ℚ := nearestEven (q / 2 ^ exponent q) * 2 ^ exponent q

/-- The nearest binary64 number. -/
def round (q : ℚ) : ℚ :=
  if 0 < q then roundPositive q
  else if q < 0 then -roundPositive (-q)
  else 0

def sub (a b : ℚ) : ℚ := round (a - b)

def mul (a b : ℚ) : ℚ := round (a * b)

def div (a b : ℚ) : ℚ := round (a / b)

/-! ## The nearest integer -/

theorem nearestEven_bounds (q : ℚ) : ⌊q⌋ ≤ nearestEven q ∧ nearestEven q ≤ ⌊q⌋ + 1 := by
  have hlow := Int.emod_nonneg ⌊q⌋ (by decide : (2 : ℤ) ≠ 0)
  have hhigh := Int.emod_lt_of_pos ⌊q⌋ (by decide : (0 : ℤ) < 2)
  unfold nearestEven
  split
  · omega
  · split
    · omega
    · omega

theorem nearestEven_mono {a b : ℚ} (h : a ≤ b) : nearestEven a ≤ nearestEven b := by
  have hfloor := Int.floor_le_floor h
  rcases hfloor.lt_or_eq with hlt | heq
  · have ha := (nearestEven_bounds a).2
    have hb := (nearestEven_bounds b).1
    omega
  · -- on one side of the same integer the fractions decide
    have hlow := Int.emod_nonneg ⌊b⌋ (by decide : (2 : ℤ) ≠ 0)
    have hhigh := Int.emod_lt_of_pos ⌊b⌋ (by decide : (0 : ℤ) < 2)
    unfold nearestEven
    rw [heq]
    by_cases hb : b - ⌊b⌋ < 1 / 2
    · have ha : a - ⌊b⌋ < 1 / 2 := by linarith
      rw [if_pos ha, if_pos hb]
    · rw [if_neg hb]
      by_cases hb' : 1 / 2 < b - ⌊b⌋
      · rw [if_pos hb']
        split
        · omega
        · split
          · omega
          · omega
      · have ha' : ¬1 / 2 < a - ⌊b⌋ := by linarith
        rw [if_neg hb', if_neg ha']
        split
        · omega
        · omega

theorem nearestEven_intCast (n : ℤ) : nearestEven n = n := by
  unfold nearestEven
  rw [Int.floor_intCast, sub_self, if_pos (by norm_num)]

theorem nearestEven_le {q : ℚ} {n : ℤ} (h : q ≤ n) : nearestEven q ≤ n :=
  (nearestEven_mono h).trans_eq (nearestEven_intCast n)

theorem le_nearestEven {q : ℚ} {n : ℤ} (h : (n : ℚ) ≤ q) : n ≤ nearestEven q :=
  (nearestEven_intCast n).symm.trans_le (nearestEven_mono h)

/-! ## Positive numbers -/

theorem exponent_mono {a b : ℚ} (ha : 0 < a) (h : a ≤ b) : exponent a ≤ exponent b :=
  max_le_max (Int.sub_le_sub_right (Int.log_mono_right ha h) _) le_rfl

/-- A number is below the first power of two that has a greater unit. -/
theorem lt_of_exponent (q : ℚ) : q < 2 ^ (exponent q + 53) := by
  have hlog := Int.lt_zpow_succ_log_self (by decide : 1 < 2) q
  have hle : Int.log 2 q + 1 ≤ exponent q + 53 := by
    have := le_max_left (Int.log 2 q - 52) (-1074)
    unfold exponent
    omega
  exact hlog.trans_le (zpow_le_zpow_right₀ (by norm_num) hle)

/-- Above the least exponent the first bit is in use. -/
theorem le_of_exponent {q : ℚ} (hq : 0 < q) (h : -1074 < exponent q) : 2 ^ (exponent q + 52) ≤ q := by
  have hlog := Int.zpow_log_le_self (by decide : 1 < 2) hq
  have heq : exponent q + 52 = Int.log 2 q := by
    unfold exponent at h ⊢
    omega
  rw [heq]
  exact hlog

theorem roundPositive_nonneg {q : ℚ} (hq : 0 < q) : 0 ≤ roundPositive q := by
  have hunit : (0 : ℚ) < 2 ^ exponent q := zpow_pos (by norm_num) _
  have hinteger : (0 : ℤ) ≤ nearestEven (q / 2 ^ exponent q) :=
    le_nearestEven (by rw [Int.cast_zero]; exact (div_pos hq hunit).le)
  unfold roundPositive
  exact mul_nonneg (by exact_mod_cast hinteger) hunit.le

theorem roundPositive_mono {a b : ℚ} (ha : 0 < a) (h : a ≤ b) :
    roundPositive a ≤ roundPositive b := by
  have hunit : ∀ q, (0 : ℚ) < 2 ^ exponent q := fun q => zpow_pos (by norm_num) _
  rcases (exponent_mono ha h).lt_or_eq with hlt | heq
  · -- a power of two lies between them
    have hbelow : nearestEven (a / 2 ^ exponent a) ≤ 2 ^ 53 := by
      refine nearestEven_le ((div_le_iff₀ (hunit a)).2 ?_)
      have hlt := lt_of_exponent a
      rw [zpow_add₀ (by norm_num), mul_comm] at hlt
      exact_mod_cast hlt.le
    have habove : 2 ^ 52 ≤ nearestEven (b / 2 ^ exponent b) := by
      refine le_nearestEven ((le_div_iff₀ (hunit b)).2 ?_)
      have hmin : -1074 ≤ exponent a := le_max_right _ _
      have hle := le_of_exponent (ha.trans_le h) (by omega)
      rw [zpow_add₀ (by norm_num), mul_comm] at hle
      exact_mod_cast hle
    calc roundPositive a ≤ 2 ^ 53 * 2 ^ exponent a :=
          mul_le_mul_of_nonneg_right (by exact_mod_cast hbelow) (hunit a).le
      _ = 2 ^ 52 * 2 ^ (exponent a + 1) := by
          rw [zpow_add₀ (by norm_num : (2 : ℚ) ≠ 0)]
          ring
      _ ≤ 2 ^ 52 * 2 ^ exponent b :=
          mul_le_mul_of_nonneg_left (zpow_le_zpow_right₀ (by norm_num) hlt) (by norm_num)
      _ ≤ roundPositive b :=
          mul_le_mul_of_nonneg_right (by exact_mod_cast habove) (hunit b).le
  · unfold roundPositive
    rw [heq]
    refine mul_le_mul_of_nonneg_right ?_ (hunit b).le
    exact_mod_cast nearestEven_mono (div_le_div_of_nonneg_right h (hunit b).le)

/-! ## All numbers -/

theorem round_nonneg {q : ℚ} (h : 0 ≤ q) : 0 ≤ round q := by
  unfold round
  split
  · next hpos => exact roundPositive_nonneg hpos
  · rw [if_neg (not_lt.2 h)]

theorem round_nonpos {q : ℚ} (h : q ≤ 0) : round q ≤ 0 := by
  unfold round
  rw [if_neg (not_lt.2 h)]
  split
  · next hneg => exact neg_nonpos.2 (roundPositive_nonneg (neg_pos.2 hneg))
  · exact le_rfl

theorem round_mono : Monotone round := by
  intro a b h
  rcases lt_or_ge 0 a with ha | ha
  · unfold round
    rw [if_pos ha, if_pos (ha.trans_le h)]
    exact roundPositive_mono ha h
  · rcases lt_or_ge b 0 with hb | hb
    · unfold round
      rw [if_neg (not_lt.2 ha), if_pos (h.trans_lt hb), if_neg (not_lt.2 hb.le), if_pos hb]
      exact neg_le_neg (roundPositive_mono (neg_pos.2 hb) (neg_le_neg h))
    · exact (round_nonpos ha).trans (round_nonneg hb)

theorem mul_mono_left {a b c : ℚ} (hc : 0 ≤ c) (h : a ≤ b) : mul a c ≤ mul b c :=
  round_mono (mul_le_mul_of_nonneg_right h hc)

theorem zero_mul (c : ℚ) : mul 0 c = 0 := by
  unfold mul round
  rw [MulZeroClass.zero_mul, if_neg (lt_irrefl 0), if_neg (lt_irrefl 0)]

example : round (1 / 10) = 3602879701896397 / 36028797018963968 := by decide +kernel

end Binary64
