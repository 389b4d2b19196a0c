import Mathlib

/-!
Decimals of a fixed width, and the order of the texts that start with them.

`pad width n` writes `n` in at least `width` decimal digits, with zeros in front.  As long
as `n` has no more digits than that, the texts of two numbers are ordered as the
numbers are (`pad_lt_pad`).  Texts whose heads have one length are ordered by their heads
first (`append_lt_append_of_lt`).
-/

namespace PaddedDecimal

/-- `n` in decimal, with zeros in front up to `width` digits. -/
def pad (width n : Nat) : String :=
  String.ofList
    (List.replicate (width - (Nat.toDigits 10 n).length) '0' ++ Nat.toDigits 10 n)

/-- The last `width` decimal digits of `n`. -/
def digits : Nat → Nat → List Char
  | 0, _ => []
  | width + 1, n => digits width (n / 10) ++ [(n % 10).digitChar]

theorem length_digits (width n : Nat) : (digits width n).length = width := by
  induction width generalizing n with
  | zero => rfl
  | succ width ih => rw [digits, List.length_append, ih]; rfl

theorem digits_zero (width : Nat) : digits width 0 = List.replicate width '0' := by
  induction width with
  | zero => rfl
  | succ width ih =>
    rw [digits, Nat.zero_div, ih, List.replicate_succ']
    rfl

theorem toList_pad (width n : Nat) (hwidth : 0 < width) (h : n < 10 ^ width) :
    (pad width n).toList = digits width n := by
  rw [pad, String.toList_ofList]
  induction width generalizing n with
  | zero => omega
  | succ width ih =>
    by_cases hn : n < 10
    · have hzero : n / 10 = 0 := by omega
      have hmod : n % 10 = n := by omega
      rw [Nat.toDigits_of_lt_base hn, digits, hzero, hmod, digits_zero]
      simp
    · have hpos : 0 < width := by
        rcases Nat.eq_zero_or_pos width with rfl | hpos
        · omega
        · exact hpos
      have hdiv : n / 10 < 10 ^ width := by
        rw [Nat.div_lt_iff_lt_mul (by omega), ← Nat.pow_succ]
        exact h
      rw [Nat.toDigits_of_base_le (by omega) (by omega), digits, ← ih (n / 10) hpos hdiv,
        List.length_append, List.append_assoc]
      simp

/-! ## Order -/

/-- Heads of one length decide first. -/
theorem append_lt_append_of_lt {α : Type} [LinearOrder α] {l l' : List α} (h : l < l')
    (hlength : l.length = l'.length) (t t' : List α) : l ++ t < l' ++ t' := by
  induction l generalizing l' with
  | nil =>
    cases l' with
    | nil => exact absurd h (lt_irrefl _)
    | cons b l' => simp at hlength
  | cons a l ih =>
    cases l' with
    | nil => simp at hlength
    | cons b l' =>
      show a :: (l ++ t) < b :: (l' ++ t')
      rw [List.cons_lt_cons_iff] at h ⊢
      rcases h with h | ⟨hab, h⟩
      · exact Or.inl h
      · exact Or.inr ⟨hab, ih h (by simpa using hlength)⟩

theorem digitChar_lt : ∀ d < 10, ∀ e < 10, d < e → d.digitChar < e.digitChar := by
  decide

theorem digits_lt_digits {width n m : Nat} (h : n < m) (hm : m < 10 ^ width) :
    digits width n < digits width m := by
  induction width generalizing n m with
  | zero => omega
  | succ width ih =>
    have hdiv : m / 10 < 10 ^ width := by
      rw [Nat.div_lt_iff_lt_mul (by omega), ← Nat.pow_succ]
      exact hm
    rw [digits, digits]
    rcases Nat.lt_or_ge (n / 10) (m / 10) with hlt | hge
    · apply append_lt_append_of_lt (ih hlt hdiv)
      rw [length_digits, length_digits]
    · -- all digits but the last agree
      have heq : n / 10 = m / 10 := by omega
      rw [heq]
      apply List.append_left_lt
      rw [List.cons_lt_cons_iff]
      exact Or.inl (digitChar_lt _ (by omega) _ (by omega) (by omega))

theorem pad_lt_pad {width n m : Nat} (h : n < m) (hm : m < 10 ^ width) :
    pad width n < pad width m := by
  have hwidth : 0 < width := by
    rcases Nat.eq_zero_or_pos width with rfl | hpos
    · omega
    · exact hpos
  rw [String.lt_iff_toList_lt, toList_pad width n hwidth (by omega), toList_pad width m hwidth hm]
  exact digits_lt_digits h hm

end PaddedDecimal
