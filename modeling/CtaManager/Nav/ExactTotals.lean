import CtaManager.Nav.Totals

/-!
Totals in exact arithmetic: they add up like numbers, `cleaned` does nothing,
and a difference undoes an addition unless a counter would go below zero.
-/

namespace CtaManager

namespace NavTotals

instance : Zero (NavTotals ℚ) := ⟨zero⟩

instance : Add (NavTotals ℚ) := ⟨add⟩

theorem zero_def : (0 : NavTotals ℚ) = zero := rfl

theorem add_def (a b : NavTotals ℚ) : a + b = a.add b := rfl

instance : AddCommMonoid (NavTotals ℚ) where
  add_assoc a b c := by
    simp only [add_def, add, add_assoc]
  zero_add a := by
    simp only [add_def, zero_def, add, zero, zero_add]
  add_zero a := by
    simp only [add_def, zero_def, add, zero, add_zero]
  add_comm a b := by
    simp only [add_def, add, add_comm]
  nsmul := nsmulRec

@[simp] theorem cleaned_eq (a : NavTotals ℚ) : a.cleaned = a := by
  unfold cleaned
  simp only [Exact.cleanZero_eq]

/-- Every counter of `a` is covered by `b`. -/
structure CountsLe (a b : NavTotals ℚ) : Prop where
  fills : a.fillCount ≤ b.fillCount
  maker : a.makerFillCount ≤ b.makerFillCount
  taker : a.takerFillCount ≤ b.takerFillCount
  unknown : a.unknownLiquidityFillCount ≤ b.unknownLiquidityFillCount

/-- No subtraction of counters stops at zero, so the difference is exact. -/
theorem add_difference_of_countsLe {a b : NavTotals ℚ} (h : b.CountsLe a) :
    b + a.difference b = a := by
  obtain ⟨h1, h2, h3, h4⟩ := h
  unfold difference
  rw [cleaned_eq, add_def]
  ext
  all_goals simp only [add]
  all_goals first | omega | ring

end NavTotals

end CtaManager
