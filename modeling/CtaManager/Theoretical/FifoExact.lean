import CtaManager.Theoretical.FifoAgreement
import CtaManager.Theoretical.Rebuild

/-!
What one theoretical fill conserves.

`ZERO_EPSILON` is the only thing between the FIFO and exact arithmetic: while every amount it
is compared with is kept (`Kept`), the held quantity moves by the fill, and what is realized
less what the lots have cost moves by the price of the fill (`evaluateFill_exact`).
-/

namespace CtaManager.Theoretical

open Check

/-- An amount that `clean_zero` leaves alone. -/
def Kept (value : ℚ) : Prop := cleanZero value = value

instance (value : ℚ) : Decidable (Kept value) := inferInstanceAs (Decidable (_ = _))

theorem kept_iff {value : ℚ} : Kept value ↔ |value| ≤ F64.eps12 → value = 0 := by
  unfold Kept cleanZero
  rw [Exact.abs_eq]
  split
  · next h => exact ⟨fun heq _ => heq.symm, fun heq => (heq h).symm⟩
  · next h => exact iff_of_true rfl fun hle => absurd hle h

theorem Kept.eq_zero {value : ℚ} (h : Kept value) (hsmall : ¬ F64.eps12 < F64.abs value) :
    value = 0 := kept_iff.1 h (not_lt.1 hsmall)

theorem kept_cleanZero (value : ℚ) : Kept (cleanZero value) := by
  rw [kept_iff]
  unfold cleanZero
  rw [Exact.abs_eq]
  split
  · exact fun _ => rfl
  · next h => exact fun hle => absurd hle h

/-! ## Lots -/

def heldQuantity (lots : List (FifoLot ℚ)) : ℚ := (lots.map FifoLot.quantity).sum

/-- What the lots have cost. -/
def heldCost (lots : List (FifoLot ℚ)) : ℚ :=
  (lots.map fun lot => lot.quantity * lot.entryPrice).sum

@[simp] theorem heldQuantity_nil : heldQuantity [] = 0 := rfl

@[simp] theorem heldQuantity_cons (lot : FifoLot ℚ) (lots : List (FifoLot ℚ)) :
    heldQuantity (lot :: lots) = lot.quantity + heldQuantity lots := List.sum_cons

@[simp] theorem heldQuantity_append (l₁ l₂ : List (FifoLot ℚ)) :
    heldQuantity (l₁ ++ l₂) = heldQuantity l₁ + heldQuantity l₂ := by
  unfold heldQuantity
  rw [List.map_append, List.sum_append]

@[simp] theorem heldCost_nil : heldCost [] = 0 := rfl

@[simp] theorem heldCost_cons (lot : FifoLot ℚ) (lots : List (FifoLot ℚ)) :
    heldCost (lot :: lots) = lot.quantity * lot.entryPrice + heldCost lots := List.sum_cons

@[simp] theorem heldCost_append (l₁ l₂ : List (FifoLot ℚ)) :
    heldCost (l₁ ++ l₂) = heldCost l₁ + heldCost l₂ := by
  unfold heldCost
  rw [List.map_append, List.sum_append]

/-- The lots at a mark, less their cost. -/
theorem sum_floating (lots : List (FifoLot ℚ)) (mark : ℚ) :
    (lots.map fun lot => lot.quantity * (mark - lot.entryPrice)).sum =
      heldQuantity lots * mark - heldCost lots := by
  induction lots with
  | nil => simp
  | cons lot lots ih =>
    rw [List.map_cons, List.sum_cons, ih, heldQuantity_cons, heldCost_cons]
    ring

/-! ## One match -/

/-- The amounts that the rounds of `matchLots` clean. -/
def matchAmounts : Nat → List (FifoLot ℚ) → ℚ → List ℚ
  | 0, _, _ => []
  | _ + 1, [], _ => []
  | rounds + 1, front :: rest, remaining =>
    if F64.eps12 < F64.abs remaining then
      if signum front.quantity == signum remaining then []
      else
        let matched := min (F64.abs front.quantity) (F64.abs remaining)
        let direction := signum remaining
        let left := front.quantity + direction * matched
        let unmatched := remaining - direction * matched
        left :: unmatched ::
          (if cleanZero left == 0 then matchAmounts rounds rest (cleanZero unmatched)
          else matchAmounts rounds ({ front with quantity := cleanZero left } :: rest)
            (cleanZero unmatched))
    else []

theorem signum_eq (value : ℚ) : signum value = if value < 0 then -1 else 1 := rfl

/-- One round gains what it closes: the price of the quantity less its cost. -/
theorem round_gain {quantity remaining : ℚ} (hsigns : (signum quantity == signum remaining) = false)
    (matched fillPrice entryPrice : ℚ) (hmatched : matched = min |quantity| |remaining|) :
    (if 0 < quantity then matched * (fillPrice - entryPrice) else matched * (entryPrice - fillPrice)) =
      signum remaining * matched * entryPrice - signum remaining * matched * fillPrice := by
  rw [beq_eq_false_iff_ne, signum_eq, signum_eq] at hsigns
  rw [signum_eq]
  by_cases hneg : quantity < 0
  · rw [if_pos hneg] at hsigns
    have hrem : ¬ remaining < 0 := by
      intro hlt
      rw [if_pos hlt] at hsigns
      exact hsigns rfl
    rw [if_neg hrem, if_neg (not_lt.2 hneg.le)]
    ring
  · rw [if_neg hneg] at hsigns
    have hrem : remaining < 0 := by
      by_contra hge
      rw [if_neg hge] at hsigns
      exact hsigns rfl
    rw [if_pos hrem]
    rcases (not_lt.1 hneg).eq_or_lt with hzero | hpos
    · -- an empty lot matches nothing
      have hnone : matched = 0 := by
        rw [hmatched, ← hzero, abs_zero]
        exact min_eq_left (abs_nonneg _)
      rw [hnone]
      simp
    · rw [if_pos hpos]
      ring

theorem matchLots_exact (fillPrice : ℚ) (rounds : Nat) (lots : List (FifoLot ℚ))
    (remaining realized : ℚ) (hkept : ∀ amount ∈ matchAmounts rounds lots remaining, Kept amount) :
    let result := matchLots fillPrice rounds lots remaining realized
    heldQuantity result.1 + result.2.1 = heldQuantity lots + remaining ∧
      result.2.2 - heldCost result.1 - result.2.1 * fillPrice =
        realized - heldCost lots - remaining * fillPrice := by
  induction rounds generalizing lots remaining realized with
  | zero => exact ⟨rfl, rfl⟩
  | succ rounds ih =>
    cases lots with
    | nil => exact ⟨rfl, rfl⟩
    | cons front rest =>
      unfold matchAmounts at hkept
      unfold matchLots
      by_cases hmore : F64.eps12 < F64.abs remaining
      · by_cases hsigns : (signum front.quantity == signum remaining) = true
        · simp only [if_pos hmore, if_pos hsigns]
          exact ⟨trivial, trivial⟩
        · simp only [if_pos hmore, if_neg hsigns] at hkept ⊢
          rw [Bool.not_eq_true] at hsigns
          have hgain := round_gain hsigns _ fillPrice front.entryPrice rfl
          rw [← Exact.abs_eq, ← Exact.abs_eq] at hgain
          generalize hmatched : min (F64.abs front.quantity) (F64.abs remaining) = matched at hkept hgain ⊢
          obtain ⟨hleft, hunmatched, hkept⟩ : Kept (front.quantity + signum remaining * matched) ∧
              Kept (remaining - signum remaining * matched) ∧ _ := by
            simpa only [List.forall_mem_cons] using hkept
          rw [hgain]
          have hleft' : cleanZero (front.quantity + signum remaining * matched) =
            front.quantity + signum remaining * matched := hleft
          have hunmatched' : cleanZero (remaining - signum remaining * matched) =
            remaining - signum remaining * matched := hunmatched
          rw [hleft', hunmatched'] at hkept ⊢
          by_cases hused : (front.quantity + signum remaining * matched == 0) = true
          · rw [if_pos hused] at hkept ⊢
            obtain ⟨hquantity, hcost⟩ := ih rest _ _ hkept
            rw [beq_iff_eq] at hused
            refine ⟨?_, ?_⟩
            · rw [hquantity, heldQuantity_cons]
              linear_combination -hused
            · rw [hcost, heldCost_cons]
              linear_combination front.entryPrice * hused
          · rw [if_neg hused] at hkept ⊢
            obtain ⟨hquantity, hcost⟩ := ih _ _ _ hkept
            refine ⟨?_, ?_⟩
            · rw [hquantity, heldQuantity_cons, heldQuantity_cons]
              ring
            · rw [hcost, heldCost_cons, heldCost_cons]
              ring
      · simp only [if_neg hmore]
        exact ⟨trivial, trivial⟩

/-- The unmatched rest of a kept fill is kept. -/
theorem kept_matchLots (fillPrice : ℚ) (rounds : Nat) (lots : List (FifoLot ℚ))
    {remaining : ℚ} (realized : ℚ) (h : Kept remaining) :
    Kept (matchLots fillPrice rounds lots remaining realized).2.1 := by
  induction rounds generalizing lots remaining realized with
  | zero => exact h
  | succ rounds ih =>
    cases lots with
    | nil => exact h
    | cons front rest =>
      unfold matchLots
      by_cases hmore : F64.eps12 < F64.abs remaining
      · by_cases hsigns : (signum front.quantity == signum remaining) = true
        · simp only [if_pos hmore, if_pos hsigns]
          exact h
        · simp only [if_pos hmore, if_neg hsigns]
          split
          · exact ih rest _ (kept_cleanZero _)
          · exact ih _ _ (kept_cleanZero _)
      · simp only [if_neg hmore]
        exact h

/-! ## One fill -/

/-- What a fill realizes. -/
def realizedOf (lots : List (FifoLot ℚ)) (quantity price : ℚ) : ℚ :=
  (matchLots price (lots.length + 1) lots quantity 0).2.2

/-- The amounts that a fill compares with `ZERO_EPSILON`. -/
def fillAmounts (state : SymbolState ℚ) (lots : List (FifoLot ℚ)) (quantity price feeRate : ℚ) :
    List ℚ :=
  [quantity, realizedOf lots quantity price,
    state.realizedPnlBeforeFeeQuote + cleanZero (realizedOf lots quantity price),
    state.estimatedTradingFeeQuote + F64.abs quantity * price * feeRate] ++
    matchAmounts (lots.length + 1) lots quantity

theorem applyFifoFill_exact {lots lots' : List (FifoLot ℚ)} {quantity price realized : ℚ}
    {nextLotSeq nextLotSeq' : Int}
    (h : applyFifoFill lots quantity price nextLotSeq = .ok (lots', realized, nextLotSeq'))
    (hquantity : Kept quantity) (hrealized : Kept (realizedOf lots quantity price))
    (hkept : ∀ amount ∈ matchAmounts (lots.length + 1) lots quantity, Kept amount) :
    realized = realizedOf lots quantity price ∧
      heldQuantity lots' = heldQuantity lots + quantity ∧
      realized - heldCost lots' = -heldCost lots - quantity * price := by
  unfold applyFifoFill at h
  obtain ⟨_, -, h⟩ := bind_eq_ok.1 h
  have hmatch := matchLots_exact price (lots.length + 1) lots quantity 0 hkept
  have hrest := kept_matchLots price (lots.length + 1) lots 0 hquantity
  unfold realizedOf at hrealized ⊢
  dsimp only at hmatch
  generalize matchLots price (lots.length + 1) lots quantity 0 = result at h hmatch hrest hrealized ⊢
  obtain ⟨left, remaining, gained⟩ := result
  obtain ⟨hheld, hcost⟩ := hmatch
  dsimp only at h hheld hcost hrest hrealized ⊢
  have hgained : cleanZero gained = gained := hrealized
  by_cases hmore : F64.eps12 < F64.abs remaining
  · rw [if_pos hmore] at h
    obtain ⟨_, -, h⟩ := bind_eq_ok.1 h
    rw [pure_eq_ok, ok_bind] at h
    obtain ⟨_, -, h⟩ := bind_eq_ok.1 h
    rw [pure_eq_ok, Except.ok.injEq, Prod.mk.injEq, Prod.mk.injEq] at h
    obtain ⟨rfl, rfl, -⟩ := h
    rw [hgained]
    refine ⟨rfl, ?_, ?_⟩
    · rw [heldQuantity_append, heldQuantity_cons, heldQuantity_nil, add_zero]
      exact hheld
    · rw [heldCost_append, heldCost_cons, heldCost_nil]
      linear_combination hcost
  · rw [if_neg hmore, pure_eq_ok, ok_bind] at h
    obtain ⟨_, -, h⟩ := bind_eq_ok.1 h
    rw [pure_eq_ok, Except.ok.injEq, Prod.mk.injEq, Prod.mk.injEq] at h
    obtain ⟨rfl, rfl, -⟩ := h
    rw [hgained]
    have hnone := hrest.eq_zero hmore
    refine ⟨rfl, ?_, ?_⟩
    · linear_combination hheld - hnone
    · linear_combination hcost + price * hnone

theorem evaluateFill_exact {state : SymbolState ℚ} {lots : List (FifoLot ℚ)}
    {quantity price feeRate : ℚ} {applied : AppliedFill ℚ}
    (h : evaluateFill state lots quantity price feeRate = .ok applied)
    (hkept : ∀ amount ∈ fillAmounts state lots quantity price feeRate, Kept amount) :
    heldQuantity applied.lots = heldQuantity lots + quantity ∧
      applied.realizedPnlBeforeFeeQuote - heldCost applied.lots =
        state.realizedPnlBeforeFeeQuote - heldCost lots - quantity * price ∧
      applied.cumulativeFeeQuote =
        state.estimatedTradingFeeQuote + |quantity| * price * feeRate := by
  obtain ⟨⟨hquantity, hrealized, htotal, hfee, -⟩, hmatched⟩ :
      (Kept quantity ∧ Kept (realizedOf lots quantity price) ∧
        Kept (state.realizedPnlBeforeFeeQuote + cleanZero (realizedOf lots quantity price)) ∧
        Kept (state.estimatedTradingFeeQuote + F64.abs quantity * price * feeRate) ∧ True) ∧
      ∀ amount ∈ matchAmounts (lots.length + 1) lots quantity, Kept amount := by
    unfold fillAmounts at hkept
    rw [List.forall_mem_append] at hkept
    simpa using hkept
  unfold evaluateFill at h
  obtain ⟨_, -, h⟩ := bind_eq_ok.1 h
  obtain ⟨⟨lots', increment, seq⟩, hfill, h⟩ := bind_eq_ok.1 h
  obtain ⟨_, -, h⟩ := bind_eq_ok.1 h
  obtain ⟨floating, -, h⟩ := bind_eq_ok.1 h
  obtain ⟨_, -, h⟩ := bind_eq_ok.1 h
  rw [pure_eq_ok, Except.ok.injEq] at h
  subst h
  dsimp only
  have hfifo : applyFifoFill lots quantity price state.nextLotSeq = .ok (lots', increment, seq) := by
    cases hresult : applyFifoFill lots quantity price state.nextLotSeq with
    | error e =>
      rw [hresult] at hfill
      cases hfill
    | ok result =>
      rw [hresult] at hfill
      cases hfill
      rfl
  obtain ⟨hincrement, hheld, hcost⟩ := applyFifoFill_exact hfifo hquantity hrealized hmatched
  have hclean : cleanZero (realizedOf lots quantity price) = realizedOf lots quantity price :=
    hrealized
  rw [hclean, ← hincrement] at htotal
  have htotal' : cleanZero (state.realizedPnlBeforeFeeQuote + increment) =
    state.realizedPnlBeforeFeeQuote + increment := htotal
  refine ⟨hheld, ?_, hfee⟩
  rw [htotal']
  linear_combination hcost

theorem floatingPnlAtMark_exact {lots : List (FifoLot ℚ)} {mark floating : ℚ}
    (h : floatingPnlAtMark lots mark = .ok floating)
    (hkept : Kept (heldQuantity lots * mark - heldCost lots)) :
    floating = heldQuantity lots * mark - heldCost lots := by
  unfold floatingPnlAtMark at h
  obtain ⟨_, -, h⟩ := bind_eq_ok.1 h
  obtain ⟨_, -, h⟩ := bind_eq_ok.1 h
  rw [pure_eq_ok, Except.ok.injEq] at h
  rw [← h, Exact.sum_eq, sum_floating]
  exact hkept

end CtaManager.Theoretical
