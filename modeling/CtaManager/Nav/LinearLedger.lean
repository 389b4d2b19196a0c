import CtaManager.Nav.State

/-!
The FIFO ledger of a linear market in exact arithmetic.

A trade moves the net quantity by its signed amount and the value (realized plus
floating PnL at a mark) by the amount times the distance from the trade price to
the mark, whichever lots it closes (`netQuantity_applyFill`, `value_applyFill`).
A ledger never holds lots on both sides (`OneSided`), so a flat one is empty.
-/

namespace CtaManager

open Check

/-! ## Lots -/

/-- The quantity of the lots. -/
def lotQuantity (lots : List (Lot ℚ)) : ℚ := (lots.map Lot.quantity).sum

/-- What the lots gain when the mark moves from their entry prices to `mark`. -/
def lotValue (mark : ℚ) (lots : List (Lot ℚ)) : ℚ :=
  (lots.map fun lot => (mark - lot.entryPrice) * lot.quantity).sum

@[simp] theorem lotQuantity_nil : lotQuantity [] = 0 := rfl

@[simp] theorem lotQuantity_cons (lot : Lot ℚ) (lots : List (Lot ℚ)) :
    lotQuantity (lot :: lots) = lot.quantity + lotQuantity lots := by
  simp [lotQuantity]

@[simp] theorem lotQuantity_append (lots more : List (Lot ℚ)) :
    lotQuantity (lots ++ more) = lotQuantity lots + lotQuantity more := by
  simp [lotQuantity]

@[simp] theorem lotValue_nil (mark : ℚ) : lotValue mark [] = 0 := rfl

@[simp] theorem lotValue_cons (mark : ℚ) (lot : Lot ℚ) (lots : List (Lot ℚ)) :
    lotValue mark (lot :: lots) = (mark - lot.entryPrice) * lot.quantity + lotValue mark lots := by
  simp [lotValue]

@[simp] theorem lotValue_append (mark : ℚ) (lots more : List (Lot ℚ)) :
    lotValue mark (lots ++ more) = lotValue mark lots + lotValue mark more := by
  simp [lotValue]

/-- Every lot holds something. -/
def PositiveLots (lots : List (Lot ℚ)) : Prop := ∀ lot ∈ lots, 0 < lot.quantity

theorem lotQuantity_nonneg {lots : List (Lot ℚ)} (h : PositiveLots lots) :
    0 ≤ lotQuantity lots := by
  induction lots with
  | nil => exact le_rfl
  | cons lot lots ih =>
    rw [lotQuantity_cons]
    have hlot := h lot List.mem_cons_self
    have hrest := ih fun l hl => h l (List.mem_cons_of_mem _ hl)
    linarith

theorem eq_nil_of_lotQuantity_eq_zero {lots : List (Lot ℚ)} (h : PositiveLots lots)
    (h0 : lotQuantity lots = 0) : lots = [] := by
  cases lots with
  | nil => rfl
  | cons lot lots =>
    exfalso
    rw [lotQuantity_cons] at h0
    have hlot := h lot List.mem_cons_self
    have hrest := lotQuantity_nonneg fun l hl => h l (List.mem_cons_of_mem _ hl)
    linarith

/-! ## Closing lots -/

/-- What closing does to the lots of a linear ledger: quantity moves from the
lots to the trade, and the value it carried becomes realized. -/
structure Closed (closePrice direction : ℚ) (lots : List (Lot ℚ)) (quantity realizedPnl : ℚ)
    (result : List (Lot ℚ) × ℚ × ℚ) : Prop where
  quantity_eq : lotQuantity result.1 + quantity = lotQuantity lots + result.2.2
  value_eq : ∀ mark, result.2.1 + direction * lotValue mark result.1 =
    realizedPnl + direction * lotValue mark lots -
      direction * (mark - closePrice) * (quantity - result.2.2)
  nonneg : 0 ≤ result.2.2
  positive : PositiveLots lots → PositiveLots result.1

theorem closed_closeFifoLoop (closePrice direction : ℚ) (rounds : Nat) (lots : List (Lot ℚ))
    (quantity realizedPnl : ℚ) (hq : 0 ≤ quantity) :
    Closed closePrice direction lots quantity realizedPnl
      (closeFifoLoop closePrice direction false rounds lots quantity realizedPnl) := by
  induction rounds generalizing lots quantity realizedPnl with
  | zero =>
    unfold closeFifoLoop
    exact ⟨rfl, fun mark => by ring, hq, id⟩
  | succ rounds ih =>
    cases lots with
    | nil =>
      unfold closeFifoLoop
      exact ⟨rfl, fun mark => by ring, hq, id⟩
    | cons lot rest =>
      unfold closeFifoLoop
      by_cases hpos : 0 < quantity
      · have hmatched : 0 ≤ quantity - min quantity lot.quantity :=
          sub_nonneg.2 (min_le_left _ _)
        simp only [if_pos hpos, Bool.false_eq_true, if_false, div_one, Bool.false_and, Bool.or_false]
        by_cases hflat : lot.quantity - min quantity lot.quantity = 0
        · -- the front lot is used up
          rw [if_pos (by simpa using hflat)]
          obtain ⟨h1, h2, h3, h4⟩ := ih rest _ (realizedPnl +
            direction * (closePrice - lot.entryPrice) * min quantity lot.quantity) hmatched
          refine ⟨?_, fun mark => ?_, h3, fun h => h4 fun l hl => h l (List.mem_cons_of_mem _ hl)⟩
          · rw [lotQuantity_cons]
            linarith
          · rw [h2 mark, lotValue_cons]
            have hlot : lot.quantity = min quantity lot.quantity := by linarith
            generalize min quantity lot.quantity = matched at hlot h2 ⊢
            rw [hlot]
            ring
        · -- the front lot keeps the rest
          rw [if_neg (by simpa using hflat)]
          obtain ⟨h1, h2, h3, h4⟩ := ih ({ lot with
            quantity := lot.quantity - min quantity lot.quantity } :: rest) _ (realizedPnl +
            direction * (closePrice - lot.entryPrice) * min quantity lot.quantity) hmatched
          refine ⟨?_, fun mark => ?_, h3, fun h => h4 fun l hl => ?_⟩
          · rw [lotQuantity_cons] at h1 ⊢
            simp only at h1
            linarith
          · rw [h2 mark, lotValue_cons, lotValue_cons]
            ring
          · rcases List.mem_cons.1 hl with rfl | hl
            · have := min_le_right quantity lot.quantity
              exact lt_of_le_of_ne (sub_nonneg.2 this) fun h0 => hflat h0.symm
            · exact h l (List.mem_cons_of_mem _ hl)
      · rw [if_neg hpos]
        exact ⟨rfl, fun mark => by ring, hq, id⟩

/-- A quantity is left over only when no lot is. -/
theorem closeFifoLoop_exhausted (closePrice direction : ℚ) (rounds : Nat) (lots : List (Lot ℚ))
    (quantity realizedPnl : ℚ) (hq : 0 ≤ quantity) (hlots : PositiveLots lots)
    (hrounds : lots.length < rounds)
    (h : 0 < (closeFifoLoop closePrice direction false rounds lots quantity realizedPnl).2.2) :
    (closeFifoLoop closePrice direction false rounds lots quantity realizedPnl).1 = [] := by
  induction rounds generalizing lots quantity realizedPnl with
  | zero => exact absurd hrounds (Nat.not_lt_zero _)
  | succ rounds ih =>
    cases lots with
    | nil =>
      unfold closeFifoLoop
      rfl
    | cons lot rest =>
      unfold closeFifoLoop at h ⊢
      by_cases hpos : 0 < quantity
      · have hmatched : 0 ≤ quantity - min quantity lot.quantity :=
          sub_nonneg.2 (min_le_left _ _)
        simp only [if_pos hpos, Bool.false_eq_true, if_false, div_one, Bool.false_and,
          Bool.or_false] at h ⊢
        by_cases hflat : lot.quantity - min quantity lot.quantity = 0
        · rw [if_pos (by simpa using hflat)] at h ⊢
          refine ih rest _ _ hmatched (fun l hl => hlots l (List.mem_cons_of_mem _ hl)) ?_ h
          simp only [List.length_cons] at hrounds
          omega
        · -- the lot was larger than the trade, so nothing is left over
          exfalso
          rw [if_neg (by simpa using hflat)] at h
          have hzero : quantity - min quantity lot.quantity = 0 := by
            rcases le_total quantity lot.quantity with hle | hle
            · rw [min_eq_left hle, sub_self]
            · rw [min_eq_right hle, sub_self] at hflat
              exact absurd rfl hflat
          rw [hzero] at h
          cases rounds with
          | zero => exact absurd h (lt_irrefl 0)
          | succ rounds =>
            unfold closeFifoLoop at h
            rw [if_neg (lt_irrefl 0)] at h
            exact absurd h (lt_irrefl 0)
      · rw [if_neg hpos] at h
        exact absurd h hpos

/-! ## Ledgers -/

/-- The signed quantity of a trade. -/
def Side.signed (side : Side) (quantity : ℚ) : ℚ :=
  match side with
  | .buy => quantity
  | .sell => -quantity

namespace QuantityFifo

/-- Realized and floating PnL at a mark. -/
def value (fifo : QuantityFifo ℚ) (mark : ℚ) : ℚ := fifo.realizedPnl + fifo.floatingPnl mark

/-- A linear ledger with lots on one side only. -/
structure OneSided (fifo : QuantityFifo ℚ) : Prop where
  linear : fifo.inverse = false
  longs : PositiveLots fifo.longs
  shorts : PositiveLots fifo.shorts
  side : fifo.longs = [] ∨ fifo.shorts = []

theorem netQuantity_eq {fifo : QuantityFifo ℚ} (h : fifo.inverse = false) :
    fifo.netQuantity = lotQuantity fifo.longs - lotQuantity fifo.shorts := by
  unfold netQuantity longQuantity shortQuantity
  rw [h, Exact.sum_eq, Exact.sum_eq]
  simp [lotQuantity]

theorem value_eq {fifo : QuantityFifo ℚ} (h : fifo.inverse = false) (mark : ℚ) :
    fifo.value mark =
      fifo.realizedPnl + lotValue mark fifo.longs - lotValue mark fifo.shorts := by
  have hshort : ∀ lots : List (Lot ℚ),
      (lots.map fun lot => (lot.entryPrice - mark) * lot.quantity).sum = -lotValue mark lots := by
    intro lots
    induction lots with
    | nil => simp
    | cons lot lots ih =>
      rw [List.map_cons, List.sum_cons, ih, lotValue_cons]
      ring
  unfold value floatingPnl
  rw [Exact.sum_eq, List.sum_append]
  simp only [h, Bool.false_eq_true, if_false, div_one]
  rw [hshort]
  unfold lotValue
  ring

/-- A trade on a linear ledger: the lots it closes, and the lot it opens with
what is left over. -/
theorem applyFill_linear {fifo : QuantityFifo ℚ} (h : fifo.inverse = false) (side : Side)
    (price quantity : ℚ) (hq : 0 ≤ quantity) :
    (fifo.applyFill side price quantity).inverse = false ∧
      (fifo.applyFill side price quantity).netQuantity =
        fifo.netQuantity + side.signed quantity ∧
      ∀ mark, (fifo.applyFill side price quantity).value mark =
        fifo.value mark + side.signed quantity * (mark - price) := by
  -- what is left over is in the new lot, or there is nothing left over
  have hopen : ∀ (lots : List (Lot ℚ)) (remaining : ℚ), 0 ≤ remaining →
      lotQuantity (if (0 : ℚ) < remaining then lots ++ [⟨price, remaining⟩] else lots) =
          lotQuantity lots + remaining ∧
        ∀ mark, lotValue mark (if (0 : ℚ) < remaining then lots ++ [⟨price, remaining⟩] else lots) =
          lotValue mark lots + (mark - price) * remaining := by
    intro lots remaining hr
    split
    · simp
    · rename_i hnot
      obtain rfl : remaining = 0 := le_antisymm (not_lt.1 hnot) hr
      simp
  unfold applyFill closeFifo
  simp only [h, Bool.false_eq_true, if_false]
  cases side with
  | buy =>
    have hclose := closed_closeFifoLoop price (-1) (fifo.shorts.length + 1) fifo.shorts quantity 0 hq
    rcases hresult : closeFifoLoop price (-1) false (fifo.shorts.length + 1) fifo.shorts quantity 0
      with ⟨shorts, realizedPnl, remaining⟩
    rw [hresult] at hclose
    obtain ⟨h1, h2, h3, -⟩ := hclose
    obtain ⟨ho1, ho2⟩ := hopen fifo.longs remaining h3
    simp only at h1 h2 h3 ⊢
    refine ⟨trivial, ?_, fun mark => ?_⟩
    · rw [netQuantity_eq rfl, netQuantity_eq h]
      simp only [ho1, Side.signed]
      linarith
    · rw [value_eq rfl, value_eq h]
      simp only [ho2, Side.signed]
      have := h2 mark
      linarith
  | sell =>
    have hclose := closed_closeFifoLoop price 1 (fifo.longs.length + 1) fifo.longs quantity 0 hq
    rcases hresult : closeFifoLoop price 1 false (fifo.longs.length + 1) fifo.longs quantity 0
      with ⟨longs, realizedPnl, remaining⟩
    rw [hresult] at hclose
    obtain ⟨h1, h2, h3, -⟩ := hclose
    obtain ⟨ho1, ho2⟩ := hopen fifo.shorts remaining h3
    simp only at h1 h2 h3 ⊢
    refine ⟨trivial, ?_, fun mark => ?_⟩
    · rw [netQuantity_eq rfl, netQuantity_eq h]
      simp only [ho1, Side.signed]
      linarith
    · rw [value_eq rfl, value_eq h]
      simp only [ho2, Side.signed]
      have := h2 mark
      linarith

theorem netQuantity_applyFill {fifo : QuantityFifo ℚ} (h : fifo.inverse = false) (side : Side)
    (price quantity : ℚ) (hq : 0 ≤ quantity) :
    (fifo.applyFill side price quantity).netQuantity = fifo.netQuantity + side.signed quantity :=
  (applyFill_linear h side price quantity hq).2.1

theorem value_applyFill {fifo : QuantityFifo ℚ} (h : fifo.inverse = false) (side : Side)
    (price quantity mark : ℚ) (hq : 0 ≤ quantity) :
    (fifo.applyFill side price quantity).value mark =
      fifo.value mark + side.signed quantity * (mark - price) :=
  (applyFill_linear h side price quantity hq).2.2 mark

/-- A trade leaves the lots on one side. -/
theorem OneSided.applyFill {fifo : QuantityFifo ℚ} (h : fifo.OneSided) (side : Side)
    (price quantity : ℚ) (hq : 0 ≤ quantity) : (fifo.applyFill side price quantity).OneSided := by
  have hopen : ∀ (lots : List (Lot ℚ)) (remaining : ℚ), PositiveLots lots →
      PositiveLots (if (0 : ℚ) < remaining then lots ++ [⟨price, remaining⟩] else lots) := by
    intro lots remaining hlots
    split
    · rename_i hr
      intro lot hlot
      rcases List.mem_append.1 hlot with hlot | hlot
      · exact hlots lot hlot
      · rw [List.mem_singleton.1 hlot]
        exact hr
    · exact hlots
  obtain ⟨hlinear, hlongs, hshorts, hside⟩ := h
  unfold QuantityFifo.applyFill closeFifo
  simp only [hlinear, Bool.false_eq_true, if_false]
  cases side with
  | buy =>
    have hclose := closed_closeFifoLoop price (-1) (fifo.shorts.length + 1) fifo.shorts quantity 0 hq
    have hexhausted := closeFifoLoop_exhausted price (-1) (fifo.shorts.length + 1) fifo.shorts
      quantity 0 hq hshorts (Nat.lt_succ_self _)
    have hempty : fifo.shorts = [] → (closeFifoLoop price (-1) false (fifo.shorts.length + 1)
        fifo.shorts quantity 0).1 = [] := by
      intro hnil
      rw [hnil]
      rfl
    rcases hresult : closeFifoLoop price (-1) false (fifo.shorts.length + 1) fifo.shorts quantity 0
      with ⟨shorts, realizedPnl, remaining⟩
    rw [hresult] at hclose hexhausted hempty
    simp only at hexhausted hempty ⊢
    refine ⟨rfl, hopen fifo.longs remaining hlongs, hclose.positive hshorts, ?_⟩
    by_cases hr : (0 : ℚ) < remaining
    · exact Or.inr (hexhausted hr)
    · rw [if_neg hr]
      rcases hside with hside | hside
      · exact Or.inl hside
      · exact Or.inr (hempty hside)
  | sell =>
    have hclose := closed_closeFifoLoop price 1 (fifo.longs.length + 1) fifo.longs quantity 0 hq
    have hexhausted := closeFifoLoop_exhausted price 1 (fifo.longs.length + 1) fifo.longs
      quantity 0 hq hlongs (Nat.lt_succ_self _)
    have hempty : fifo.longs = [] → (closeFifoLoop price 1 false (fifo.longs.length + 1)
        fifo.longs quantity 0).1 = [] := by
      intro hnil
      rw [hnil]
      rfl
    rcases hresult : closeFifoLoop price 1 false (fifo.longs.length + 1) fifo.longs quantity 0
      with ⟨longs, realizedPnl, remaining⟩
    rw [hresult] at hclose hexhausted hempty
    simp only at hexhausted hempty ⊢
    refine ⟨rfl, hclose.positive hlongs, hopen fifo.shorts remaining hshorts, ?_⟩
    by_cases hr : (0 : ℚ) < remaining
    · exact Or.inl (hexhausted hr)
    · rw [if_neg hr]
      rcases hside with hside | hside
      · exact Or.inl (hempty hside)
      · exact Or.inr hside

theorem OneSided.empty : (QuantityFifo.empty false : QuantityFifo ℚ).OneSided :=
  ⟨rfl, fun _ h => absurd h List.not_mem_nil, fun _ h => absurd h List.not_mem_nil, Or.inl rfl⟩

/-- A flat ledger has no lots. -/
theorem OneSided.eq_nil_of_flat {fifo : QuantityFifo ℚ} (h : fifo.OneSided)
    (hflat : fifo.netQuantity = 0) : fifo.longs = [] ∧ fifo.shorts = [] := by
  rw [netQuantity_eq h.linear] at hflat
  rcases h.side with hside | hside
  · refine ⟨hside, eq_nil_of_lotQuantity_eq_zero h.shorts ?_⟩
    rw [hside, lotQuantity_nil] at hflat
    linarith
  · refine ⟨eq_nil_of_lotQuantity_eq_zero h.longs ?_, hside⟩
    rw [hside, lotQuantity_nil] at hflat
    linarith

end QuantityFifo

/-! ## Transfers -/

namespace TimelineSourceState

/-- A transfer to a target is a trade of the difference at the reference price;
removing the dust of a flat target removes nothing. -/
theorem transferTo_linear {owner : VenueState ℚ} (h : owner.fifo.OneSided)
    (afterQty referencePrice : ℚ) :
    (transferTo owner afterQty referencePrice).fifo.OneSided ∧
      (transferTo owner afterQty referencePrice).fifo.netQuantity = afterQty ∧
      (∀ mark, (transferTo owner afterQty referencePrice).fifo.value mark =
        owner.fifo.value mark +
          (afterQty - owner.fifo.netQuantity) * (mark - referencePrice)) ∧
      transferTo owner afterQty referencePrice =
        { owner with fifo := (transferTo owner afterQty referencePrice).fifo } := by
  generalize hdelta : afterQty - owner.fifo.netQuantity = delta
  -- the trade, before the dust is removed
  obtain ⟨fifo, hfifo, hside, hnet, hvalue⟩ : ∃ fifo : QuantityFifo ℚ,
      (if (delta == 0) = true then owner.fifo
        else owner.fifo.applyFill (if 0 < delta then Side.buy else Side.sell) referencePrice
          (F64.abs delta)) = fifo ∧ fifo.OneSided ∧
      fifo.netQuantity = owner.fifo.netQuantity + delta ∧
      ∀ mark, fifo.value mark = owner.fifo.value mark + delta * (mark - referencePrice) := by
    by_cases hzero : delta = 0
    · subst hzero
      exact ⟨owner.fifo, by simp, h, by ring, fun mark => by ring⟩
    · have habs : (0 : ℚ) ≤ F64.abs delta := abs_nonneg delta
      have hsigned : (if 0 < delta then Side.buy else Side.sell).signed (F64.abs delta) = delta := by
        rw [Exact.abs_eq]
        by_cases hpos : 0 < delta
        · rw [if_pos hpos, Side.signed, abs_of_pos hpos]
        · rw [if_neg hpos, Side.signed, abs_of_nonpos (not_lt.1 hpos), neg_neg]
      refine ⟨_, by rw [if_neg (by simpa using hzero)], h.applyFill _ _ _ habs, ?_, fun mark => ?_⟩
      · rw [QuantityFifo.netQuantity_applyFill h.linear _ _ _ habs, hsigned]
      · rw [QuantityFifo.value_applyFill h.linear _ _ _ _ habs, hsigned]
  have hclear : (if (afterQty == 0) = true then { fifo with longs := [], shorts := [] } else fifo) =
      fifo := by
    by_cases hzero : afterQty = 0
    · rw [if_pos (by simpa using hzero)]
      obtain ⟨hl, hs⟩ := hside.eq_nil_of_flat (by rw [hnet]; linarith)
      obtain ⟨longs, shorts, realizedPnl, inverse⟩ := fifo
      simp only at hl hs
      rw [hl, hs]
    · rw [if_neg (by simpa using hzero)]
  have htransfer : transferTo owner afterQty referencePrice = { owner with fifo } := by
    unfold transferTo
    simp only [hdelta, hfifo, hclear]
  rw [htransfer]
  exact ⟨hside, by rw [hnet]; linarith, hvalue, rfl⟩

end TimelineSourceState

end CtaManager
