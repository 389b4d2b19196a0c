import CtaManager.Nav.LinearLedger

/-!
A ledger replayed from empty, in exact arithmetic.

A linear ledger keeps what its trades bring, whatever their order
(`replay_linear`).  An inverse one keeps the signed sum of their face values up to
the dust a trade may leave behind (`replay_inverse`).
-/

namespace CtaManager

/-- A fill as the ledgers see it. -/
structure Trade where
  side : Side
  price : ℚ
  quantity : ℚ
  price_pos : 0 < price
  quantity_pos : 0 < quantity

namespace Trade

def signed (t : Trade) : ℚ := t.side.signed t.quantity

/-- The face value in quote. -/
def signedFace (t : Trade) : ℚ := t.side.signed (t.quantity * t.price)

/-- What the trade is worth at a mark. -/
def gain (mark : ℚ) (t : Trade) : ℚ := t.signed * (mark - t.price)

end Trade

namespace QuantityFifo

def trade (fifo : QuantityFifo ℚ) (t : Trade) : QuantityFifo ℚ :=
  fifo.applyFill t.side t.price t.quantity

/-- The ledger after the trades, from empty. -/
def replay (inverse : Bool) (trades : List Trade) : QuantityFifo ℚ :=
  trades.foldl trade (QuantityFifo.empty inverse)

theorem replay_append_singleton (inverse : Bool) (trades : List Trade) (t : Trade) :
    replay inverse (trades ++ [t]) = (replay inverse trades).trade t := by
  unfold replay
  rw [List.foldl_append, List.foldl_cons, List.foldl_nil]

/-! ## Linear ledgers -/

theorem replay_linear (trades : List Trade) :
    (replay false trades).OneSided ∧
      (replay false trades).netQuantity = (trades.map Trade.signed).sum ∧
      ∀ mark, (replay false trades).value mark = (trades.map (Trade.gain mark)).sum := by
  induction trades using List.reverseRecOn with
  | nil =>
    refine ⟨OneSided.empty, ?_, fun mark => ?_⟩
    · rw [netQuantity_eq rfl]
      simp [replay, QuantityFifo.empty]
    · rw [value_eq rfl]
      simp [replay, QuantityFifo.empty]
  | append_singleton trades t ih =>
    obtain ⟨hside, hnet, hvalue⟩ := ih
    rw [replay_append_singleton]
    unfold trade
    refine ⟨hside.applyFill _ _ _ t.quantity_pos.le, ?_, fun mark => ?_⟩
    · rw [netQuantity_applyFill hside.linear _ _ _ t.quantity_pos.le, hnet, List.map_append,
        List.sum_append]
      simp [Trade.signed]
    · rw [value_applyFill hside.linear _ _ _ _ t.quantity_pos.le, hvalue, List.map_append,
        List.sum_append]
      simp [Trade.gain, Trade.signed]

/-! ## Inverse ledgers -/

/-- The lots of an inverse ledger are of one side; what is in them is face value. -/
structure InverseSided (fifo : QuantityFifo ℚ) : Prop where
  inverse : fifo.inverse = true
  longs : PositiveLots fifo.longs
  shorts : PositiveLots fifo.shorts
  side : fifo.longs = [] ∨ fifo.shorts = []

/-- The signed face value of the lots. -/
def face (fifo : QuantityFifo ℚ) : ℚ := lotQuantity fifo.longs - lotQuantity fifo.shorts

/-- Closing inverse lots: `dust` is lost at most once, when the trade is used up. -/
structure ClosedInverse (lots : List (Lot ℚ)) (quantity : ℚ)
    (result : List (Lot ℚ) × ℚ × ℚ) (dust : ℚ) : Prop where
  quantity_eq : lotQuantity result.1 + dust + quantity = lotQuantity lots + result.2.2
  dust_nonneg : 0 ≤ dust
  dust_le : dust ≤ F64.eps10
  nonneg : 0 ≤ result.2.2
  positive : PositiveLots result.1
  /-- What is left of the trade found no lot, and then no dust was dropped. -/
  exhausted : 0 < result.2.2 → result.1 = [] ∧ dust = 0

theorem closedInverse_closeFifoLoop (closePrice direction : ℚ) (rounds : Nat)
    (lots : List (Lot ℚ)) (quantity realizedPnl : ℚ) (hq : 0 ≤ quantity)
    (hlots : PositiveLots lots) (hrounds : lots.length < rounds) :
    ∃ dust, ClosedInverse lots quantity
      (closeFifoLoop closePrice direction true rounds lots quantity realizedPnl) dust := by
  have heps : (0 : ℚ) ≤ F64.eps10 := by show (0 : ℚ) ≤ 1 / 10000000000; norm_num
  induction rounds generalizing lots quantity realizedPnl with
  | zero => exact absurd hrounds (Nat.not_lt_zero _)
  | succ rounds ih =>
    cases lots with
    | nil =>
      unfold closeFifoLoop
      exact ⟨0, by simp, le_rfl, heps, hq, hlots, fun _ => ⟨rfl, rfl⟩⟩
    | cons lot rest =>
      have hlot := hlots lot List.mem_cons_self
      have hrest : PositiveLots rest := fun l hl => hlots l (List.mem_cons_of_mem _ hl)
      simp only [List.length_cons] at hrounds
      unfold closeFifoLoop
      by_cases hpos : 0 < quantity
      · simp only [if_pos hpos]
        rcases le_total lot.quantity quantity with hle | hle
        · -- the front lot is used up
          have hmin : min quantity lot.quantity = lot.quantity := min_eq_right hle
          rw [if_pos (by simp [hmin])]
          obtain ⟨dust, h⟩ := ih rest (quantity - min quantity lot.quantity)
            (realizedPnl + direction * (closePrice - lot.entryPrice) *
              min quantity lot.quantity / (if true = true then lot.entryPrice else 1))
            (by rw [hmin]; linarith) hrest (by omega)
          refine ⟨dust, ?_, h.dust_nonneg, h.dust_le, h.nonneg, h.positive, h.exhausted⟩
          have := h.quantity_eq
          rw [lotQuantity_cons]
          rw [hmin] at this ⊢
          linarith
        · -- the trade is used up, and the lot keeps the rest unless it is dust
          have hmin : min quantity lot.quantity = quantity := min_eq_left hle
          have hstop : ∀ (l : List (Lot ℚ)) (pnl : ℚ),
              closeFifoLoop closePrice direction true rounds l (quantity - quantity) pnl =
                (l, pnl, 0) := by
            intro l pnl
            cases rounds with
            | zero => omega
            | succ rounds =>
              cases l with
              | nil =>
                unfold closeFifoLoop
                rw [sub_self]
              | cons first l =>
                unfold closeFifoLoop
                rw [sub_self, if_neg (lt_irrefl 0)]
          rw [hmin]
          split
          · rename_i hdust
            rw [hstop]
            refine ⟨lot.quantity - quantity, ?_, sub_nonneg.2 hle, ?_, le_rfl, hrest,
              fun h => absurd h (lt_irrefl 0)⟩
            · rw [lotQuantity_cons]
              ring
            · rcases Bool.or_eq_true_iff.1 hdust with hzero | hsmall
              · have hz : lot.quantity - quantity = 0 := by simpa using hzero
                rw [hz]
                exact heps
              · have hs : F64.abs (lot.quantity - quantity) ≤ F64.eps10 := by simpa using hsmall
                exact (le_abs_self _).trans hs
          · rename_i hkeep
            rw [hstop]
            refine ⟨0, ?_, le_rfl, heps, le_rfl, fun l hl => ?_, fun h => absurd h (lt_irrefl 0)⟩
            · rw [lotQuantity_cons, lotQuantity_cons]
              ring
            · rcases List.mem_cons.1 hl with rfl | hl
              · have hne : lot.quantity - quantity ≠ 0 := fun hz => hkeep (by simp [hz])
                exact lt_of_le_of_ne (sub_nonneg.2 hle) (Ne.symm hne)
              · exact hrest l hl
      · rw [if_neg hpos]
        obtain rfl : quantity = 0 := le_antisymm (not_lt.1 hpos) hq
        exact ⟨0, by simp, le_rfl, heps, le_rfl, hlots, fun h => absurd h (lt_irrefl 0)⟩

/-- A trade on an inverse ledger, up to the dust it leaves behind. -/
theorem trade_inverse {fifo : QuantityFifo ℚ} (h : fifo.InverseSided) (t : Trade) :
    (fifo.trade t).InverseSided ∧
      |(fifo.trade t).face - (fifo.face + t.signedFace)| ≤ F64.eps10 := by
  have heps : (0 : ℚ) < F64.eps10 := by show (0 : ℚ) < 1 / 10000000000; norm_num
  have hq : 0 ≤ t.quantity * t.price := (mul_pos t.quantity_pos t.price_pos).le
  obtain ⟨hinverse, hlongs, hshorts, hside⟩ := h
  -- the lot a trade opens with what is left over, if that is more than dust
  have hopen : ∀ (lots : List (Lot ℚ)) (remaining : ℚ), 0 ≤ remaining → PositiveLots lots →
      PositiveLots (if F64.eps10 < remaining then lots ++ [⟨t.price, remaining⟩] else lots) ∧
      ∃ lost, 0 ≤ lost ∧ lost ≤ F64.eps10 ∧ (lost = 0 ∨ lost = remaining) ∧
        lotQuantity (if F64.eps10 < remaining then lots ++ [⟨t.price, remaining⟩] else lots) =
          lotQuantity lots + remaining - lost := by
    intro lots remaining hr hlots
    split
    · rename_i hbig
      refine ⟨fun lot hlot => ?_, 0, le_rfl, heps.le, Or.inl rfl, by simp⟩
      rcases List.mem_append.1 hlot with hlot | hlot
      · exact hlots lot hlot
      · rw [List.mem_singleton.1 hlot]
        exact heps.trans hbig
    · rename_i hsmall
      exact ⟨hlots, remaining, hr, not_lt.1 hsmall, Or.inr rfl, by ring⟩
  unfold trade applyFill closeFifo
  simp only [hinverse, if_true]
  cases hs : t.side with
  | buy =>
    obtain ⟨dust, hclose⟩ := closedInverse_closeFifoLoop t.price (-1) (fifo.shorts.length + 1)
      fifo.shorts (t.quantity * t.price) 0 hq hshorts (Nat.lt_succ_self _)
    have hempty : fifo.shorts = [] → (closeFifoLoop t.price (-1) true (fifo.shorts.length + 1)
        fifo.shorts (t.quantity * t.price) 0).1 = [] := by
      intro hnil
      rw [hnil]
      rfl
    rcases hresult : closeFifoLoop t.price (-1) true (fifo.shorts.length + 1) fifo.shorts
      (t.quantity * t.price) 0 with ⟨shorts, realizedPnl, remaining⟩
    rw [hresult] at hclose hempty
    obtain ⟨h1, h2, h3, h4, h5, h6⟩ := hclose
    simp only at h1 h4 h5 h6 hempty ⊢
    obtain ⟨hpositive, lost, hl1, hl2, hl3, hl4⟩ := hopen fifo.longs remaining h4 hlongs
    refine ⟨⟨rfl, hpositive, h5, ?_⟩, ?_⟩
    · by_cases hr : F64.eps10 < remaining
      · exact Or.inr (h6 (heps.trans hr)).1
      · rw [if_neg hr]
        rcases hside with hside | hside
        · exact Or.inl hside
        · exact Or.inr (hempty hside)
    · have hface : lotQuantity (if F64.eps10 < remaining then fifo.longs ++ [⟨t.price, remaining⟩]
          else fifo.longs) - lotQuantity shorts - (fifo.face + t.signedFace) = dust - lost := by
        unfold face Trade.signedFace Side.signed
        rw [hs, hl4]
        linarith
      show |lotQuantity _ - lotQuantity shorts - _| ≤ _
      rw [hface, abs_le]
      constructor
      · linarith
      · linarith
  | sell =>
    obtain ⟨dust, hclose⟩ := closedInverse_closeFifoLoop t.price 1 (fifo.longs.length + 1)
      fifo.longs (t.quantity * t.price) 0 hq hlongs (Nat.lt_succ_self _)
    have hempty : fifo.longs = [] → (closeFifoLoop t.price 1 true (fifo.longs.length + 1)
        fifo.longs (t.quantity * t.price) 0).1 = [] := by
      intro hnil
      rw [hnil]
      rfl
    rcases hresult : closeFifoLoop t.price 1 true (fifo.longs.length + 1) fifo.longs
      (t.quantity * t.price) 0 with ⟨longs, realizedPnl, remaining⟩
    rw [hresult] at hclose hempty
    obtain ⟨h1, h2, h3, h4, h5, h6⟩ := hclose
    simp only at h1 h4 h5 h6 hempty ⊢
    obtain ⟨hpositive, lost, hl1, hl2, hl3, hl4⟩ := hopen fifo.shorts remaining h4 hshorts
    refine ⟨⟨rfl, h5, hpositive, ?_⟩, ?_⟩
    · by_cases hr : F64.eps10 < remaining
      · exact Or.inl (h6 (heps.trans hr)).1
      · rw [if_neg hr]
        rcases hside with hside | hside
        · exact Or.inl (hempty hside)
        · exact Or.inr hside
    · have hface : lotQuantity longs - lotQuantity (if F64.eps10 < remaining then
          fifo.shorts ++ [⟨t.price, remaining⟩] else fifo.shorts) -
          (fifo.face + t.signedFace) = lost - dust := by
        unfold face Trade.signedFace Side.signed
        rw [hs, hl4]
        linarith
      show |lotQuantity longs - lotQuantity _ - _| ≤ _
      rw [hface, abs_le]
      constructor
      · linarith
      · linarith

theorem replay_inverse (trades : List Trade) :
    (replay true trades).InverseSided ∧
      |(replay true trades).face - (trades.map Trade.signedFace).sum| ≤
        trades.length * F64.eps10 := by
  induction trades using List.reverseRecOn with
  | nil =>
    refine ⟨⟨rfl, fun _ h => absurd h List.not_mem_nil, fun _ h => absurd h List.not_mem_nil,
      Or.inl rfl⟩, ?_⟩
    simp [replay, empty, face]
  | append_singleton trades t ih =>
    obtain ⟨hside, hface⟩ := ih
    rw [replay_append_singleton]
    obtain ⟨hside', hstep⟩ := trade_inverse hside t
    refine ⟨hside', ?_⟩
    rw [List.map_append, List.sum_append, List.length_append, List.length_singleton]
    simp only [List.map_cons, List.map_nil, List.sum_cons, List.sum_nil, add_zero]
    push_cast
    rw [abs_le] at hface hstep ⊢
    constructor
    · linarith
    · linarith

end QuantityFifo

end CtaManager
