import CtaManager.Nav.FifoReplay
import CtaManager.Theoretical.Fifo

/-!
The theoretical FIFO against the factual ledger of a linear market.

The one queue of signed lots holds what the two queues of the ledger hold
(`signedLots`).  While no lot or remainder comes within `ZERO_EPSILON` of zero
without being zero (`DustFree`), both match alike; the theoretical side then
cleans the PnL it reports.
-/

namespace CtaManager

open Check

/-! ## Runs without dust -/

/-- Zero, or well above `ZERO_EPSILON`. -/
def Clear (value : ℚ) : Prop := value = 0 ∨ F64.eps12 < value

instance (value : ℚ) : Decidable (Clear value) := inferInstanceAs (Decidable (_ ∨ _))

/-- Every remainder of a close and every lot it takes from is clear. -/
def CloseClear : List (Lot ℚ) → ℚ → Prop
  | [], _ => True
  | lot :: rest, quantity =>
    quantity = 0 ∨
      (Clear (quantity - min quantity lot.quantity) ∧
        Clear (lot.quantity - min quantity lot.quantity) ∧
        CloseClear rest (quantity - min quantity lot.quantity))

instance CloseClear.decidable : (lots : List (Lot ℚ)) → (quantity : ℚ) →
    Decidable (CloseClear lots quantity)
  | [], _ => isTrue trivial
  | lot :: rest, quantity =>
    let _ := CloseClear.decidable rest (quantity - min quantity lot.quantity)
    inferInstanceAs (Decidable (_ ∨ _))

namespace QuantityFifo

/-- The lots a trade closes. -/
def closable (fifo : QuantityFifo ℚ) : Side → List (Lot ℚ)
  | .buy => fifo.shorts
  | .sell => fifo.longs

/-- No trade of the run meets dust. -/
def DustFree : QuantityFifo ℚ → List Trade → Prop
  | _, [] => True
  | fifo, t :: trades =>
    F64.eps12 < t.quantity ∧ CloseClear (fifo.closable t.side) t.quantity ∧
      DustFree (fifo.trade t) trades

instance DustFree.decidable : (fifo : QuantityFifo ℚ) → (trades : List Trade) →
    Decidable (DustFree fifo trades)
  | _, [] => isTrue trivial
  | fifo, t :: trades =>
    let _ := DustFree.decidable (fifo.trade t) trades
    inferInstanceAs (Decidable (_ ∧ _ ∧ _))

/-- What each trade of the run realizes. -/
def realizedSteps : QuantityFifo ℚ → List Trade → List ℚ
  | _, [] => []
  | fifo, t :: trades =>
    ((fifo.trade t).realizedPnl - fifo.realizedPnl) :: realizedSteps (fifo.trade t) trades

theorem sum_realizedSteps (fifo : QuantityFifo ℚ) (trades : List Trade) :
    (fifo.realizedSteps trades).sum =
      (trades.foldl trade fifo).realizedPnl - fifo.realizedPnl := by
  induction trades generalizing fifo with
  | nil => simp [realizedSteps]
  | cons t trades ih =>
    rw [realizedSteps, List.sum_cons, ih, List.foldl_cons]
    ring

/-- Prices and signed quantities of the lots. -/
def signedLots (fifo : QuantityFifo ℚ) : List (ℚ × ℚ) :=
  fifo.longs.map (fun lot => (lot.entryPrice, lot.quantity)) ++
    fifo.shorts.map (fun lot => (lot.entryPrice, -lot.quantity))

end QuantityFifo

namespace Theoretical

/-- The price and signed quantity of a lot. -/
def FifoLot.signed (lot : FifoLot ℚ) : ℚ × ℚ := (lot.entryPrice, lot.quantity)

/-- One `apply_fifo_fill`: the lots, what each fill realized so far, and the next
lot number. -/
def replayFill : List (FifoLot ℚ) × List ℚ × Int → Trade →
    Except FifoError (List (FifoLot ℚ) × List ℚ × Int)
  | (lots, realized, nextLotSeq), t => do
    let (lots, increment, nextLotSeq) ← applyFifoFill lots t.signed t.price nextLotSeq
    return (lots, realized ++ [increment], nextLotSeq)

/-- `apply_fifo_fill` fill by fill, from no lots. -/
def replay (firstLotSeq : Int) (trades : List Trade) :
    Except FifoError (List (FifoLot ℚ) × List ℚ × Int) :=
  trades.foldlM replayFill ([], [], firstLotSeq)

/-! ## One fill -/

theorem cleanZero_of_clear {value : ℚ} (h : Clear value) : cleanZero value = value := by
  rcases h with rfl | h
  · unfold cleanZero
    split <;> rfl
  · unfold cleanZero
    have : ¬F64.abs value ≤ (F64.eps12 : ℚ) := not_le.2 (h.trans_le (le_abs_self value))
    rw [if_neg this]

/-- The sign of the held lots. -/
def IsSign (direction : ℚ) : Prop := direction = 1 ∨ direction = -1

theorem IsSign.neg {direction : ℚ} (h : IsSign direction) : IsSign (-direction) := by
  rcases h with rfl | rfl
  · exact Or.inr rfl
  · exact Or.inl (neg_neg 1)

theorem IsSign.abs_mul {direction value : ℚ} (h : IsSign direction) (hv : 0 ≤ value) :
    F64.abs (direction * value) = value := by
  show |direction * value| = value
  rcases h with rfl | rfl
  · rw [one_mul, abs_of_nonneg hv]
  · rw [neg_one_mul, abs_neg, abs_of_nonneg hv]

theorem IsSign.signum_mul {direction value : ℚ} (h : IsSign direction) (hv : 0 < value) :
    signum (direction * value) = direction := by
  unfold signum
  rcases h with rfl | rfl
  · rw [one_mul, if_neg (not_lt.2 hv.le)]
  · rw [neg_one_mul, if_pos (neg_neg_iff_pos.2 hv)]

theorem IsSign.cleanZero_mul {direction value : ℚ} (h : IsSign direction) (hv : Clear value) :
    cleanZero (direction * value) = direction * value := by
  rcases hv with rfl | hv
  · rw [mul_zero]
    exact cleanZero_of_clear (Or.inl rfl)
  · have hpos : 0 < value := lt_trans (by show (0 : ℚ) < 1 / 1000000000000; norm_num) hv
    unfold cleanZero
    rw [h.abs_mul hpos.le, if_neg (not_le.2 hv)]

theorem IsSign.ne_neg {direction : ℚ} (h : IsSign direction) : direction ≠ -direction := by
  rcases h with rfl | rfl <;> norm_num

/-- The queue of a one-sided ledger matches what the ledger closes. -/
theorem matchLots_closeFifoLoop (closePrice : ℚ) {direction : ℚ} (hd : IsSign direction)
    (rounds : Nat) (lots : List (Lot ℚ)) (queue : List (FifoLot ℚ)) (quantity realized : ℚ)
    (hqueue : queue.map FifoLot.signed =
      lots.map fun lot => (lot.entryPrice, direction * lot.quantity))
    (hlots : PositiveLots lots) (hq : Clear quantity) (hclear : CloseClear lots quantity)
    (hrounds : lots.length < rounds) :
    ∃ queue', matchLots closePrice rounds queue (-direction * quantity) realized =
        (queue',
          -direction * (closeFifoLoop closePrice direction false rounds lots quantity realized).2.2,
          (closeFifoLoop closePrice direction false rounds lots quantity realized).2.1) ∧
      (queue'.map FifoLot.signed =
        (closeFifoLoop closePrice direction false rounds lots quantity realized).1.map
          fun lot => (lot.entryPrice, direction * lot.quantity)) ∧
      Clear (closeFifoLoop closePrice direction false rounds lots quantity realized).2.2 := by
  have heps : (0 : ℚ) < F64.eps12 := by show (0 : ℚ) < 1 / 1000000000000; norm_num
  induction rounds generalizing lots queue quantity realized with
  | zero => exact absurd hrounds (Nat.not_lt_zero _)
  | succ rounds ih =>
    cases lots with
    | nil =>
      obtain rfl : queue = [] := by simpa using hqueue
      exact ⟨[], rfl, rfl, hq⟩
    | cons lot rest =>
      obtain ⟨front, tail, rfl, hfront, htail⟩ := List.map_eq_cons_iff.1 hqueue
      have hlot := hlots lot List.mem_cons_self
      have hrest : PositiveLots rest := fun l hl => hlots l (List.mem_cons_of_mem _ hl)
      obtain ⟨hprice, hquantity⟩ : front.entryPrice = lot.entryPrice ∧
          front.quantity = direction * lot.quantity := by
        unfold FifoLot.signed at hfront
        simpa using hfront
      unfold closeFifoLoop matchLots
      rcases hq with rfl | hbig
      · -- the fill is used up: both loops stop
        refine ⟨front :: tail, ?_, ?_, Or.inl ?_⟩
        · rw [mul_zero, if_neg (by show ¬(F64.eps12 : ℚ) < |0|; rw [abs_zero]; exact not_lt.2 heps.le),
            if_neg (lt_irrefl 0), mul_zero]
        · rw [if_neg (lt_irrefl 0)]
          exact hqueue
        · rw [if_neg (lt_irrefl 0)]
      · have hpos : 0 < quantity := heps.trans hbig
        obtain ⟨hleft, hkept, hclear⟩ := hclear.resolve_left hpos.ne'
        have habs : F64.abs (-direction * quantity) = quantity := hd.neg.abs_mul hpos.le
        have hsigns : (signum front.quantity == signum (-direction * quantity)) = false := by
          rw [hquantity, hd.signum_mul hlot, hd.neg.signum_mul hpos]
          exact beq_false_of_ne hd.ne_neg
        have hmatched : min (F64.abs front.quantity) quantity = min quantity lot.quantity := by
          rw [hquantity, hd.abs_mul hlot.le, min_comm]
        have hgain : (if 0 < front.quantity then
              min quantity lot.quantity * (closePrice - front.entryPrice)
            else min quantity lot.quantity * (front.entryPrice - closePrice)) =
            direction * (closePrice - lot.entryPrice) * min quantity lot.quantity := by
          rw [hquantity, hprice]
          rcases hd with rfl | rfl
          · rw [if_pos (by linarith)]
            ring
          · rw [if_neg (by linarith)]
            ring
        have hremaining : cleanZero (-direction * quantity -
            signum (-direction * quantity) * min quantity lot.quantity) =
            -direction * (quantity - min quantity lot.quantity) := by
          rw [hd.neg.signum_mul hpos, ← mul_sub, hd.neg.cleanZero_mul hleft]
        have hfrontLeft : cleanZero (front.quantity +
            signum (-direction * quantity) * min quantity lot.quantity) =
            direction * (lot.quantity - min quantity lot.quantity) := by
          rw [hd.neg.signum_mul hpos, hquantity, neg_mul, ← sub_eq_add_neg, ← mul_sub,
            hd.cleanZero_mul hkept]
        simp only [habs, if_pos hbig, hsigns, hmatched, hgain, hremaining, hfrontLeft, if_pos hpos,
          Bool.false_eq_true, if_false, Bool.false_and, Bool.or_false, div_one, beq_iff_eq]
        simp only [List.length_cons] at hrounds
        by_cases hused : lot.quantity - min quantity lot.quantity = 0
        · rw [hused, mul_zero, if_pos rfl, if_pos rfl]
          exact ih rest tail _ _ htail hrest hleft hclear (by omega)
        · -- the fill is used up, and the front lot stays with the rest
          have hne : direction * (lot.quantity - min quantity lot.quantity) ≠ 0 := by
            rcases hd with rfl | rfl
            · rwa [one_mul]
            · rwa [neg_one_mul, neg_ne_zero]
          rw [if_neg hused, if_neg hne]
          have hmin : min quantity lot.quantity = quantity := by
            rcases le_total lot.quantity quantity with hle | hle
            · exact absurd (by rw [min_eq_right hle, sub_self]) hused
            · exact min_eq_left hle
          have hstop : quantity - min quantity lot.quantity = 0 := by rw [hmin, sub_self]
          rw [hstop, mul_zero]
          cases rounds with
          | zero => omega
          | succ rounds =>
            unfold closeFifoLoop matchLots
            rw [if_neg (by show ¬(F64.eps12 : ℚ) < |0|; rw [abs_zero]; exact not_lt.2 heps.le),
              if_neg (lt_irrefl 0)]
            refine ⟨_, Prod.ext rfl (Prod.ext (mul_zero _).symm rfl), ?_, Or.inl rfl⟩
            rw [List.map_cons, List.map_cons, htail]
            unfold FifoLot.signed
            rw [hprice]

/-- A queue of the sign of the fill is left alone. -/
theorem matchLots_same_sign (fillPrice : ℚ) {direction : ℚ} (hd : IsSign direction) (rounds : Nat)
    {lots : List (Lot ℚ)} {queue : List (FifoLot ℚ)}
    (hqueue : queue.map FifoLot.signed =
      lots.map fun lot => (lot.entryPrice, direction * lot.quantity))
    (hlots : PositiveLots lots) {quantity : ℚ} (hq : 0 < quantity) (realized : ℚ) :
    matchLots fillPrice (rounds + 1) queue (direction * quantity) realized =
      (queue, direction * quantity, realized) := by
  cases lots with
  | nil =>
    obtain rfl : queue = [] := by simpa using hqueue
    rfl
  | cons lot rest =>
    obtain ⟨front, tail, rfl, hfront, -⟩ := List.map_eq_cons_iff.1 hqueue
    have hquantity : front.quantity = direction * lot.quantity := by
      unfold FifoLot.signed at hfront
      exact (Prod.mk.inj hfront).2
    have hsigns : (signum front.quantity == signum (direction * quantity)) = true := by
      rw [hquantity, hd.signum_mul (hlots lot List.mem_cons_self), hd.signum_mul hq, beq_self_eq_true]
    unfold matchLots
    simp only [hsigns, if_true, ite_self]

/-- A fill of `direction` on a queue that holds the lots of one side. -/
theorem matchLots_fill (fillPrice : ℚ) {direction : ℚ} (hd : IsSign direction)
    {own other : List (Lot ℚ)} (hside : own = [] ∨ other = []) (hown : PositiveLots own)
    (hother : PositiveLots other) {queue : List (FifoLot ℚ)}
    (hqueue : queue.map FifoLot.signed =
      (own.map fun lot => (lot.entryPrice, direction * lot.quantity)) ++
        other.map fun lot => (lot.entryPrice, -direction * lot.quantity))
    {quantity : ℚ} (hq : F64.eps12 < quantity) (hclear : CloseClear other quantity)
    {closed : List (Lot ℚ) × ℚ × ℚ}
    (hclosed : closeFifo other fillPrice quantity (-direction) false = closed) :
    ∃ queue', matchLots fillPrice (queue.length + 1) queue (direction * quantity) 0 =
        (queue', direction * closed.2.2, closed.2.1) ∧
      (queue'.map FifoLot.signed =
        (own.map fun lot => (lot.entryPrice, direction * lot.quantity)) ++
          closed.1.map fun lot => (lot.entryPrice, -direction * lot.quantity)) ∧
      Clear closed.2.2 := by
  subst hclosed
  rcases hside with rfl | rfl
  · have hlength : queue.length = other.length := by
      simpa using congrArg List.length hqueue
    have h := matchLots_closeFifoLoop fillPrice hd.neg (other.length + 1) other queue quantity 0
      (by simpa using hqueue) hother (Or.inr hq) hclear (Nat.lt_succ_self _)
    rw [neg_neg] at h
    rw [hlength]
    exact h
  · have hpos : 0 < quantity := lt_trans (by show (0 : ℚ) < 1 / 1000000000000; norm_num) hq
    refine ⟨queue, ?_, hqueue, Or.inr hq⟩
    exact matchLots_same_sign fillPrice hd _ (by simpa using hqueue) hown hpos 0

/-- What `applyFifoFill` makes of the match: the rest of the fill opens a lot. -/
theorem applyFifoFill_eq {queue queue' : List (FifoLot ℚ)} {fillPrice direction quantity : ℚ}
    (hd : IsSign direction) (hprice : 0 < fillPrice) {rest realized : ℚ} {nextLotSeq : Int}
    (hmatch : matchLots fillPrice (queue.length + 1) queue (direction * quantity) 0 =
      (queue', direction * rest, realized))
    (hrest : Clear rest) (hseq : nextLotSeq < maxLotSeq) :
    applyFifoFill queue (direction * quantity) fillPrice nextLotSeq =
      .ok (if 0 < rest then
            (queue' ++ [{ seq := nextLotSeq, quantity := direction * rest, entryPrice := fillPrice }],
              cleanZero realized, nextLotSeq + 1)
          else (queue', cleanZero realized, nextLotSeq)) := by
  have heps : (0 : ℚ) < F64.eps12 := by show (0 : ℚ) < 1 / 1000000000000; norm_num
  have hpositive : isPositive fillPrice = true := (Exact.isPositive_iff fillPrice).2 hprice
  unfold applyFifoFill
  rcases hrest with rfl | hrest
  · have habs : ¬(F64.eps12 : ℚ) < F64.abs (direction * 0) := by
      rw [hd.abs_mul le_rfl]
      exact not_lt.2 heps.le
    simp only [hmatch, habs, hpositive, Exact.isFinite_eq, ensure, Bool.and_self, if_true, if_false,
      lt_irrefl]
    rfl
  · have hpos := heps.trans hrest
    have habs : (F64.eps12 : ℚ) < F64.abs (direction * rest) := by
      rw [hd.abs_mul hpos.le]
      exact hrest
    simp only [hmatch, habs, hpositive, Exact.isFinite_eq, ensure, Bool.and_self, if_true, hseq,
      hpos, decide_true]
    rfl

/-- A fill on agreeing queues: the same lots after it, and the same realized PnL. -/
theorem applyFifoFill_agrees {fifo : QuantityFifo ℚ} (hside : fifo.OneSided)
    {queue : List (FifoLot ℚ)} (hqueue : queue.map FifoLot.signed = fifo.signedLots) (t : Trade)
    (hbig : F64.eps12 < t.quantity) (hclear : CloseClear (fifo.closable t.side) t.quantity)
    {nextLotSeq : Int} (hseq : nextLotSeq < maxLotSeq) :
    ∃ queue' next, applyFifoFill queue t.signed t.price nextLotSeq =
        .ok (queue', cleanZero ((fifo.trade t).realizedPnl - fifo.realizedPnl), next) ∧
      queue'.map FifoLot.signed = (fifo.trade t).signedLots ∧ next ≤ nextLotSeq + 1 := by
  obtain ⟨hlinear, hlongs, hshorts, hempty⟩ := hside
  have hq := t.quantity_pos
  unfold QuantityFifo.trade QuantityFifo.applyFill Trade.signed
  simp only [hlinear, Bool.false_eq_true, if_false]
  unfold QuantityFifo.signedLots at hqueue ⊢
  cases hs : t.side with
  | buy =>
    rw [hs] at hclear
    simp only [QuantityFifo.closable] at hclear
    have hexhausted := closeFifoLoop_exhausted t.price (-1) (fifo.shorts.length + 1) fifo.shorts
      t.quantity 0 hq.le hshorts (Nat.lt_succ_self _)
    rcases hclose : closeFifo fifo.shorts t.price t.quantity (-1) false with
      ⟨shorts, realizedPnl, remaining⟩
    obtain ⟨queue', hmatch, hlots, hremaining⟩ := matchLots_fill t.price (Or.inl rfl) hempty hlongs
      hshorts (by simpa using hqueue) hbig hclear hclose
    unfold closeFifo at hclose
    rw [hclose] at hexhausted
    have happly := applyFifoFill_eq (Or.inl rfl) t.price_pos hmatch hremaining hseq
    rw [one_mul] at happly
    rw [Side.signed, happly]
    simp only [add_sub_cancel_left] at hexhausted hlots ⊢
    by_cases hr : 0 < remaining
    · simp only [if_pos hr]
      refine ⟨_, _, rfl, ?_, le_rfl⟩
      rw [List.map_append, hlots, hexhausted hr]
      simp [FifoLot.signed]
    · simp only [if_neg hr]
      refine ⟨_, _, rfl, ?_, by omega⟩
      rw [hlots]
      simp
  | sell =>
    rw [hs] at hclear
    simp only [QuantityFifo.closable] at hclear
    have hexhausted := closeFifoLoop_exhausted t.price 1 (fifo.longs.length + 1) fifo.longs
      t.quantity 0 hq.le hlongs (Nat.lt_succ_self _)
    rcases hclose : closeFifo fifo.longs t.price t.quantity 1 false with
      ⟨longs, realizedPnl, remaining⟩
    have hqueue' : queue.map FifoLot.signed =
        (fifo.shorts.map fun lot => (lot.entryPrice, -1 * lot.quantity)) ++
          fifo.longs.map fun lot => (lot.entryPrice, - -1 * lot.quantity) := by
      rw [hqueue]
      rcases hempty with hnil | hnil
      · simp [hnil]
      · simp [hnil]
    have hclose' : closeFifo fifo.longs t.price t.quantity (- -1) false =
        (longs, realizedPnl, remaining) := by
      rw [neg_neg, hclose]
    obtain ⟨queue', hmatch, hlots, hremaining⟩ := matchLots_fill t.price (Or.inr rfl)
      hempty.symm hshorts hlongs hqueue' hbig hclear hclose'
    have hnil : fifo.longs = [] → longs = [] := by
      intro hnil
      rw [hnil] at hclose
      exact (congrArg Prod.fst hclose).symm
    unfold closeFifo at hclose
    rw [hclose] at hexhausted
    have happly := applyFifoFill_eq (Or.inr rfl) t.price_pos hmatch hremaining hseq
    rw [neg_one_mul] at happly
    rw [Side.signed, happly]
    simp only [add_sub_cancel_left] at hexhausted hlots ⊢
    by_cases hr : 0 < remaining
    · simp only [if_pos hr]
      refine ⟨_, _, rfl, ?_, le_rfl⟩
      rw [List.map_append, hlots, hexhausted hr]
      simp [FifoLot.signed]
    · simp only [if_neg hr]
      refine ⟨_, _, rfl, ?_, by omega⟩
      rw [hlots]
      rcases hempty with hempty | hempty
      · simp [hnil hempty]
      · simp [hempty]

/-! ## Runs -/

theorem foldlM_replayFill (trades : List Trade) {fifo : QuantityFifo ℚ} (hside : fifo.OneSided)
    {queue : List (FifoLot ℚ)} (hqueue : queue.map FifoLot.signed = fifo.signedLots)
    (hclear : fifo.DustFree trades) (realized : List ℚ) {nextLotSeq : Int}
    (hseq : nextLotSeq + trades.length ≤ maxLotSeq) :
    ∃ queue' next, trades.foldlM replayFill (queue, realized, nextLotSeq) =
        .ok (queue', realized ++ (fifo.realizedSteps trades).map cleanZero, next) ∧
      queue'.map FifoLot.signed = (trades.foldl QuantityFifo.trade fifo).signedLots := by
  induction trades generalizing fifo queue realized nextLotSeq with
  | nil => exact ⟨queue, nextLotSeq, by simp [QuantityFifo.realizedSteps]; rfl, hqueue⟩
  | cons t trades ih =>
    obtain ⟨hbig, hclose, hrest⟩ := hclear
    rw [List.length_cons] at hseq
    push_cast at hseq
    obtain ⟨queue', next, happly, hqueue', hnext⟩ := applyFifoFill_agrees hside hqueue t hbig hclose
      (show nextLotSeq < maxLotSeq by omega)
    obtain ⟨queue'', last, hfold, hqueue''⟩ := ih
      (hside.applyFill t.side t.price t.quantity t.quantity_pos.le) hqueue' hrest
      (realized ++ [cleanZero ((fifo.trade t).realizedPnl - fifo.realizedPnl)])
      (show next + trades.length ≤ maxLotSeq by omega)
    have hstep : replayFill (queue, realized, nextLotSeq) t =
        .ok (queue', realized ++ [cleanZero ((fifo.trade t).realizedPnl - fifo.realizedPnl)],
          next) := by
      simp only [replayFill, happly]
      rfl
    refine ⟨queue'', last, ?_, hqueue''⟩
    rw [List.foldlM_cons, hstep, ok_bind, hfold, QuantityFifo.realizedSteps, List.map_cons,
      List.append_assoc]
    rfl

theorem replay_agrees (firstLotSeq : Int) (trades : List Trade)
    (hclear : (QuantityFifo.empty false).DustFree trades)
    (hseq : firstLotSeq + trades.length ≤ maxLotSeq) :
    ∃ queue next, replay firstLotSeq trades =
        .ok (queue, ((QuantityFifo.empty false).realizedSteps trades).map cleanZero, next) ∧
      queue.map FifoLot.signed = (QuantityFifo.replay false trades).signedLots :=
  foldlM_replayFill trades QuantityFifo.OneSided.empty rfl hclear [] hseq

theorem floatingPnlAtMark_agrees {fifo : QuantityFifo ℚ} (hlinear : fifo.inverse = false)
    {queue : List (FifoLot ℚ)} (hqueue : queue.map FifoLot.signed = fifo.signedLots)
    {mark : ℚ} (hmark : 0 < mark) :
    floatingPnlAtMark queue mark = .ok (cleanZero (fifo.floatingPnl mark)) := by
  have hsum : F64.sum (queue.map fun lot => lot.quantity * (mark - lot.entryPrice)) =
      fifo.floatingPnl mark := by
    have hmap : (queue.map fun lot => lot.quantity * (mark - lot.entryPrice)) =
        (queue.map FifoLot.signed).map fun lot => lot.2 * (mark - lot.1) := by
      rw [List.map_map]
      rfl
    unfold QuantityFifo.floatingPnl
    rw [hmap, hqueue]
    unfold QuantityFifo.signedLots
    rw [List.map_append, List.map_map, List.map_map]
    simp only [hlinear, Bool.false_eq_true, if_false, div_one]
    congr 2
    · refine List.map_congr_left fun lot _ => ?_
      show lot.quantity * (mark - lot.entryPrice) = _
      ring
    · refine List.map_congr_left fun lot _ => ?_
      show -lot.quantity * (mark - lot.entryPrice) = _
      ring
  have hpositive : isPositive mark = true := (Exact.isPositive_iff mark).2 hmark
  unfold floatingPnlAtMark
  rw [hsum]
  simp only [hpositive, ensure_true, Exact.isFinite_eq]
  rfl

end Theoretical

/-! ## Both FIFOs -/

/-- A linear ledger conserves what its trades bring, in any order of them; the
theoretical FIFO holds the same lots and reports the same PnL, cleaned; an inverse
ledger keeps its face value up to the dust of each trade. -/
theorem fifo_replay (trades : List Trade) (firstLotSeq : Int) :
    (QuantityFifo.replay false trades).OneSided ∧
      lotQuantity (QuantityFifo.replay false trades).longs -
        lotQuantity (QuantityFifo.replay false trades).shorts = (trades.map Trade.signed).sum ∧
      (∀ order : List Trade, order.Perm trades → ∀ mark, 0 < mark →
        (QuantityFifo.replay false order).realizedPnl +
            (QuantityFifo.replay false order).floatingPnl mark =
          (trades.map (Trade.gain mark)).sum) ∧
      ((QuantityFifo.empty false).DustFree trades →
        firstLotSeq + trades.length ≤ Theoretical.maxLotSeq →
        ((QuantityFifo.empty false).realizedSteps trades).sum =
            (QuantityFifo.replay false trades).realizedPnl ∧
          ∃ queue next, Theoretical.replay firstLotSeq trades =
              .ok (queue, ((QuantityFifo.empty false).realizedSteps trades).map
                Theoretical.cleanZero, next) ∧
            queue.map Theoretical.FifoLot.signed =
              (QuantityFifo.replay false trades).signedLots ∧
            ∀ mark, 0 < mark → Theoretical.floatingPnlAtMark queue mark =
              .ok (Theoretical.cleanZero
                ((QuantityFifo.replay false trades).floatingPnl mark))) ∧
      (QuantityFifo.replay true trades).InverseSided ∧
      |(QuantityFifo.replay true trades).face - (trades.map Trade.signedFace).sum| ≤
        trades.length * F64.eps10 := by
  obtain ⟨hside, hnet, -⟩ := QuantityFifo.replay_linear trades
  obtain ⟨hinverse, hface⟩ := QuantityFifo.replay_inverse trades
  refine ⟨hside, ?_, fun order horder mark _ => ?_, fun hclear hseq => ⟨?_, ?_⟩, hinverse, hface⟩
  · rw [← QuantityFifo.netQuantity_eq hside.linear, hnet]
  · obtain ⟨-, -, hvalue⟩ := QuantityFifo.replay_linear order
    show (QuantityFifo.replay false order).value mark = _
    rw [hvalue]
    exact (horder.map _).sum_eq
  · rw [QuantityFifo.sum_realizedSteps]
    show (QuantityFifo.replay false trades).realizedPnl - 0 = _
    rw [sub_zero]
  · obtain ⟨queue, next, hreplay, hqueue⟩ :=
      Theoretical.replay_agrees firstLotSeq trades hclear hseq
    exact ⟨queue, next, hreplay, hqueue, fun mark hmark =>
      Theoretical.floatingPnlAtMark_agrees hside.linear hqueue hmark⟩

/-- A position of one, and a small part of it sold a little higher. -/
def smallGain : List Trade :=
  [{ side := .buy, price := 1, quantity := 1, price_pos := by norm_num, quantity_pos := by norm_num },
    { side := .sell, price := 1 + 1 / 10000000000, quantity := 1 / 1000
      price_pos := by norm_num, quantity_pos := by norm_num }]

/-- A position of one is sold three times over, and a part of the short bought back. -/
def reversal : List Trade :=
  [{ side := .buy, price := 1, quantity := 1, price_pos := by norm_num, quantity_pos := by norm_num },
    { side := .sell, price := 2, quantity := 3, price_pos := by norm_num, quantity_pos := by norm_num },
    { side := .buy, price := 4, quantity := 1, price_pos := by norm_num, quantity_pos := by norm_num }]

/-- Through the change of sign the two FIFOs hold the same lots; the other order of the trades
brings the same value. -/
theorem fifo_replay_round_trip : (QuantityFifo.replay false reversal).OneSided ∧
    lotQuantity (QuantityFifo.replay false reversal).longs -
      lotQuantity (QuantityFifo.replay false reversal).shorts = -1 ∧
    (QuantityFifo.replay false reversal.reverse).realizedPnl +
        (QuantityFifo.replay false reversal.reverse).floatingPnl 3 = -2 ∧
    ∃ queue next, Theoretical.replay 1 reversal =
        .ok (queue, ((QuantityFifo.empty false).realizedSteps reversal).map
          Theoretical.cleanZero, next) ∧
      queue.map Theoretical.FifoLot.signed = (QuantityFifo.replay false reversal).signedLots := by
  obtain ⟨hside, hnet, hvalue, hagree, -⟩ := fifo_replay reversal 1
  obtain ⟨-, queue, next, hreplay, hqueue, -⟩ := hagree (by decide +kernel) (by decide)
  refine ⟨hside, hnet.trans (by decide +kernel), ?_, queue, next, hreplay, hqueue⟩
  exact (hvalue reversal.reverse (List.reverse_perm _) 3 (by norm_num)).trans (by decide +kernel)

/-- The theoretical FIFO drops a gain within `ZERO_EPSILON` that the ledger books,
although no quantity of the run comes near zero. -/
theorem fifo_replay_drops_small_gain :
    (QuantityFifo.empty false).DustFree smallGain ∧
      (QuantityFifo.replay false smallGain).realizedPnl = 1 / 10000000000000 ∧
      Theoretical.replay 1 smallGain =
        .ok ([{ seq := 1, quantity := 999 / 1000, entryPrice := 1 }], [0, 0], 2) := by
  refine ⟨?_, ?_, ?_⟩ <;> decide +kernel

end CtaManager
