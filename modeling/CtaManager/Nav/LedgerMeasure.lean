import CtaManager.Nav.LinearLedger

/-!
What can be added up over ledgers.

A `Measure` reads a number off a ledger that a fresh ledger does not have, that a
fill raises by the same amount on every ledger, and that a transfer raises in
proportion to the quantity moved: the counters and amounts of the fills, the
value at a mark, the net quantity.
-/

namespace CtaManager

open Check

namespace TimelineSourceState

/-! ## Booking -/

section Booking

variable {F : Type} [F64 F]

/-- The ledger a fill is booked on, fresh if there was none. -/
def ledgerFor (fill : PreparedFill F) (ledger : Option (VenueState F)) : VenueState F :=
  ledger.getD (VenueState.new fill.event)

theorem bookOn_ok {feeRates : FeeRates F} {fill : PreparedFill F} {ledger : Option (VenueState F)}
    {booked : VenueState F} (h : bookOn feeRates fill ledger = .ok booked) :
    0 < fill.event.amountUpdate ∧ (ledgerFor fill ledger).venue = fill.event.venue ∧
      booked = (ledgerFor fill ledger).booked fill.event fill.side feeRates fill.liquidity
        fill.fillTsUs := by
  unfold bookOn at h
  change (ledgerFor fill ledger).applyFill fill.event fill.side feeRates fill.liquidity
    fill.fillTsUs = .ok booked at h
  unfold VenueState.applyFill at h
  obtain ⟨⟨⟩, hvenue, h⟩ := bind_eq_ok.1 h
  obtain ⟨⟨⟩, hquantity, h⟩ := bind_eq_ok.1 h
  obtain ⟨⟨⟩, -, h⟩ := bind_eq_ok.1 h
  obtain ⟨⟨⟩, -, h⟩ := bind_eq_ok.1 h
  rw [ensure_eq_ok, Bool.and_eq_true, decide_eq_true_eq] at hquantity
  rw [ensure_eq_ok] at hvenue
  exact ⟨hquantity.2, by simpa using hvenue, (Except.ok.inj h).symm⟩

end Booking

theorem booked_fifo (state : VenueState ℚ) (feeRates : FeeRates ℚ) (fill : PreparedFill ℚ) :
    (state.booked fill.event fill.side feeRates fill.liquidity fill.fillTsUs).fifo =
      state.fifo.applyFill fill.side fill.event.price fill.event.amountUpdate := by
  unfold VenueState.booked VenueState.countFill
  cases fill.liquidity <;> rfl

/-- A ledger without a position is empty. -/
theorem oneSided_fromInitialPosition (venueCode : Int) (venue : String)
    (quantity referencePrice : ℚ) (priceSource : InitialReferencePriceSource)
    (h : isInverseVenue venueCode = false) :
    (VenueState.fromInitialPosition venueCode venue quantity referencePrice
      priceSource).fifo.OneSided := by
  unfold VenueState.fromInitialPosition
  rw [h]
  exact QuantityFifo.OneSided.empty.applyFill _ _ _ (abs_nonneg quantity)

theorem netQuantity_fromInitialPosition (venueCode : Int) (venue : String)
    (quantity referencePrice : ℚ) (priceSource : InitialReferencePriceSource)
    (h : isInverseVenue venueCode = false) :
    (VenueState.fromInitialPosition venueCode venue quantity referencePrice
      priceSource).fifo.netQuantity = quantity := by
  have habs : (0 : ℚ) ≤ F64.abs quantity := abs_nonneg quantity
  unfold VenueState.fromInitialPosition
  simp only [h]
  rw [QuantityFifo.netQuantity_applyFill rfl _ _ _ habs]
  have hempty : (QuantityFifo.empty false : QuantityFifo ℚ).netQuantity = 0 := by
    rw [QuantityFifo.netQuantity_eq rfl]
    simp [QuantityFifo.empty]
  rw [hempty, zero_add, Exact.abs_eq]
  by_cases hpos : 0 < quantity
  · rw [if_pos hpos, Side.signed, abs_of_pos hpos]
  · rw [if_neg hpos, Side.signed, abs_of_nonpos (not_lt.1 hpos), neg_neg]

theorem value_fromInitialPosition_zero (venueCode : Int) (venue : String)
    (referencePrice mark : ℚ) (priceSource : InitialReferencePriceSource)
    (h : isInverseVenue venueCode = false) :
    (VenueState.fromInitialPosition venueCode venue 0 referencePrice priceSource).fifo.value mark =
      0 := by
  have habs : (0 : ℚ) ≤ F64.abs (0 : ℚ) := abs_nonneg 0
  unfold VenueState.fromInitialPosition
  simp only [h]
  rw [QuantityFifo.value_applyFill rfl _ _ _ _ habs, QuantityFifo.value_eq rfl]
  simp [QuantityFifo.empty, Exact.abs_eq, Side.signed]

/-! ## Measures -/

/-- A number read off linear ledgers that fills and transfers change alike on
every ledger. -/
structure Measure where
  of : VenueState ℚ → ℚ
  /-- What a fill adds. -/
  ofFill : FeeRates ℚ → PreparedFill ℚ → ℚ
  /-- What a unit transferred at a reference price adds. -/
  weight : ℚ → ℚ
  new_eq : ∀ event : NavEvent ℚ, isInverseVenue event.venueCode = false →
    of (VenueState.new event) = 0
  opened_eq : ∀ p : AllocationPosition ℚ, isInverseVenue p.venueCode = false →
    of (transferState p) = 0
  booked_eq : ∀ (state : VenueState ℚ) (feeRates : FeeRates ℚ) (fill : PreparedFill ℚ),
    state.fifo.inverse = false → 0 ≤ fill.event.amountUpdate →
    of (state.booked fill.event fill.side feeRates fill.liquidity fill.fillTsUs) =
      of state + ofFill feeRates fill
  transfer_eq : ∀ (owner : VenueState ℚ) (afterQty referencePrice : ℚ), owner.fifo.OneSided →
    of (transferTo owner afterQty referencePrice) =
      of owner + (afterQty - owner.fifo.netQuantity) * weight referencePrice

namespace Measure

/-- The value at a mark, realized and floating. -/
def value (mark : ℚ) : Measure where
  of state := state.fifo.value mark
  ofFill _ fill := fill.side.signed fill.event.amountUpdate * (mark - fill.event.price)
  weight referencePrice := mark - referencePrice
  new_eq event h := by
    unfold VenueState.new
    simp only [h]
    rw [QuantityFifo.value_eq rfl]
    simp [QuantityFifo.empty]
  opened_eq p h := value_fromInitialPosition_zero _ _ _ _ _ h
  booked_eq state feeRates fill h hq := by
    rw [booked_fifo, QuantityFifo.value_applyFill h _ _ _ _ hq]
  transfer_eq owner afterQty referencePrice h :=
    (transferTo_linear h afterQty referencePrice).2.2.1 mark

/-- One measure less another. -/
def sub (μ ν : Measure) : Measure where
  of state := μ.of state - ν.of state
  ofFill feeRates fill := μ.ofFill feeRates fill - ν.ofFill feeRates fill
  weight referencePrice := μ.weight referencePrice - ν.weight referencePrice
  new_eq event h := by rw [μ.new_eq event h, ν.new_eq event h, sub_zero]
  opened_eq p h := by rw [μ.opened_eq p h, ν.opened_eq p h, sub_zero]
  booked_eq state feeRates fill h hq := by
    rw [μ.booked_eq state feeRates fill h hq, ν.booked_eq state feeRates fill h hq]
    ring
  transfer_eq owner afterQty referencePrice h := by
    rw [μ.transfer_eq owner afterQty referencePrice h, ν.transfer_eq owner afterQty referencePrice h]
    ring

def netQuantity : Measure where
  of state := state.fifo.netQuantity
  ofFill _ fill := fill.side.signed fill.event.amountUpdate
  weight _ := 1
  new_eq event h := by
    unfold VenueState.new
    simp only [h]
    rw [QuantityFifo.netQuantity_eq rfl]
    simp [QuantityFifo.empty]
  opened_eq p h := netQuantity_fromInitialPosition _ _ _ _ _ h
  booked_eq state feeRates fill h hq := by
    rw [booked_fifo, QuantityFifo.netQuantity_applyFill h _ _ _ hq]
  transfer_eq owner afterQty referencePrice h := by
    rw [(transferTo_linear h afterQty referencePrice).2.1]
    ring

/-- A counter or an amount of the fills: transfers do not touch it. -/
def ofField (field : VenueState ℚ → ℚ) (ofFill : FeeRates ℚ → PreparedFill ℚ → ℚ)
    (hframe : ∀ (state : VenueState ℚ) (fifo : QuantityFifo ℚ),
      field { state with fifo } = field state)
    (hnew : ∀ event, field (VenueState.new event) = 0)
    (hopened : ∀ p, field (transferState p) = 0)
    (hbooked : ∀ (state : VenueState ℚ) (feeRates : FeeRates ℚ) (fill : PreparedFill ℚ),
      field (state.booked fill.event fill.side feeRates fill.liquidity fill.fillTsUs) =
        field state + ofFill feeRates fill) : Measure where
  of := field
  ofFill := ofFill
  weight _ := 0
  new_eq event _ := hnew event
  opened_eq p _ := hopened p
  booked_eq state feeRates fill _ _ := hbooked state feeRates fill
  transfer_eq owner afterQty referencePrice h := by
    rw [(transferTo_linear h afterQty referencePrice).2.2.2, hframe]
    ring

/-- One, if the fill counts under the role. -/
def countsAs (roles : List LiquidityRole) (fill : PreparedFill ℚ) : ℚ :=
  if roles.contains fill.liquidity then 1 else 0

def notional (fill : PreparedFill ℚ) : ℚ := fill.event.price * fill.event.amountUpdate

def fillCount : Measure :=
  ofField (fun state => state.fillCount) (fun _ _ => 1) (fun _ _ => rfl) (fun _ => by
    simp [VenueState.new]) (fun _ => by simp [transferState, VenueState.fromInitialPosition])
    fun state feeRates fill => by
      unfold VenueState.booked VenueState.countFill
      cases fill.liquidity <;> simp

def volume : Measure :=
  ofField (fun state => state.volumeQuote) (fun _ fill => notional fill) (fun _ _ => rfl)
    (fun _ => rfl) (fun _ => rfl) fun state feeRates fill => by
      unfold VenueState.booked VenueState.countFill
      cases fill.liquidity <;> rfl

def makerCount : Measure :=
  ofField (fun state => state.makerFillCount) (fun _ fill => countsAs [.maker] fill)
    (fun _ _ => rfl) (fun _ => by simp [VenueState.new])
    (fun _ => by simp [transferState, VenueState.fromInitialPosition])
    fun state feeRates fill => by
      unfold VenueState.booked VenueState.countFill countsAs
      cases fill.liquidity <;> simp

def makerVolume : Measure :=
  ofField (fun state => state.makerVolumeQuote)
    (fun _ fill => countsAs [.maker] fill * notional fill) (fun _ _ => rfl)
    (fun _ => rfl) (fun _ => rfl) fun state feeRates fill => by
      unfold VenueState.booked VenueState.countFill countsAs notional
      cases fill.liquidity <;> simp

def takerCount : Measure :=
  ofField (fun state => state.takerFillCount) (fun _ fill => countsAs [.taker] fill)
    (fun _ _ => rfl) (fun _ => by simp [VenueState.new])
    (fun _ => by simp [transferState, VenueState.fromInitialPosition])
    fun state feeRates fill => by
      unfold VenueState.booked VenueState.countFill countsAs
      cases fill.liquidity <;> simp

def takerVolume : Measure :=
  ofField (fun state => state.takerVolumeQuote)
    (fun _ fill => countsAs [.taker] fill * notional fill) (fun _ _ => rfl)
    (fun _ => rfl) (fun _ => rfl) fun state feeRates fill => by
      unfold VenueState.booked VenueState.countFill countsAs notional
      cases fill.liquidity <;> simp

def unknownCount : Measure :=
  ofField (fun state => state.unknownLiquidityFillCount)
    (fun _ fill => countsAs [.unknown, .internalCross] fill) (fun _ _ => rfl)
    (fun _ => by simp [VenueState.new])
    (fun _ => by simp [transferState, VenueState.fromInitialPosition])
    fun state feeRates fill => by
      unfold VenueState.booked VenueState.countFill countsAs
      cases fill.liquidity <;> simp

def unknownVolume : Measure :=
  ofField (fun state => state.unknownLiquidityVolumeQuote)
    (fun _ fill => countsAs [.unknown, .internalCross] fill * notional fill) (fun _ _ => rfl)
    (fun _ => rfl) (fun _ => rfl) fun state feeRates fill => by
      unfold VenueState.booked VenueState.countFill countsAs notional
      cases fill.liquidity <;> simp

def fee : Measure :=
  ofField (fun state => state.estimatedFeeQuote)
    (fun feeRates fill => notional fill *
      VenueState.feeRate feeRates fill.event.symbol fill.liquidity) (fun _ _ => rfl)
    (fun _ => rfl) (fun _ => rfl) fun state feeRates fill => by
      unfold VenueState.booked VenueState.countFill notional
      cases fill.liquidity <;> rfl

end Measure

end TimelineSourceState

end CtaManager
