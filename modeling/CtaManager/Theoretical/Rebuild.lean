import CtaManager.Library.PartitionPoint
import CtaManager.Library.StableSort
import CtaManager.Theoretical.Delta
import CtaManager.Theoretical.Fifo
import CtaManager.Theoretical.Points

/-!
The theoretical NAV curve of a window (`rebuild_timeline` of `theoretical_nav.rs`).

Every delta trades in slices, one a minute.  The slices before the window move the carried
inventory, which enters the window at the mark of its start; the others run through a FIFO
for each market, and every tick of the window adds up what is realized and what is open.
One missing price or mark is enough to leave no curve.
-/

namespace CtaManager.Theoretical

open Check Candles StableSort

variable {F : Type} [F64 F]

/-! ## One fill -/

inductive RebuildError
  | read (message : String)
  | fifo (e : FifoError)
  | missingMinute
  | invalidFeeRate
  | quantityDiverged
  | overflowed
  deriving DecidableEq

structure SymbolState (F : Type) where
  netQuantity : F
  realizedPnlBeforeFeeQuote : F
  estimatedTradingFeeQuote : F
  nextLotSeq : Int
  deriving DecidableEq

structure AppliedFill (F : Type) where
  lots : List (FifoLot F)
  netQuantity : F
  realizedPnlBeforeFeeQuote : F
  feeQuote : F
  cumulativeFeeQuote : F
  floatingPnlQuote : F
  navBeforeFeeQuote : F
  navAfterFeeQuote : F
  nextLotSeq : Int
  deriving DecidableEq

def quantitiesEqual (left right scaleHint : F) : Bool :=
  let scale := max (max (max (F64.abs left) (F64.abs right)) (F64.abs scaleHint)) 1
  decide (F64.abs (left - right) ≤ F64.eps12 * scale)

def evaluateFill (state : SymbolState F) (lots : List (FifoLot F)) (fillQuantity fillPrice feeRate : F) :
    Except RebuildError (AppliedFill F) := do
  ensure (F64.isFinite feeRate) .invalidFeeRate
  let (lots, realizedIncrement, nextLotSeq) ←
    (applyFifoFill lots fillQuantity fillPrice state.nextLotSeq).mapError .fifo
  let netQuantity := cleanZero (F64.sum (lots.map FifoLot.quantity))
  let expectedNet := cleanZero (state.netQuantity + fillQuantity)
  let comparisonScale := max (max (F64.abs state.netQuantity) (F64.abs fillQuantity))
    (F64.abs netQuantity)
  ensure (quantitiesEqual netQuantity expectedNet comparisonScale) .quantityDiverged
  let realized := cleanZero (state.realizedPnlBeforeFeeQuote + realizedIncrement)
  let feeQuote := F64.abs fillQuantity * fillPrice * feeRate
  let cumulativeFee := cleanZero (state.estimatedTradingFeeQuote + feeQuote)
  let floating ← (floatingPnlAtMark lots fillPrice).mapError .fifo
  let navBefore := cleanZero (realized + floating)
  let navAfter := cleanZero (navBefore - cumulativeFee)
  ensure ([netQuantity, realized, feeQuote, cumulativeFee, floating, navBefore, navAfter].all
    F64.isFinite) .overflowed
  return {
    lots, netQuantity, feeQuote, nextLotSeq
    realizedPnlBeforeFeeQuote := realized
    cumulativeFeeQuote := cumulativeFee
    floatingPnlQuote := floating
    navBeforeFeeQuote := navBefore
    navAfterFeeQuote := navAfter }

/-! ## Slices -/

/-- A slice of a delta: when it trades, which delta of the list it belongs to, and which of
its minutes it is. -/
structure Slice (F : Type) where
  tsUs : Int
  index : Nat
  slice : Nat
  delta : VirtualDelta F
  deriving DecidableEq

/-- The slices up to `stop`, in the order they trade (`load_timeline`). -/
def scheduledSlices (deltas : List (VirtualDelta F)) (stop : Int) : List (Slice F) :=
  stableSort (fun s : Slice F => toLex (s.tsUs, toLex (s.delta.receivedAtUs, toLex (s.delta.seq,
      toLex (s.index, s.slice)))))
    (deltas.zipIdx.flatMap fun entry =>
      ((List.range entry.1.executionModel.sampleCount).filter fun slice =>
          decide (entry.1.sliceTsUs slice ≤ stop)).map fun slice =>
        { tsUs := entry.1.sliceTsUs slice, index := entry.2, slice, delta := entry.1 })

/-- The output, as far as the curve goes. -/
structure TheoreticalNavTimeline (F : Type) where
  latestPointTsUs : Option Int
  points : List (TheoreticalNavPoint F)
  sampled : Bool
  loading : Bool
  unavailableReason : Option String
  missingPriceCount : Nat
  legacyFeeDeltaCount : Nat
  zeroVolumeSkippedSampleCount : Nat
  zeroVolumeFallbackSampleCount : Nat
  deriving DecidableEq

/-- `TheoreticalNavTimeline::default`. -/
def TheoreticalNavTimeline.empty : TheoreticalNavTimeline F where
  latestPointTsUs := none
  points := []
  sampled := false
  loading := false
  unavailableReason := none
  missingPriceCount := 0
  legacyFeeDeltaCount := 0
  zeroVolumeSkippedSampleCount := 0
  zeroVolumeFallbackSampleCount := 0

/-- The schedules by delta. -/
abbrev Schedules (F : Type) := OrdMap Nat (MinutePrices F)

def missingVolumeReason (model : ExecutionModel) (symbol : String) : String :=
  if model = .twap3m then symbol ++ " 的三分钟窗口存在无成交分钟，理论3min_twap 不可用"
  else symbol ++ " 的三分钟窗口总成交量为零，理论3min_vwap 不可用"

/-- The loop over the priced deltas; the left result is an early return. -/
def collectSchedules : List (Nat × VirtualDelta F × Option (MinutePrices F)) →
    TheoreticalNavTimeline F → Schedules F →
    TheoreticalNavTimeline F ⊕ TheoreticalNavTimeline F × Schedules F
  | [], output, schedules => .inr (output, schedules)
  | (index, delta, prices) :: more, output, schedules =>
    match prices with
    | none =>
      collectSchedules more { output with missingPriceCount := output.missingPriceCount + 1 }
        schedules
    | some priced =>
      if priced.average.isNone then
        .inl { output with
          points := []
          loading := false
          unavailableReason := some (missingVolumeReason delta.executionModel delta.symbol) }
      else
        collectSchedules more
          { output with
            zeroVolumeSkippedSampleCount :=
              output.zeroVolumeSkippedSampleCount + priced.zeroVolumeSkippedSampleCount
            zeroVolumeFallbackSampleCount :=
              output.zeroVolumeFallbackSampleCount + priced.zeroVolumeFallbackSampleCount }
          (schedules.insert index priced)

/-- The price of a slice, when its delta is priced and its minute has a price. -/
def Schedules.price (schedules : Schedules F) (slice : Slice F) : Option F :=
  schedules[slice.index]?.bind fun priced => priced.prices[slice.slice]?.join

/-- What a slice trades. -/
def Schedules.quantity (schedules : Schedules F) (slice : Slice F) : F :=
  schedules[slice.index]?.elim 0 fun priced => priced.quantity slice.delta.deltaQty slice.slice

abbrev Inventory (F : Type) := OrdMap MarketKey F

/-- `carry.retain(|_, qty| clean_zero(*qty) != 0.0)`. -/
def retained (carry : Inventory F) : Inventory F :=
  carry.filter fun _ quantity => !(cleanZero quantity == 0)

/-- The slices before the window, added to the carried inventory. -/
def openingInventory (schedules : Schedules F) (carry : Inventory F) (slices : List (Slice F))
    (start : Int) : Inventory F :=
  (slices.filter fun slice => decide (slice.tsUs < start) && (schedules.price slice).isSome).foldl
    (fun carry slice =>
      carry.upsert slice.delta.market fun held => held.getD 0 + schedules.quantity slice) carry

/-! ## Marks -/

/-- The close of the minute that closed last at `ts`. -/
def closedMark (bars : List (Kline F)) (ts : Int) : Option F :=
  match PartitionPoint.partitionPoint (fun candle => decide (candle.endTsUs ≤ ts)) bars with
  | 0 => none
  | stop + 1 => bars[stop]?.bind fun candle =>
      if ts - candle.endTsUs < MINUTE_US then some candle.close else none

/-- The candles of the markets that are needed. -/
abbrev Markets (F : Type) := OrdMap String (List (Kline F))

def Markets.mark (markets : Markets F) (symbol : String) (ts : Int) : Option F :=
  markets[symbol]?.bind fun bars => closedMark bars ts

section

variable [Text.Unicode]

/-- The market keys whose candles are needed, without repetition. -/
def neededSymbols (keys : List MarketKey) : Except RebuildError (OrdSet String) :=
  ((keys.filter fun key => isPublicVenue key.venue).mapM fun key =>
    (marketKey key.venue key.symbol).mapError .read).map fun symbols =>
      symbols.foldl (fun needed symbol => needed.insert symbol) ∅

def scanMarkets (store : CandleReads F) (symbols : OrdSet String) (start stop : Int) :
    Except RebuildError (Markets F) := do
  let entries ← symbols.toList.mapM fun symbol =>
    ((store.scan symbol (floorMinute start - MINUTE_US) stop).mapError RebuildError.read).map
      fun bars => (symbol, bars)
  return entries.foldl (fun markets entry => markets.insert entry.1 entry.2) ∅

/-! ## The curve -/

abbrev Positions (F : Type) := OrdMap MarketKey (SymbolState F × List (FifoLot F))

/-- The mark of a market, none where the venue has no candles. -/
def markOf (markets : Markets F) (key : MarketKey) (ts : Int) : Except RebuildError (Option F) :=
  (marketKey key.venue key.symbol).mapError .read |>.map fun symbol => markets.mark symbol ts

/-- The carried inventory, one lot for each market at the mark of the start. -/
def openPositions (markets : Markets F) (start : Int) :
    List (MarketKey × F) → Positions F → Nat → Except RebuildError (Positions F × Nat)
  | [], positions, missing => .ok (positions, missing)
  | (key, quantity) :: more, positions, missing => do
    match ← if isPublicVenue key.venue then markOf markets key start else .ok none with
    | none => openPositions markets start more positions (missing + 1)
    | some price =>
      openPositions markets start more
        (positions.insert key
          ({ netQuantity := quantity, realizedPnlBeforeFeeQuote := 0
             estimatedTradingFeeQuote := 0, nextLotSeq := 2 },
            [{ seq := 1, quantity, entryPrice := price }]))
        missing

/-- `(start / 15 min + 1) * 15 min` and every quarter of an hour after it, before `stop`. -/
def quarterHours (start stop : Int) : List Int :=
  let first := start / 900000000 * 900000000 + 900000000
  (List.range ((stop - first + 899999999) / 900000000).toNat).map fun (index : Nat) =>
    first + index * 900000000

def curveTicks (start stop : Int) (slices : List (Slice F)) : OrdSet Int :=
  (start :: stop :: (quarterHours start stop ++ slices.map Slice.tsUs)).foldl
    (fun ticks tick => ticks.insert tick) ∅

/-- A market that has not traded yet. -/
def SymbolState.fresh : SymbolState F :=
  { netQuantity := 0, realizedPnlBeforeFeeQuote := 0, estimatedTradingFeeQuote := 0, nextLotSeq := 1 }

/-- One slice through the FIFO of its market. -/
def applySlice (schedules : Schedules F) (positions : Positions F) (slice : Slice F) :
    Except RebuildError (Positions F) :=
  match schedules.price slice with
  | none => .error .missingMinute
  | some price => do
    let position := positions[slice.delta.market]?.getD (.fresh, [])
    let applied ← evaluateFill position.1 position.2 (schedules.quantity slice) price
      slice.delta.feeRate
    return positions.insert slice.delta.market
      ({ netQuantity := applied.netQuantity
         realizedPnlBeforeFeeQuote := applied.realizedPnlBeforeFeeQuote
         estimatedTradingFeeQuote := applied.cumulativeFeeQuote
         nextLotSeq := applied.nextLotSeq }, applied.lots)

/-- The slices that are due at `ts`. -/
def applyDue (schedules : Schedules F) (ts : Int) :
    List (Slice F) → Positions F → OrdSet Nat →
    Except RebuildError (List (Slice F) × Positions F × OrdSet Nat)
  | [], positions, legacy => .ok ([], positions, legacy)
  | slice :: more, positions, legacy =>
    if slice.tsUs ≤ ts then do
      let applied ← applySlice schedules positions slice
      applyDue schedules ts more applied
        (if slice.delta.legacyFee then legacy.insert slice.index else legacy)
    else .ok (slice :: more, positions, legacy)

/-- The floating PnL of one position, and how many marks it lacks. -/
def floatingAt (markets : Markets F) (ts : Int) (key : MarketKey) (lots : List (FifoLot F)) :
    Except RebuildError (F × Nat) :=
  if lots.isEmpty then .ok (0, 0)
  else do
    match ← markOf markets key ts with
    | some price => return (← (floatingPnlAtMark lots price).mapError .fifo, 0)
    | none => return (0, 1)

/-- The point of a tick, before the baseline of the start replaces it. -/
def pointAt (markets : Markets F) (ts : Int) (positions : Positions F) :
    Except RebuildError (TheoreticalNavPoint F × Nat) := do
  let (before, fee, missing) ← positions.toList.foldlM
    (fun (sums : F × F × Nat) entry => do
      let (floating, missing) ← floatingAt markets ts entry.1 entry.2.2
      return (sums.1 + (entry.2.1.realizedPnlBeforeFeeQuote + floating),
        sums.2.1 + entry.2.1.estimatedTradingFeeQuote, sums.2.2 + missing))
    (0, 0, 0)
  return ({
    tsUs := ts
    navChangeBeforeFeeQuote := before
    navChangeAfterFeeQuote := before - fee
    estimatedTradingFeeQuote := fee }, missing)

def zeroPoint (ts : Int) : TheoreticalNavPoint F :=
  { tsUs := ts, navChangeBeforeFeeQuote := 0, navChangeAfterFeeQuote := 0
    estimatedTradingFeeQuote := 0 }

structure CurveState (F : Type) where
  pending : List (Slice F)
  positions : Positions F
  legacy : OrdSet Nat
  points : List (TheoreticalNavPoint F)
  missing : Nat

def curveStep (schedules : Schedules F) (markets : Markets F) (start stop : Int)
    (state : CurveState F) (ts : Int) : Except RebuildError (CurveState F) := do
  let (pending, positions, legacy) ←
    applyDue schedules ts state.pending state.positions state.legacy
  let (point, missing) ← pointAt markets ts positions
  -- the window starts from zero; the slices of its first moment count from then on
  let point := if ts = start ∧ start < stop then zeroPoint ts else point
  return { pending, positions, legacy
           points := pushOrReplacePoint state.points point
           missing := state.missing + missing }

def missingReason (count : Nat) : String :=
  "分钟行情尚未补齐或币对不受支持（" ++ toString count ++ " 处缺失），理论净值暂不可用"

/-- The end of `rebuild_timeline`: no curve with a price missing. -/
def finishTimeline (output : TheoreticalNavTimeline F) (maxPoints : Nat) :
    TheoreticalNavTimeline F :=
  if 0 < output.missingPriceCount then
    { output with points := [], unavailableReason := some (missingReason output.missingPriceCount) }
  else
    { output with
      latestPointTsUs := output.points.getLast?.map TheoreticalNavPoint.tsUs
      sampled := decide (maxPoints < output.points.length)
      points := downsamplePoints output.points maxPoints }

/-- The deltas of the slices, priced in the order of the list. -/
def priceDeltas (store : CandleReads F) (slices : List (Slice F)) :
    Except RebuildError (List (Nat × VirtualDelta F × Option (MinutePrices F))) :=
  (slices.foldl (fun deltas slice => deltas.insert slice.index slice.delta)
    (∅ : OrdMap Nat (VirtualDelta F))).toList.mapM fun entry => do
      let prices ← (entry.2.prices store).mapError .read
      return (entry.1, entry.2, prices)

/-- What the curve is drawn from. -/
structure CurveInputs (F : Type) where
  output : TheoreticalNavTimeline F
  schedules : Schedules F
  /-- the carried inventory with the slices before the window -/
  opening : Inventory F
  slices : List (Slice F)
  markets : Markets F
  positions : Positions F

/-- `rebuild_timeline` up to its loop over the ticks; the left result is an early return. -/
def curveInputs (carry : Inventory F) (slices : List (Slice F)) (store : CandleReads F)
    (start stop : Int) (output : TheoreticalNavTimeline F) :
    Except RebuildError (TheoreticalNavTimeline F ⊕ CurveInputs F) := do
  let priced ← priceDeltas store slices
  match collectSchedules priced output ∅ with
  | .inl output => return .inl output
  | .inr (output, schedules) =>
    let opening := openingInventory schedules carry slices start
    let carry := retained opening
    let slices := slices.filter fun slice =>
      decide (start ≤ slice.tsUs) && (schedules.price slice).isSome
    let symbols ← neededSymbols (carry.keys ++ slices.map fun slice => slice.delta.market)
    let markets ← scanMarkets store symbols start stop
    let (positions, missing) ← openPositions markets start carry.toList ∅ 0
    return .inr {
      output := { output with missingPriceCount := output.missingPriceCount + missing }
      schedules, opening, slices, markets, positions }

def rebuildTimeline (carry : Inventory F) (slices : List (Slice F)) (store : CandleReads F)
    (start stop : Int) (maxPoints : Nat) (output : TheoreticalNavTimeline F) :
    Except RebuildError (TheoreticalNavTimeline F) := do
  match ← curveInputs carry slices store start stop output with
  | .inl output => return output
  | .inr inputs =>
    let curve ← (curveTicks start stop inputs.slices).toList.foldlM
      (curveStep inputs.schedules inputs.markets start stop)
      { pending := inputs.slices, positions := inputs.positions, legacy := ∅
        points := inputs.output.points, missing := 0 }
    return finishTimeline
      { inputs.output with
        points := curve.points
        missingPriceCount := inputs.output.missingPriceCount + curve.missing
        legacyFeeDeltaCount := curve.legacy.size } maxPoints

end

end CtaManager.Theoretical
