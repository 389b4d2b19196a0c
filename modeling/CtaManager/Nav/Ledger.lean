import CtaManager.Nav.Types

/-!
The FIFO ledger of one market (`QuantityFifo`, `VenueState`) and the reports
read off it (`NavTotals`, `VenueNavReport`, the symbol builders), from `nav.rs`.
-/

namespace CtaManager

open Check

variable {F : Type} [F64 F]

/-! ## Lots -/

structure Lot (F : Type) where
  entryPrice : F
  quantity : F
  deriving DecidableEq

/-- The loop of `close_fifo`: every round takes from the front lot and drops it
when it is used up.  A round that keeps its lot has closed the whole quantity,
so one round more than there are lots is enough. -/
def closeFifoLoop (closePrice direction : F) (inverse : Bool) :
    Nat → List (Lot F) → F → F → List (Lot F) × F × F
  | 0, lots, quantity, realizedPnl => (lots, realizedPnl, quantity)
  | _ + 1, [], quantity, realizedPnl => ([], realizedPnl, quantity)
  | rounds + 1, lot :: rest, quantity, realizedPnl =>
    if 0 < quantity then
      let matchedQuantity := min quantity lot.quantity
      let realizedPnl := realizedPnl +
        direction * (closePrice - lot.entryPrice) * matchedQuantity /
          (if inverse then lot.entryPrice else 1)
      let quantity := quantity - matchedQuantity
      let lot := { lot with quantity := lot.quantity - matchedQuantity }
      if lot.quantity == 0 || (inverse && decide (F64.abs lot.quantity ≤ F64.eps10)) then
        closeFifoLoop closePrice direction inverse rounds rest quantity realizedPnl
      else
        closeFifoLoop closePrice direction inverse rounds (lot :: rest) quantity realizedPnl
    else (lot :: rest, realizedPnl, quantity)

/-- Close `quantity` against `lots`: the lots left, the realized PnL and the
quantity that found no lot. -/
def closeFifo (lots : List (Lot F)) (closePrice quantity direction : F) (inverse : Bool) :
    List (Lot F) × F × F :=
  closeFifoLoop closePrice direction inverse (lots.length + 1) lots quantity 0

structure QuantityFifo (F : Type) where
  longs : List (Lot F)
  shorts : List (Lot F)
  realizedPnl : F
  /-- Inverse contracts conserve USD face value. -/
  inverse : Bool
  deriving DecidableEq

namespace QuantityFifo

def empty (inverse : Bool) : QuantityFifo F := { longs := [], shorts := [], realizedPnl := 0, inverse }

def applyFill (fifo : QuantityFifo F) (side : Side) (price quantity : F) : QuantityFifo F :=
  let quantity := if fifo.inverse then quantity * price else quantity
  let threshold := if fifo.inverse then F64.eps10 else 0
  match side with
  | .buy =>
    let (shorts, realizedPnl, remaining) := closeFifo fifo.shorts price quantity (-1) fifo.inverse
    { fifo with
      shorts
      longs := if threshold < remaining then
          fifo.longs ++ [{ entryPrice := price, quantity := remaining }] else fifo.longs
      realizedPnl := fifo.realizedPnl + realizedPnl }
  | .sell =>
    let (longs, realizedPnl, remaining) := closeFifo fifo.longs price quantity 1 fifo.inverse
    { fifo with
      longs
      shorts := if threshold < remaining then
          fifo.shorts ++ [{ entryPrice := price, quantity := remaining }] else fifo.shorts
      realizedPnl := fifo.realizedPnl + realizedPnl }

def floatingPnl (fifo : QuantityFifo F) (markPrice : F) : F :=
  F64.sum
    (fifo.longs.map (fun lot => (markPrice - lot.entryPrice) * lot.quantity /
        (if fifo.inverse then lot.entryPrice else 1)) ++
      fifo.shorts.map (fun lot => (lot.entryPrice - markPrice) * lot.quantity /
        (if fifo.inverse then lot.entryPrice else 1)))

def longQuantity (fifo : QuantityFifo F) (markPrice : F) : F :=
  F64.sum (fifo.longs.map Lot.quantity) / (if fifo.inverse then markPrice else 1)

def shortQuantity (fifo : QuantityFifo F) (markPrice : F) : F :=
  F64.sum (fifo.shorts.map Lot.quantity) / (if fifo.inverse then markPrice else 1)

/-- `long_quantity(1.0) - short_quantity(1.0)`: the signed quantity the
allocation and funding code reads. -/
def netQuantity (fifo : QuantityFifo F) : F := fifo.longQuantity 1 - fifo.shortQuantity 1

end QuantityFifo

/-! ## Totals -/

@[ext]
structure NavTotals (F : Type) where
  fillCount : Nat
  volumeQuote : F
  makerFillCount : Nat
  makerVolumeQuote : F
  takerFillCount : Nat
  takerVolumeQuote : F
  unknownLiquidityFillCount : Nat
  unknownLiquidityVolumeQuote : F
  realizedPnlBeforeFeeQuote : F
  estimatedTradingFeeQuote : F
  realizedPnlAfterFeeQuote : F
  floatingPnlQuote : F
  navChangeBeforeFeeQuote : F
  navChangeAfterFeeQuote : F
  deriving BEq, DecidableEq

namespace NavTotals

/-- `NavTotals::default()`. -/
def zero : NavTotals F :=
  { fillCount := 0, volumeQuote := 0, makerFillCount := 0, makerVolumeQuote := 0,
    takerFillCount := 0, takerVolumeQuote := 0, unknownLiquidityFillCount := 0,
    unknownLiquidityVolumeQuote := 0, realizedPnlBeforeFeeQuote := 0,
    estimatedTradingFeeQuote := 0, realizedPnlAfterFeeQuote := 0, floatingPnlQuote := 0,
    navChangeBeforeFeeQuote := 0, navChangeAfterFeeQuote := 0 }

def add (a b : NavTotals F) : NavTotals F :=
  { fillCount := a.fillCount + b.fillCount
    volumeQuote := a.volumeQuote + b.volumeQuote
    makerFillCount := a.makerFillCount + b.makerFillCount
    makerVolumeQuote := a.makerVolumeQuote + b.makerVolumeQuote
    takerFillCount := a.takerFillCount + b.takerFillCount
    takerVolumeQuote := a.takerVolumeQuote + b.takerVolumeQuote
    unknownLiquidityFillCount := a.unknownLiquidityFillCount + b.unknownLiquidityFillCount
    unknownLiquidityVolumeQuote := a.unknownLiquidityVolumeQuote + b.unknownLiquidityVolumeQuote
    realizedPnlBeforeFeeQuote := a.realizedPnlBeforeFeeQuote + b.realizedPnlBeforeFeeQuote
    estimatedTradingFeeQuote := a.estimatedTradingFeeQuote + b.estimatedTradingFeeQuote
    realizedPnlAfterFeeQuote := a.realizedPnlAfterFeeQuote + b.realizedPnlAfterFeeQuote
    floatingPnlQuote := a.floatingPnlQuote + b.floatingPnlQuote
    navChangeBeforeFeeQuote := a.navChangeBeforeFeeQuote + b.navChangeBeforeFeeQuote
    navChangeAfterFeeQuote := a.navChangeAfterFeeQuote + b.navChangeAfterFeeQuote }

def cleaned (a : NavTotals F) : NavTotals F :=
  { a with
    volumeQuote := cleanZero a.volumeQuote
    makerVolumeQuote := cleanZero a.makerVolumeQuote
    takerVolumeQuote := cleanZero a.takerVolumeQuote
    unknownLiquidityVolumeQuote := cleanZero a.unknownLiquidityVolumeQuote
    realizedPnlBeforeFeeQuote := cleanZero a.realizedPnlBeforeFeeQuote
    estimatedTradingFeeQuote := cleanZero a.estimatedTradingFeeQuote
    realizedPnlAfterFeeQuote := cleanZero a.realizedPnlAfterFeeQuote
    floatingPnlQuote := cleanZero a.floatingPnlQuote
    navChangeBeforeFeeQuote := cleanZero a.navChangeBeforeFeeQuote
    navChangeAfterFeeQuote := cleanZero a.navChangeAfterFeeQuote }

/-- `difference`; the subtraction of counts stops at zero (`saturating_sub`). -/
def difference (a baseline : NavTotals F) : NavTotals F :=
  cleaned
    { fillCount := a.fillCount - baseline.fillCount
      volumeQuote := a.volumeQuote - baseline.volumeQuote
      makerFillCount := a.makerFillCount - baseline.makerFillCount
      makerVolumeQuote := a.makerVolumeQuote - baseline.makerVolumeQuote
      takerFillCount := a.takerFillCount - baseline.takerFillCount
      takerVolumeQuote := a.takerVolumeQuote - baseline.takerVolumeQuote
      unknownLiquidityFillCount :=
        a.unknownLiquidityFillCount - baseline.unknownLiquidityFillCount
      unknownLiquidityVolumeQuote :=
        a.unknownLiquidityVolumeQuote - baseline.unknownLiquidityVolumeQuote
      realizedPnlBeforeFeeQuote :=
        a.realizedPnlBeforeFeeQuote - baseline.realizedPnlBeforeFeeQuote
      estimatedTradingFeeQuote := a.estimatedTradingFeeQuote - baseline.estimatedTradingFeeQuote
      realizedPnlAfterFeeQuote := a.realizedPnlAfterFeeQuote - baseline.realizedPnlAfterFeeQuote
      floatingPnlQuote := a.floatingPnlQuote - baseline.floatingPnlQuote
      navChangeBeforeFeeQuote := a.navChangeBeforeFeeQuote - baseline.navChangeBeforeFeeQuote
      navChangeAfterFeeQuote := a.navChangeAfterFeeQuote - baseline.navChangeAfterFeeQuote }

end NavTotals

inductive MarkPriceSource
  | latestFill
  | initialSnapshot
  | override
  deriving DecidableEq, Repr

inductive InitialReferencePriceSource
  | configured
  | firstFill
  deriving DecidableEq, Repr

structure VenueNavReport (F : Type) where
  venueCode : Int
  venue : String
  markPrice : F
  markPriceSource : MarkPriceSource
  initialQuantity : F
  initialReferencePrice : Option F
  initialReferencePriceSource : Option InitialReferencePriceSource
  longQuantity : F
  shortQuantity : F
  netQuantity : F
  longPositionValueQuote : F
  shortPositionValueQuote : F
  netPositionValueQuote : F
  firstFillTsUs : Option Int
  lastFillTsUs : Option Int
  totals : NavTotals F
  deriving DecidableEq

structure SymbolNavReport (F : Type) where
  symbol : String
  venueCount : Nat
  initialNetQuantity : F
  longQuantity : F
  shortQuantity : F
  netQuantity : F
  longPositionValueQuote : F
  shortPositionValueQuote : F
  netPositionValueQuote : F
  totals : NavTotals F
  venues : List (VenueNavReport F)
  deriving DecidableEq

structure AggregateSymbolNavReport (F : Type) where
  symbol : String
  sourceCount : Nat
  venueCount : Nat
  initialNetQuantity : F
  longQuantity : F
  shortQuantity : F
  netQuantity : F
  longPositionValueQuote : F
  shortPositionValueQuote : F
  netPositionValueQuote : F
  totals : NavTotals F
  deriving DecidableEq

/-! ## The ledger of one market -/

structure VenueState (F : Type) where
  venueCode : Int
  venue : String
  fifo : QuantityFifo F
  initialQuantity : F
  initialReferencePrice : Option F
  initialReferencePriceSource : Option InitialReferencePriceSource
  fillCount : Nat
  volumeQuote : F
  makerFillCount : Nat
  makerVolumeQuote : F
  takerFillCount : Nat
  takerVolumeQuote : F
  unknownLiquidityFillCount : Nat
  unknownLiquidityVolumeQuote : F
  estimatedFeeQuote : F
  firstFillTsUs : Option Int
  lastFillTsUs : Option Int
  latestFillPrice : F
  deriving DecidableEq

namespace VenueState

/-- `VenueState::new`: the ledger a market starts with at its first fill. -/
def new (event : NavEvent F) : VenueState F :=
  { venueCode := event.venueCode
    venue := event.venue
    fifo := QuantityFifo.empty (isInverseVenue event.venueCode)
    initialQuantity := 0
    initialReferencePrice := none
    initialReferencePriceSource := none
    fillCount := 0
    volumeQuote := 0
    makerFillCount := 0
    makerVolumeQuote := 0
    takerFillCount := 0
    takerVolumeQuote := 0
    unknownLiquidityFillCount := 0
    unknownLiquidityVolumeQuote := 0
    estimatedFeeQuote := 0
    firstFillTsUs := none
    lastFillTsUs := none
    latestFillPrice := event.price }

def fromInitialPosition (venueCode : Int) (venue : String) (quantity referencePrice : F)
    (referencePriceSource : InitialReferencePriceSource) : VenueState F :=
  let side := if 0 < quantity then Side.buy else Side.sell
  { venueCode
    venue
    fifo := (QuantityFifo.empty (isInverseVenue venueCode)).applyFill side referencePrice
      (F64.abs quantity)
    initialQuantity := quantity
    initialReferencePrice := some referencePrice
    initialReferencePriceSource := some referencePriceSource
    fillCount := 0
    volumeQuote := 0
    makerFillCount := 0
    makerVolumeQuote := 0
    takerFillCount := 0
    takerVolumeQuote := 0
    unknownLiquidityFillCount := 0
    unknownLiquidityVolumeQuote := 0
    estimatedFeeQuote := 0
    firstFillTsUs := none
    lastFillTsUs := none
    latestFillPrice := referencePrice }

/-- The rate a fill of this role pays on `symbol`. -/
def feeRate (feeRates : FeeRates F) (symbol : String) : LiquidityRole → F
  | .maker => (feeRates.forSymbol symbol).1
  | .taker | .unknown => (feeRates.forSymbol symbol).2
  | .internalCross => 0

/-- The counters of one role grow by the fill. -/
def countFill (state : VenueState F) (liquidity : LiquidityRole) (notional : F) : VenueState F :=
  match liquidity with
  | .maker =>
    { state with
      makerFillCount := state.makerFillCount + 1
      makerVolumeQuote := state.makerVolumeQuote + notional }
  | .taker =>
    { state with
      takerFillCount := state.takerFillCount + 1
      takerVolumeQuote := state.takerVolumeQuote + notional }
  | .unknown | .internalCross =>
    { state with
      unknownLiquidityFillCount := state.unknownLiquidityFillCount + 1
      unknownLiquidityVolumeQuote := state.unknownLiquidityVolumeQuote + notional }

/-- The accumulated amounts are finite. -/
def isFinite (state : VenueState F) : Bool :=
  F64.isFinite state.volumeQuote && F64.isFinite state.makerVolumeQuote &&
    F64.isFinite state.takerVolumeQuote && F64.isFinite state.unknownLiquidityVolumeQuote &&
    F64.isFinite state.estimatedFeeQuote

/-- The ledger after a fill that passed the checks of `applyFill`. -/
def booked (state : VenueState F) (event : NavEvent F) (side : Side) (feeRates : FeeRates F)
    (liquidity : LiquidityRole) (fillTsUs : Int) : VenueState F :=
  let quantity := event.amountUpdate
  let notional := event.price * quantity
  let fee := notional * feeRate feeRates event.symbol liquidity
  let state := countFill
    { state with
      fifo := state.fifo.applyFill side event.price quantity
      fillCount := state.fillCount + 1
      volumeQuote := state.volumeQuote + notional } liquidity notional
  { state with
    estimatedFeeQuote := state.estimatedFeeQuote + fee
    firstFillTsUs := state.firstFillTsUs.or (some fillTsUs)
    lastFillTsUs := some fillTsUs
    latestFillPrice := event.price }

def applyFill (state : VenueState F) (event : NavEvent F) (side : Side) (feeRates : FeeRates F)
    (liquidity : LiquidityRole) (fillTsUs : Int) : Except NavError (VenueState F) := do
  ensure (state.venue == event.venue)
    (.venueNameChanged state.venueCode state.venue event.venue)
  ensure (F64.isFinite event.amountUpdate && decide (0 < event.amountUpdate))
    .fillQuantityNotPositive
  let notional := event.price * event.amountUpdate
  let fee := notional * feeRate feeRates event.symbol liquidity
  ensure (F64.isFinite notional && F64.isFinite fee) .notionalOverflowed
  let after := state.booked event side feeRates liquidity fillTsUs
  ensure after.isFinite .cumulativeOverflowed
  return after

def report (state : VenueState F) (markOverride : Option F) : VenueNavReport F :=
  let markPrice := markOverride.getD state.latestFillPrice
  let markPriceSource :=
    if markOverride.isSome then MarkPriceSource.override
    else if state.fillCount > 0 then .latestFill
    else .initialSnapshot
  let floatingPnl := state.fifo.floatingPnl markPrice
  let longQuantity := state.fifo.longQuantity markPrice
  let shortQuantity := state.fifo.shortQuantity markPrice
  let netQuantity := longQuantity - shortQuantity
  let realizedBeforeFee := state.fifo.realizedPnl
  let realizedAfterFee := realizedBeforeFee - state.estimatedFeeQuote
  let navBeforeFee := realizedBeforeFee + floatingPnl
  let navAfterFee := navBeforeFee - state.estimatedFeeQuote
  { venueCode := state.venueCode
    venue := state.venue
    markPrice := cleanZero markPrice
    markPriceSource
    initialQuantity := cleanZero state.initialQuantity
    initialReferencePrice := state.initialReferencePrice.map cleanZero
    initialReferencePriceSource := state.initialReferencePriceSource
    longQuantity := cleanZero longQuantity
    shortQuantity := cleanZero shortQuantity
    netQuantity := cleanZero netQuantity
    longPositionValueQuote := cleanZero (longQuantity * markPrice)
    shortPositionValueQuote := cleanZero (shortQuantity * markPrice)
    netPositionValueQuote := cleanZero (netQuantity * markPrice)
    firstFillTsUs := state.firstFillTsUs
    lastFillTsUs := state.lastFillTsUs
    totals :=
      { fillCount := state.fillCount
        volumeQuote := cleanZero state.volumeQuote
        makerFillCount := state.makerFillCount
        makerVolumeQuote := cleanZero state.makerVolumeQuote
        takerFillCount := state.takerFillCount
        takerVolumeQuote := cleanZero state.takerVolumeQuote
        unknownLiquidityFillCount := state.unknownLiquidityFillCount
        unknownLiquidityVolumeQuote := cleanZero state.unknownLiquidityVolumeQuote
        realizedPnlBeforeFeeQuote := cleanZero realizedBeforeFee
        estimatedTradingFeeQuote := cleanZero state.estimatedFeeQuote
        realizedPnlAfterFeeQuote := cleanZero realizedAfterFee
        floatingPnlQuote := cleanZero floatingPnl
        navChangeBeforeFeeQuote := cleanZero navBeforeFee
        navChangeAfterFeeQuote := cleanZero navAfterFee } }

end VenueState

/-! ## Symbol reports -/

structure SymbolReportBuilder (F : Type) where
  totals : NavTotals F
  initialNetQuantity : F
  longQuantity : F
  shortQuantity : F
  longPositionValueQuote : F
  shortPositionValueQuote : F
  netPositionValueQuote : F
  venues : List (VenueNavReport F)

namespace SymbolReportBuilder

def empty : SymbolReportBuilder F :=
  { totals := NavTotals.zero, initialNetQuantity := 0, longQuantity := 0, shortQuantity := 0,
    longPositionValueQuote := 0, shortPositionValueQuote := 0, netPositionValueQuote := 0,
    venues := [] }

def push (builder : SymbolReportBuilder F) (venue : VenueNavReport F) : SymbolReportBuilder F :=
  { totals := builder.totals.add venue.totals
    initialNetQuantity := builder.initialNetQuantity + venue.initialQuantity
    longQuantity := builder.longQuantity + venue.longQuantity
    shortQuantity := builder.shortQuantity + venue.shortQuantity
    longPositionValueQuote := builder.longPositionValueQuote + venue.longPositionValueQuote
    shortPositionValueQuote := builder.shortPositionValueQuote + venue.shortPositionValueQuote
    netPositionValueQuote := builder.netPositionValueQuote + venue.netPositionValueQuote
    venues := builder.venues ++ [venue] }

def finish (builder : SymbolReportBuilder F) (symbol : String) : SymbolNavReport F :=
  { symbol
    venueCount := builder.venues.length
    initialNetQuantity := cleanZero builder.initialNetQuantity
    longQuantity := cleanZero builder.longQuantity
    shortQuantity := cleanZero builder.shortQuantity
    netQuantity := cleanZero (builder.longQuantity - builder.shortQuantity)
    longPositionValueQuote := cleanZero builder.longPositionValueQuote
    shortPositionValueQuote := cleanZero builder.shortPositionValueQuote
    netPositionValueQuote := cleanZero builder.netPositionValueQuote
    totals := builder.totals.cleaned
    venues := builder.venues }

end SymbolReportBuilder

structure AggregateSymbolBuilder (F : Type) where
  sourceCount : Nat
  venueCount : Nat
  totals : NavTotals F
  initialNetQuantity : F
  longQuantity : F
  shortQuantity : F
  longPositionValueQuote : F
  shortPositionValueQuote : F
  netPositionValueQuote : F

namespace AggregateSymbolBuilder

def empty : AggregateSymbolBuilder F :=
  { sourceCount := 0, venueCount := 0, totals := NavTotals.zero, initialNetQuantity := 0,
    longQuantity := 0, shortQuantity := 0, longPositionValueQuote := 0,
    shortPositionValueQuote := 0, netPositionValueQuote := 0 }

def push (builder : AggregateSymbolBuilder F) (symbol : SymbolNavReport F) :
    AggregateSymbolBuilder F :=
  { sourceCount := builder.sourceCount + 1
    venueCount := builder.venueCount + symbol.venueCount
    totals := builder.totals.add symbol.totals
    initialNetQuantity := builder.initialNetQuantity + symbol.initialNetQuantity
    longQuantity := builder.longQuantity + symbol.longQuantity
    shortQuantity := builder.shortQuantity + symbol.shortQuantity
    longPositionValueQuote := builder.longPositionValueQuote + symbol.longPositionValueQuote
    shortPositionValueQuote := builder.shortPositionValueQuote + symbol.shortPositionValueQuote
    netPositionValueQuote := builder.netPositionValueQuote + symbol.netPositionValueQuote }

def finish (builder : AggregateSymbolBuilder F) (symbol : String) : AggregateSymbolNavReport F :=
  { symbol
    sourceCount := builder.sourceCount
    venueCount := builder.venueCount
    initialNetQuantity := cleanZero builder.initialNetQuantity
    longQuantity := cleanZero builder.longQuantity
    shortQuantity := cleanZero builder.shortQuantity
    netQuantity := cleanZero (builder.longQuantity - builder.shortQuantity)
    longPositionValueQuote := cleanZero builder.longPositionValueQuote
    shortPositionValueQuote := cleanZero builder.shortPositionValueQuote
    netPositionValueQuote := cleanZero builder.netPositionValueQuote
    totals := builder.totals.cleaned }

end AggregateSymbolBuilder

/-- The symbol builders of a source: its markets pushed in key order, each at
the mark `mark` gives it. -/
def symbolBuilders (states : OrdMap Market (VenueState F)) (mark : Market → Option F) :
    OrdMap String (SymbolReportBuilder F) :=
  states.toList.foldl (fun builders p =>
    OrdMap.upsert builders p.1.symbol fun o =>
      (o.getD SymbolReportBuilder.empty).push (p.2.report (mark p.1))) ∅

end CtaManager
