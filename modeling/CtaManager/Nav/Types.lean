import CtaManager.Library.Check
import CtaManager.Library.OrdMap
import CtaManager.Text
import CtaManager.Nav.Num

/-!
The data of the NAV code: recorded order events, fee rates and source
configurations (`nav.rs`, `model.rs`, `config.rs`).

Timestamps are microseconds, as integers; counters are naturals.  A field of
the source that no modelled function reads is left out.
-/

namespace CtaManager

open Check

/-! ## Errors -/

/-- The failures of the NAV code, with the data their messages name. -/
inductive NavError
  | missingMakerFeeRate (source : String)
  | missingTakerFeeRate (source : String)
  | makerFeeRateNotFinite
  | takerFeeRateNotFinite
  | unsupportedFeeQuote (quote : String)
  | quoteFeeRatesNotFinite (quote : String)
  | snapshotSourceIdEmpty
  | snapshotTimestampNotPositive
  | snapshotPositionInvalid (symbol : String) (venueCode : Int)
  | snapshotPositionDuplicate (symbol : String) (venueCode : Int)
  | strategySnapshotEmpty
  | strategyNameInvalid (name : String)
  | strategySnapshotPositionDuplicate (strategy symbol : String) (venueCode : Int)
  | strategySnapshotMarksDiffer (symbol : String) (venueCode : Int)
  | snapshotSourceMismatch (snapshotSource source : String)
  | strategySnapshotSourceMismatch (snapshotSource source : String)
  | invalidAmountUpdate (source record : String)
  | invalidFillPrice (source record : String)
  | emptySymbol (source record : String)
  | unsupportedSideCode (source record : String) (sideCode : Int)
  | invalidReferencePrice (source symbol : String) (venueCode : Int)
  | missingReferencePrice (source symbol : String) (venueCode : Int)
  | duplicateInitialPosition (source symbol : String) (venueCode : Int)
  | venueNameChanged (venueCode : Int) (old new : String)
  | fillQuantityNotPositive
  | notionalOverflowed
  | cumulativeOverflowed
  | allocationIdentityInvalid
  | allocationEmpty
  | restatementNotLater
  | restatementFingerprintInvalid
  | restatementQuantitiesInvalid
  | allocationVenueUnsupported
  | allocationSymbolInvalid
  | allocationStrategyInvalid
  | allocationQuantityOrPriceInvalid
  | allocationPositionDuplicate
  | allocationMarksDiffer
  | allocationUnbalanced (symbol : String) (venueCode : Int)
  | allocationTimestampDuplicate
  | restatedAllocationMissing
  | restatementCrossesScopes
  | restatedTwice
  | restatedFingerprintChanged
  | restatementPositionsIncomplete
  | restatementPositionMismatch
  | allocationSourceMismatch
  | allocationTimestampsNotIncreasing
  | residualLegMissing
  | allocationMismatch (source : String) (snapshotTsUs : Int) (strategy symbol : String)
  | historicalObservationsEmpty
  | historicalObservationsNotIncreasing
  | unknownHistoricalSource
  | historicalAmendmentsExist
  | observationPrecedesAnchor
  | observationCollides
  | observationOwnerInvalid
  | observedOwnershipDuplicate
  | observationsChangeNothing
  | missingHistory (source : String)
  | negativeEnd
  | negativeStart
  | endBeforeStart
  | unselectedSnapshot (source : String)
  | unselectedStrategySnapshot (source : String)
  | selectedSourcesDuplicate
  | selectedSourceUnknown (source : String)
  | selectedSourceDisabled (source : String)
  | noSourceSelected
  | noRequestedSymbol
  | invalidTickInterval
  | strategyNameFormat
  | sourceNotUnique
  | minuteVenueUnsupported
  | minutePriceMissing (symbol : String) (tsUs : Int)
  | fundingSourceUnavailable
  | fundingConfigUnavailable
  | external (reason : String)
  deriving DecidableEq, Repr

/-! ## Keys -/

/-- `(String, i16)`: a symbol on a venue. -/
structure Market where
  symbol : String
  venueCode : Int
  deriving DecidableEq, Repr

instance : LinearOrder Market :=
  LinearOrder.lift' (fun m => toLex (m.symbol, m.venueCode)) (by
    rintro ⟨a, b⟩ ⟨c, d⟩ h
    simpa using h)

/-- `(String, String, i16)`: a market held by a strategy. -/
structure StrategyMarket where
  strategy : String
  market : Market
  deriving DecidableEq, Repr

instance : LinearOrder StrategyMarket :=
  LinearOrder.lift' (fun m => toLex (m.strategy, m.market)) (by
    rintro ⟨a, b⟩ ⟨c, d⟩ h
    simpa using h)

/-- `LiquidityOrderKey`: one exchange order. -/
structure LiquidityOrderKey where
  market : Market
  clientOrderId : Int
  deriving DecidableEq, Repr

instance : LinearOrder LiquidityOrderKey :=
  LinearOrder.lift' (fun k => toLex (k.market, k.clientOrderId)) (by
    rintro ⟨a, b⟩ ⟨c, d⟩ h
    simpa using h)

/-! ## Events -/

inductive FillLiquidity
  | unknown
  | maker
  | taker
  deriving DecidableEq, Repr

inductive LiquidityRole
  | maker
  | taker
  | unknown
  | internalCross
  deriving DecidableEq, Repr

abbrev LiquidityByOrder := OrdMap LiquidityOrderKey LiquidityRole

inductive Side
  | buy
  | sell
  deriving DecidableEq, Repr

structure NavEvent (F : Type) where
  recordKey : String
  eventTsUs : Int
  createTsUs : Int
  updateTsUs : Int
  signalTsUs : Int
  symbol : String
  clientOrderId : Int
  venueCode : Int
  venue : String
  orderTypeCode : Int
  sideCode : Int
  price : F
  amountUpdate : F
  fromKeyText : String
  fillLiquidity : Option FillLiquidity
  deriving DecidableEq

variable {F : Type}

def NavEvent.market (event : NavEvent F) : Market := ⟨event.symbol, event.venueCode⟩

def NavEvent.orderKey (event : NavEvent F) : LiquidityOrderKey := ⟨event.market, event.clientOrderId⟩

def fifoTsUs (event : NavEvent F) : Int :=
  if event.updateTsUs > 0 then event.updateTsUs else event.eventTsUs

/-- `venue_name`. -/
def venueName (value : Int) : String :=
  if value = 0 then "BinanceMargin"
  else if value = 1 then "BinanceFutures"
  else if value = 2 then "OkexMargin"
  else if value = 3 then "OkexFutures"
  else if value = 4 then "BybitMargin"
  else if value = 5 then "BybitFutures"
  else if value = 6 then "BitgetMargin"
  else if value = 7 then "BitgetFutures"
  else if value = 8 then "GateMargin"
  else if value = 9 then "GateFutures"
  else if value = 10 then "AsterMargin"
  else if value = 11 then "AsterFutures"
  else if value = 12 then "HyperliquidMargin"
  else if value = 13 then "HyperliquidFutures"
  else if value = 14 then "BinanceCoinFutures"
  else if value = 15 then "BitgetCoinFutures"
  else "UNKNOWN(" ++ toString value ++ ")"

/-- `matches!(venue_code, 14 | 15)`: the inverse contracts. -/
def isInverseVenue (venueCode : Int) : Bool := venueCode == 14 || venueCode == 15

/-- `target_symbol`: cash fills carry the bare asset. -/
def targetSymbol (symbol : String) (venueCode : Int) : String :=
  if venueCode = 0 ∨ venueCode = 2 then (Text.stripSuffix symbol "USDT").getD symbol else symbol

/-! ## Strategy names -/

def INTERNAL_CROSS_ORDER_TYPE_CODE : Int := 2
def BATCH_EXEC_FROM_KEY_PREFIX : String := "batch_exec:"
def CHASE_EXEC_FROM_KEY_PREFIX : String := "chase_exec:"
def INITIAL_POSITION_STRATEGY : String := "__initial_position__"
def UNALLOCATED_STRATEGY : String := "__unallocated__"
def UNATTRIBUTED_STRATEGY : String := "__unattributed__"

def strategyFromFromKey (fromKey : String) : String :=
  match (Text.stripPrefix fromKey BATCH_EXEC_FROM_KEY_PREFIX).or
      (Text.stripPrefix fromKey CHASE_EXEC_FROM_KEY_PREFIX) with
  | none => UNATTRIBUTED_STRATEGY
  | some strategy =>
    if !strategy.isEmpty && decide (strategy.length ≤ 256) && strategy.toList.all Text.isNameChar then
      strategy
    else UNATTRIBUTED_STRATEGY

def isSystemPositionClose (strategy : String) : Bool :=
  Text.eqIgnoreAsciiCase strategy "system_position_close"

/-- The name a strategy of a `batch_exec` key must have (`allocation.rs`, `nav.rs`). -/
def isStrategyName (name : String) : Bool :=
  strategyFromFromKey (BATCH_EXEC_FROM_KEY_PREFIX ++ name) == name

/-! ## Configuration -/

structure QuoteFeeRates (F : Type) where
  makerFeeRate : F
  takerFeeRate : F
  theoreticalTwapFeeRate : F

structure FeeRates (F : Type) where
  maker : F
  taker : F
  byQuote : OrdMap String (QuoteFeeRates F)

def symbolQuote (symbol : String) : String :=
  if Text.endsWith symbol "USDC" then "USDC"
  else if Text.endsWith symbol "USD" then "USD"
  else "USDT"

def FeeRates.forSymbol (rates : FeeRates F) (symbol : String) : F × F :=
  match rates.byQuote[symbolQuote symbol]? with
  | some quote => (quote.makerFeeRate, quote.takerFeeRate)
  | none => (rates.maker, rates.taker)

structure SourceConfig (F : Type) where
  id : String
  account : String
  accountAlias : Option String
  venue : String
  enabled : Bool
  estimatedFeeRate : Option F
  makerFeeRate : Option F
  takerFeeRate : Option F
  quoteFeeRates : OrdMap String (QuoteFeeRates F)

structure AppConfig (F : Type) where
  sources : List (SourceConfig F)

section
variable [F64 F]

def validateQuoteFeeRates (rates : OrdMap String (QuoteFeeRates F)) : Except NavError Unit :=
  rates.toList.forM fun (quote, rate) => do
    ensure (quote == "USDT" || quote == "USDC" || quote == "USD") (.unsupportedFeeQuote quote)
    ensure (F64.isFinite rate.makerFeeRate && F64.isFinite rate.takerFeeRate &&
      F64.isFinite rate.theoreticalTwapFeeRate) (.quoteFeeRatesNotFinite quote)

def validateFeeRates (rates : FeeRates F) : Except NavError Unit := do
  ensure (F64.isFinite rates.maker) .makerFeeRateNotFinite
  ensure (F64.isFinite rates.taker) .takerFeeRateNotFinite
  validateQuoteFeeRates rates.byQuote

def SourceConfig.navFeeRates (source : SourceConfig F) : Except NavError (FeeRates F) := do
  let legacy := source.estimatedFeeRate
  let some maker := source.makerFeeRate.or legacy | throw (.missingMakerFeeRate source.id)
  let some taker := source.takerFeeRate.or legacy | throw (.missingTakerFeeRate source.id)
  let rates : FeeRates F := { maker, taker, byQuote := source.quoteFeeRates }
  validateFeeRates rates
  return rates

end

/-- `display_name`. -/
def SourceConfig.displayName (source : SourceConfig F) : String :=
  match (source.accountAlias.map Text.trim).filter (fun value => !value.isEmpty) with
  | some value => value
  | none => source.account

end CtaManager
