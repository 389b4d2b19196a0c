import CtaManager.Candles.Pricing

/-!
The target changes that the theoretical NAV trades (`VirtualDelta` of `theoretical_nav.rs`),
and when their slices trade.
-/

namespace CtaManager

namespace Candles.ExecutionModel

def openTsUs (model : ExecutionModel) (receivedAtUs : Int) : Int :=
  if model = .instantTaker then floorMinute receivedAtUs else firstCompleteOpen receivedAtUs

end Candles.ExecutionModel

namespace Theoretical

open Check Candles Catalog

structure VirtualDelta (F : Type) where
  executionModel : ExecutionModel
  sourceId : String
  bindingName : String
  strategyName : String
  symbol : String
  venue : String
  receivedAtUs : Int
  seq : Nat
  deltaQty : F
  feeRate : F
  archivedTakerFeeRate : Option F
  legacyFee : Bool
  targetSignal : Int
  deriving DecidableEq

/-- A market of a source. -/
structure MarketKey where
  sourceId : String
  symbol : String
  venue : String
  deriving DecidableEq

instance : LinearOrder MarketKey :=
  LinearOrder.lift' (fun k => toLex (k.sourceId, toLex (k.symbol, k.venue))) (by
    rintro ⟨a, b, c⟩ ⟨d, e, f⟩ h
    simpa using h)

namespace VirtualDelta

variable {F : Type}

def market (delta : VirtualDelta F) : MarketKey := ⟨delta.sourceId, delta.symbol, delta.venue⟩

def openTsUs (delta : VirtualDelta F) (index : Nat) : Int :=
  delta.executionModel.openTsUs delta.receivedAtUs + index * Candles.MINUTE_US

def executionTsUsFor (delta : VirtualDelta F) (model : ExecutionModel) : Int :=
  if model = .instantTaker then delta.receivedAtUs
  else model.openTsUs delta.receivedAtUs + model.sampleCount * Candles.MINUTE_US

def sliceTsUs (delta : VirtualDelta F) (index : Nat) : Int :=
  if delta.executionModel = .instantTaker then delta.receivedAtUs
  else delta.openTsUs index + Candles.MINUTE_US

end VirtualDelta

/-- `market_key`, with `cache_symbol` in it. -/
def marketKey [Text.Unicode] (venue symbol : String) : Except String String := do
  let code ← venueCode venue
  validateExecSymbol symbol
  return if code = 2 then "okex-margin:" ++ symbol
    else if code = 3 then "okex-futures:" ++ symbol
    else symbol

/-- The venues that have public candles. -/
def isPublicVenue (venue : String) : Bool := (venueCode venue).toOption.isSome

/-- What the candle store answers. -/
structure CandleReads (F : Type) where
  windowPrices : String → Int → ExecutionModel → Except String (Option (MinutePrices F))
  scan : String → Int → Int → Except String (List (Kline F))
  /-- A scan lists its candles in ascending order. -/
  sorted : ∀ symbol start stop candles, scan symbol start stop = .ok candles →
    candles.Pairwise fun a b => a.openTsUs < b.openTsUs

section

variable {F : Type} [F64 F] [DecidableEq F] [Text.Unicode]

/-- What a coherent store answers at one moment. -/
def storeReads (store : KlineStore F) (h : store.Coherent) (now : Int) : CandleReads F where
  windowPrices name openTsUs model := (store.windowPrices name openTsUs model now).2
  scan name start stop := (store.scan name start stop now).2
  sorted name start stop candles hscan := by
    unfold KlineStore.scan at hscan
    split at hscan
    · cases hscan
    · exact sorted_scan store.config (h.symbol name) start stop now hscan

end

/-- `VirtualDelta::prices`. -/
def VirtualDelta.prices {F : Type} [Text.Unicode] (delta : VirtualDelta F)
    (store : CandleReads F) : Except String (Option (MinutePrices F)) :=
  if isPublicVenue delta.venue then do
    let symbol ← marketKey delta.venue delta.symbol
    store.windowPrices symbol (delta.openTsUs 0) delta.executionModel
  else .ok none

end Theoretical

end CtaManager
