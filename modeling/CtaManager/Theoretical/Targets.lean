import CtaManager.Archive.PositionArchive
import CtaManager.Exec.Routing
import CtaManager.Library.FoldUntil
import CtaManager.Nav.Types
import CtaManager.Theoretical.Rebuild

/-!
The index of archived targets (`ingest_target` of `theoretical_nav.rs`).

For each binding the cache keeps the targets published last.  A publication that changes them
adds one delta for each changed symbol, filed under its market; the markets keep the positions
of their deltas and the running sum of their quantities.
-/

namespace CtaManager.Theoretical

open Check Catalog Archive

/-- A published account, as `ingest_target` reads it from the archive. -/
structure TargetAccount (F : Type) where
  sourceId : String
  bindingName : String
  shares : F
  /-- the targets of `target_projection`, which include the shares -/
  targetProjection : Option (OrdMap String (TargetPosition F))
  theoreticalFeeRate : Option F
  theoreticalFeeRatesByQuote : OrdMap String F
  takerFeeRate : Option F
  takerFeeRatesByQuote : OrdMap String F
  legacyLeverage : Option F

/-- `TargetUpdate`: the part of an archived message that target readers decode. -/
structure TargetUpdate (F : Type) where
  receivedAtUs : Int
  seq : Nat
  strategy : PositionStrategy F
  publishedAccounts : List (TargetAccount F)

def TargetUpdate.key {F : Type} (message : TargetUpdate F) : SeqKey :=
  ⟨message.receivedAtUs, message.seq⟩

/-- What the cache reads of a configured source. -/
structure TargetSource where
  id : String
  enabled : Bool
  venue : String
  deriving DecidableEq

structure BindingKey where
  sourceId : String
  bindingName : String
  deriving DecidableEq

instance : LinearOrder BindingKey :=
  LinearOrder.lift' (fun k => toLex (k.sourceId, k.bindingName)) (by
    rintro ⟨a, b⟩ ⟨c, d⟩ h
    simpa using h)

structure LatestTargets (F : Type) where
  positionStrategyName : String
  venue : String
  targets : OrdMap String F
  receivedAtUs : Int
  updateSeq : Nat

structure MarketDeltaIndex (F : Type) where
  positions : List Nat
  cumulativeQuantity : List F

structure TargetCacheState (F : Type) where
  cursor : Option SeqKey
  latest : OrdMap BindingKey (LatestTargets F)
  deltas : List (VirtualDelta F)
  tailDeltas : List (VirtualDelta F)
  markets : OrdMap MarketKey (MarketDeltaIndex F)
  tailMarkets : OrdMap MarketKey (MarketDeltaIndex F)
  revision : Nat

inductive TargetError
  | scalingOverflowed
  | invalidArchivedFee
  | unsupportedMarket (message : String)
  deriving DecidableEq

/-- `TargetCacheState::default`. -/
def TargetCacheState.empty {F : Type} : TargetCacheState F where
  cursor := none
  latest := ∅
  deltas := []
  tailDeltas := []
  markets := ∅
  tailMarkets := ∅
  revision := 0

/-! ## Accounts of a publication -/

section

variable {F : Type}

def publishedBinding (account : TargetAccount F) : BindingKey :=
  ⟨account.sourceId, account.bindingName⟩

/-- `fee_for_symbol`. -/
def feeForSymbol (account : TargetAccount F) (symbol : String) : Option F :=
  (account.theoreticalFeeRatesByQuote[symbolQuote symbol]?).or account.theoreticalFeeRate

/-- `taker_fee_for_symbol`. -/
def takerFeeForSymbol (account : TargetAccount F) (symbol : String) : Option F :=
  (account.takerFeeRatesByQuote[symbolQuote symbol]?).or account.takerFeeRate

/-- The signal of a target: of the projection, where there is one. -/
def targetSignal (message : TargetUpdate F) (account : TargetAccount F)
    (symbol : String) : Int :=
  ((account.targetProjection.getD message.strategy.targets)[symbol]?).elim 0 TargetPosition.signal

variable [F64 F]

/-- `effective_shares`. -/
def effectiveShares (account : TargetAccount F) : F :=
  account.shares * account.legacyLeverage.getD 1

/-- `normalized_scaled_targets`. -/
def normalizedScaledTargets (message : TargetUpdate F) (shares : F) :
    Except TargetError (OrdMap String F) :=
  message.strategy.targets.toList.foldlM (fun targets entry => do
    let quantity := cleanZero (entry.2.qty * shares)
    ensure (F64.isFinite quantity) .scalingOverflowed
    return if quantity == 0 then targets else targets.insert entry.1 quantity) ∅

/-- The targets of a projection that are not zero. -/
def projectedTargets (projection : OrdMap String (TargetPosition F)) : OrdMap String F :=
  (projection.filter fun _ target => !(cleanZero target.qty == 0)).map fun _ target =>
    cleanZero target.qty

/-- What an account has published. -/
def publishedTargets (message : TargetUpdate F) (account : TargetAccount F) :
    Except TargetError (OrdMap String F) :=
  match account.targetProjection with
  | some projection => .ok (projectedTargets projection)
  | none => normalizedScaledTargets message (effectiveShares account)

def nextTargets (source : TargetSource) (message : TargetUpdate F)
    (account : TargetAccount F) : Except TargetError (LatestTargets F) :=
  (publishedTargets message account).map fun targets =>
    { positionStrategyName := message.strategy.strategyName
      venue := source.venue
      targets
      receivedAtUs := message.receivedAtUs
      updateSeq := message.seq }

/-! ## Changes -/

def targetMapsEqual (left right : OrdMap String F) : Bool :=
  left.size == right.size &&
    left.toList.all fun entry => (right[entry.1]?).any fun quantity =>
      quantitiesEqual entry.2 quantity (F64.abs entry.2)

def targetPositionsChanged (previous : Option (LatestTargets F)) (next : LatestTargets F) : Bool :=
  match previous with
  | none => true
  | some previous => previous.venue != next.venue || !targetMapsEqual previous.targets next.targets

/-- The targets before the first publication are none. -/
def previousTargets (previous : Option (LatestTargets F)) : OrdMap String F :=
  previous.elim ∅ LatestTargets.targets

def targetDeltas (previous : Option (LatestTargets F)) (next : LatestTargets F) : List (String × F) :=
  let before := previousTargets previous
  let symbols := (before.keys ++ next.targets.keys).foldl (fun symbols symbol =>
    symbols.insert symbol) (∅ : OrdSet String)
  symbols.toList.filterMap fun symbol =>
    let from_ := before[symbol]?.getD 0
    let to_ := next.targets[symbol]?.getD 0
    if quantitiesEqual from_ to_ (F64.abs from_) then none else some (symbol, cleanZero (to_ - from_))

end

/-! ## Ingestion -/

section

variable {F : Type} [F64 F] [Text.Unicode]

/-- `archived_symbol_market`. -/
def archivedSymbolMarket (configuredVenue symbol : String) : Except String String := do
  let normalized ← normalizeExecSymbol symbol
  let binance := Text.startsWith configuredVenue "binance-"
  Exec.symbolMarket
    (if binance && Text.endsWith normalized "USD" then "binance-coin-futures"
    else if binance then "binance-futures"
    else configuredVenue) normalized

/-- The delta of one changed symbol. -/
def archivedDelta (source : TargetSource) (message : TargetUpdate F)
    (account : TargetAccount F) (symbol : String) (quantity : F) :
    Except TargetError (VirtualDelta F) := do
  let archivedFee := feeForSymbol account symbol
  let feeRate := archivedFee.getD 0
  ensure (F64.isFinite feeRate) .invalidArchivedFee
  let venue ← (archivedSymbolMarket source.venue symbol).mapError .unsupportedMarket
  return {
    executionModel := .twap5m
    sourceId := source.id
    bindingName := account.bindingName
    strategyName := message.strategy.strategyName
    symbol, venue
    receivedAtUs := message.receivedAtUs
    seq := message.seq
    deltaQty := quantity
    feeRate
    archivedTakerFeeRate := takerFeeForSymbol account symbol
    legacyFee := archivedFee.isNone
    targetSignal := targetSignal message account symbol }

/-- A delta and its entry in the index of its market. -/
def TargetCacheState.pushDelta (state : TargetCacheState F) (delta : VirtualDelta F) :
    TargetCacheState F :=
  { state with
    deltas := state.deltas ++ [delta]
    markets := state.markets.upsert delta.market fun index =>
      let index := index.getD ⟨[], []⟩
      { positions := index.positions ++ [state.deltas.length]
        cumulativeQuantity :=
          index.cumulativeQuantity ++ [index.cumulativeQuantity.getLast?.getD 0 + delta.deltaQty] } }

/-- The enabled source of an account. -/
def enabledSource (config : List TargetSource) (sourceId : String) : Option TargetSource :=
  config.find? fun source => source.enabled && source.id == sourceId

/-- One changed symbol. -/
def ingestChange (source : TargetSource) (message : TargetUpdate F)
    (account : TargetAccount F) (state : TargetCacheState F) (change : String × F) :
    TargetCacheState F × Except TargetError Unit :=
  match archivedDelta source message account change.1 change.2 with
  | .error e => (state, .error e)
  | .ok delta => (state.pushDelta delta, .ok ())

/-- One published account.  What is in the index by an error stays there. -/
def ingestAccount (config : List TargetSource) (message : TargetUpdate F)
    (state : TargetCacheState F) (account : TargetAccount F) :
    TargetCacheState F × Except TargetError Unit :=
  match enabledSource config account.sourceId with
  | none => (state, .ok ())
  | some source =>
    match nextTargets source message account with
    | .error e => (state, .error e)
    | .ok next =>
      let previous := state.latest[publishedBinding account]?
      let changes := if targetPositionsChanged previous next then targetDeltas previous next else []
      match foldUntil (ingestChange source message account) state changes with
      | (state, .error e) => (state, .error e)
      | (state, .ok _) =>
        ({ state with latest := state.latest.insert (publishedBinding account) next }, .ok ())

/-- `ingest_target`. -/
def ingestTarget (config : List TargetSource) (state : TargetCacheState F)
    (message : TargetUpdate F) : TargetCacheState F × Except TargetError Unit :=
  foldUntil (ingestAccount config message) state message.publishedAccounts

/-! ## The stable part and the tail -/

/-- A message of the stable part: the cursor follows. -/
def ingestStable (config : List TargetSource) (state : TargetCacheState F)
    (message : TargetUpdate F) : TargetCacheState F × Except TargetError Unit :=
  match ingestTarget config state message with
  | (state, .error e) => (state, .error e)
  | (state, .ok _) => ({ state with cursor := some message.key }, .ok ())

end

end CtaManager.Theoretical
