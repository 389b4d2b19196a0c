import CtaManager.Reconcile.Orders

/-!
The fill reconciliation of one source (`reconcile.rs`).

`reconcileSource` adds up the uniform fills of each market, collects the orders behind
the observations of the four raw column families, and adds the greatest quantity of each
order to the raw total of its market and side.
-/

namespace CtaManager.Reconcile

open Check Model

/-! ## Records -/

structure RawRocksRecord where
  key : List UInt8
  value : List UInt8
  deriving DecidableEq

inductive RawColumnFamily where
  | tradeUpdates
  | tradeUpdatesUnmatched
  | orderUpdates
  | orderUpdatesUnmatched
  deriving DecidableEq

def RawColumnFamily.name : RawColumnFamily → String
  | tradeUpdates => "trade_updates"
  | tradeUpdatesUnmatched => "trade_updates_unmatched"
  | orderUpdates => "order_updates"
  | orderUpdatesUnmatched => "order_updates_unmatched"

/-- `RAW_COLUMN_FAMILIES`. -/
def rawColumnFamilies : List RawColumnFamily :=
  [.tradeUpdates, .tradeUpdatesUnmatched, .orderUpdates, .orderUpdatesUnmatched]

/-- What was read of the column families.  All of it is in memory at once. -/
structure Records where
  uniform : List RawRocksRecord
  raw : RawColumnFamily → List RawRocksRecord
  fits : uniform.length + (rawColumnFamilies.map fun cf => (raw cf).length).sum ≤ usizeMax

/-- What the report copies of a source. -/
structure Source where
  id : String
  displayName : String
  venue : String
  rocksdbPath : String
  deriving DecidableEq

inductive ReconcileError where
  | bail (message : String)
  | undecodableUniform (source key : String) (e : DecodeError)
  | undecodable (source : String) (columnFamily : RawColumnFamily) (key : String)
      (e : UpdateError)
  | invalidObservation (source : String) (columnFamily : RawColumnFamily) (message : String)
  deriving DecidableEq

/-! ## Totals -/

structure QuantityComparison where
  buyQuantity : ℚ
  sellQuantity : ℚ
  netQuantity : ℚ
  deriving DecidableEq

structure QuantityBuilder where
  buyQuantity : ℚ
  sellQuantity : ℚ

namespace QuantityBuilder

def empty : QuantityBuilder := { buyQuantity := 0, sellQuantity := 0 }

def add (builder : QuantityBuilder) (sideCode : Int) (quantity : ℚ) :
    Except String QuantityBuilder := do
  let builder ←
    if sideCode = 1 then
      pure { builder with buyQuantity := builder.buyQuantity + quantity }
    else if sideCode = 2 then
      pure { builder with sellQuantity := builder.sellQuantity + quantity }
    else throw ("unsupported side code " ++ toString sideCode)
  ensure (isFinite builder.buyQuantity && isFinite builder.sellQuantity)
    "cumulative reconciliation quantity overflowed"
  return builder

def finish (builder : QuantityBuilder) : QuantityComparison where
  buyQuantity := cleanZero builder.buyQuantity
  sellQuantity := cleanZero builder.sellQuantity
  netQuantity := cleanZero (builder.buyQuantity - builder.sellQuantity)

end QuantityBuilder

structure SymbolBuilder where
  uniformFillEventCount : Nat
  rawPositiveOrderCount : Nat
  rawObservationCount : Nat
  rawOrdersWithoutPositiveUniformFill : Nat
  uniform : QuantityBuilder
  raw : QuantityBuilder

def SymbolBuilder.empty : SymbolBuilder where
  uniformFillEventCount := 0
  rawPositiveOrderCount := 0
  rawObservationCount := 0
  rawOrdersWithoutPositiveUniformFill := 0
  uniform := .empty
  raw := .empty

structure SymbolFillComparison where
  symbol : String
  venueCode : Int
  uniformFillEventCount : Nat
  rawPositiveOrderCount : Nat
  rawObservationCount : Nat
  rawOrdersWithoutPositiveUniformFill : Nat
  uniform : QuantityComparison
  rawMaxCumulative : QuantityComparison
  rawMinusUniform : QuantityComparison
  deriving DecidableEq

structure SourceFillReconciliation where
  sourceId : String
  account : String
  configuredVenue : String
  rocksdbPath : String
  columnFamilyRecordCounts : OrdMap String Nat
  uniformEventCount : Nat
  uniformPositiveFillEventCount : Nat
  rawUniqueOrderCount : Nat
  rawPositiveOrderCount : Nat
  firstUniformFillTsUs : Option Int
  lastUniformFillTsUs : Option Int
  firstRawObservationTsUs : Option Int
  lastRawObservationTsUs : Option Int
  symbols : List SymbolFillComparison

/-! ## Uniform fills -/

structure UniformTotals where
  builders : OrdMap Market SymbolBuilder
  positiveClients : OrdSet LiquidityOrderKey
  positiveFillEventCount : Nat
  bounds : Option Int × Option Int

/-- One uniform order. -/
def addUniform (source : Source) (totals : UniformTotals) (record : RawRocksRecord) :
    Except ReconcileError UniformTotals := do
  let event ← (decodeUniformOrder record.key record.value).mapError
    (.undecodableUniform source.id (Utf8.lossy record.key))
  let amount ← (validateQuantity event.amountUpdate "uniform amount_update"
    event.recordKey).mapError .bail
  if amount = 0 then return totals
  else
    let market : Market := ⟨event.symbol, event.venueCode⟩
    let builder := (totals.builders[market]?).getD .empty
    let uniform ← (builder.uniform.add event.sideCode amount).mapError .bail
    let uniformFillEventCount ← (checkedAdd builder.uniformFillEventCount 1
      "uniform fill event count overflowed").mapError .bail
    let positiveFillEventCount ← (checkedAdd totals.positiveFillEventCount 1
      "uniform positive fill count overflowed").mapError .bail
    return {
      builders := totals.builders.insert market { builder with uniform, uniformFillEventCount }
      positiveClients := totals.positiveClients.insert ⟨market, event.clientOrderId⟩
      positiveFillEventCount
      bounds := updateBounds totals.bounds
        (if 0 < event.updateTsUs then event.updateTsUs else event.eventTsUs) }

def uniformTotals (source : Source) (records : List RawRocksRecord) :
    Except ReconcileError UniformTotals :=
  records.foldlM (addUniform source)
    { builders := ∅, positiveClients := ∅, positiveFillEventCount := 0, bounds := (none, none) }

/-! ## Raw observations -/

/-- The observation of a raw record. -/
def observation (columnFamily : RawColumnFamily) (record : RawRocksRecord) :
    Except UpdateError RawObservation :=
  match columnFamily with
  | .tradeUpdates | .tradeUpdatesUnmatched => do
    let event ← decodeTradeUpdate record.key record.value
    return {
      symbol := event.symbol, venueCode := event.venueCode, orderId := event.orderId
      clientOrderId := event.clientOrderId, sideCode := event.sideCode
      cumulativeQuantity := event.cumulativeFilledQuantity
      eventTsUs :=
        if 0 < event.tradeTsUs then event.tradeTsUs
        else if 0 < event.eventTsUs then event.eventTsUs
        else event.recordTsUs }
  | .orderUpdates | .orderUpdatesUnmatched => do
    let event ← decodeOrderUpdate record.key record.value
    return {
      symbol := event.symbol, venueCode := event.venueCode, orderId := event.orderId
      clientOrderId := event.clientOrderId, sideCode := event.sideCode
      cumulativeQuantity := event.cumulativeFilledQuantity
      eventTsUs := if 0 < event.eventTsUs then event.eventTsUs else event.recordTsUs }

structure RawState where
  orders : RawOrders
  bounds : Option Int × Option Int

/-- One record of a raw column family. -/
def addRaw (source : Source) (columnFamily : RawColumnFamily) (state : RawState)
    (record : RawRocksRecord) : Except ReconcileError RawState := do
  let observation ← (observation columnFamily record).mapError
    (.undecodable source.id columnFamily (Utf8.lossy record.key))
  let orders ← (applyRawObservation state.orders observation).mapError
    (.invalidObservation source.id columnFamily)
  return { orders, bounds := updateBounds state.bounds observation.eventTsUs }

def rawState (source : Source) (raw : RawColumnFamily → List RawRocksRecord) :
    Except ReconcileError RawState :=
  rawColumnFamilies.foldlM (fun state cf => (raw cf).foldlM (addRaw source cf) state)
    { orders := ∅, bounds := (none, none) }

/-! ## Raw totals -/

structure RawTotals where
  builders : OrdMap Market SymbolBuilder
  positiveOrderCount : Nat

/-- Some positive uniform fill has a client id of the order. -/
def represented (clients : OrdSet LiquidityOrderKey) (order : RawOrder) : Bool :=
  order.clientOrderIds.toList.any fun id => clients.contains ⟨order.market, id⟩

/-- An order without a positive uniform fill is counted. -/
def countMissing (clients : OrdSet LiquidityOrderKey) (order : RawOrder) (count : Nat) :
    Except String Nat :=
  if represented clients order then .ok count
  else checkedAdd count 1 "raw missing-uniform order count overflowed"

/-- One order of the raw observations. -/
def addOrder (clients : OrdSet LiquidityOrderKey) (totals : RawTotals) (order : RawOrder) :
    Except String RawTotals :=
  if order.maxCumulativeQuantity = 0 then .ok totals
  else do
    let positiveOrderCount ← checkedAdd totals.positiveOrderCount 1
      "raw positive order count overflowed"
    let builder := (totals.builders[order.market]?).getD .empty
    let raw ← builder.raw.add order.sideCode order.maxCumulativeQuantity
    let rawPositiveOrderCount ← checkedAdd builder.rawPositiveOrderCount 1
      "raw symbol order count overflowed"
    let rawObservationCount ← checkedAdd builder.rawObservationCount order.observationCount
      "raw observation count overflowed"
    let rawOrdersWithoutPositiveUniformFill ←
      countMissing clients order builder.rawOrdersWithoutPositiveUniformFill
    return {
      builders := totals.builders.insert order.market { builder with
        raw, rawPositiveOrderCount, rawObservationCount, rawOrdersWithoutPositiveUniformFill }
      positiveOrderCount }

def rawTotals (clients : OrdSet LiquidityOrderKey) (builders : OrdMap Market SymbolBuilder)
    (orders : RawOrders) : Except String RawTotals :=
  (orders.toList.map Prod.snd).foldlM (addOrder clients) { builders, positiveOrderCount := 0 }

def compareFills (entry : Market × SymbolBuilder) : SymbolFillComparison :=
  let uniform := entry.2.uniform.finish
  let raw := entry.2.raw.finish
  { symbol := entry.1.symbol
    venueCode := entry.1.venueCode
    uniformFillEventCount := entry.2.uniformFillEventCount
    rawPositiveOrderCount := entry.2.rawPositiveOrderCount
    rawObservationCount := entry.2.rawObservationCount
    rawOrdersWithoutPositiveUniformFill := entry.2.rawOrdersWithoutPositiveUniformFill
    uniform
    rawMaxCumulative := raw
    rawMinusUniform :=
      { buyQuantity := cleanZero (raw.buyQuantity - uniform.buyQuantity)
        sellQuantity := cleanZero (raw.sellQuantity - uniform.sellQuantity)
        netQuantity := cleanZero (raw.netQuantity - uniform.netQuantity) } }

/-! ## The report -/

def columnFamilyRecordCounts (records : Records) : OrdMap String Nat :=
  rawColumnFamilies.foldl (fun counts cf => counts.insert cf.name (records.raw cf).length)
    ((∅ : OrdMap String Nat).insert "uniform_orders" records.uniform.length)

/-- `reconcile_source`, on the records that were read. -/
def reconcileSource (source : Source) (records : Records) :
    Except ReconcileError SourceFillReconciliation := do
  let uniform ← uniformTotals source records.uniform
  let raw ← rawState source records.raw
  let totals ← (rawTotals uniform.positiveClients uniform.builders raw.orders).mapError .bail
  return {
    sourceId := source.id
    account := source.displayName
    configuredVenue := source.venue
    rocksdbPath := source.rocksdbPath
    columnFamilyRecordCounts := columnFamilyRecordCounts records
    uniformEventCount := records.uniform.length
    uniformPositiveFillEventCount := uniform.positiveFillEventCount
    rawUniqueOrderCount := raw.orders.size
    rawPositiveOrderCount := totals.positiveOrderCount
    firstUniformFillTsUs := uniform.bounds.1
    lastUniformFillTsUs := uniform.bounds.2
    firstRawObservationTsUs := raw.bounds.1
    lastRawObservationTsUs := raw.bounds.2
    symbols := totals.builders.toList.map compareFills }

end CtaManager.Reconcile
