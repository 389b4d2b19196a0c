import CtaManager.Library.StableSort
import CtaManager.Nav.Snapshot
import CtaManager.Nav.State

/-!
`prepare_source_events` (`nav.rs`): the events of a source after its snapshot,
in replay order and with their liquidity roles, the opening ledgers, and the
corrections that apply to this projection.
-/

namespace CtaManager

open Check StableSort

/-- `FirstFillReference`: what the first fill of a market says about it. -/
structure FirstFillReference (F : Type) where
  price : F
  venue : String

structure PreparedSourceEvents (F : Type) where
  allocations : List (AllocationSnapshot F)
  snapshotTsUs : Option Int
  initialStates : OrdMap Market (VenueState F)
  initialStrategyStates : OrdMap StrategyMarket (VenueState F)
  strategyAllocationActive : Bool
  fillEvents : List (PreparedFill F)
  orderEventCount : Nat
  ignoredAtOrBeforeSnapshotEventCount : Nat
  ignoredNonFillEventCount : Nat

variable {F : Type}

/-! ## Events -/

/-- The replay order: FIFO time, then event time, then record key. -/
abbrev EventOrder := Int ×ₗ Int ×ₗ String

def eventOrder (event : NavEvent F) : EventOrder :=
  toLex (fifoTsUs event, toLex (event.eventTsUs, event.recordKey))

/-- The key of `fill_order`. -/
def fillOrder (fill : PreparedFill F) : EventOrder :=
  toLex (fill.fillTsUs, toLex (fill.event.eventTsUs, fill.event.recordKey))

def liquidityRoleForEvent (event : NavEvent F) (liquidityByOrder : LiquidityByOrder) :
    LiquidityRole :=
  if event.orderTypeCode = INTERNAL_CROSS_ORDER_TYPE_CODE then .internalCross
  else
    match event.fillLiquidity with
    | some .maker => .maker
    | some .taker => .taker
    | some .unknown => .unknown
    | none =>
      (liquidityByOrder[event.orderKey]?).getD
        (if event.orderTypeCode = 1 then .maker
        else if 3 ≤ event.orderTypeCode ∧ event.orderTypeCode ≤ 9 then .taker
        else .unknown)

variable [F64 F]

/-- `validated_fill_side`: `none` is an event that filled nothing. -/
def validatedFillSide (source : SourceConfig F) (event : NavEvent F) :
    Except NavError (Option Side) :=
  if !F64.isFinite event.amountUpdate || decide (event.amountUpdate < 0) then
    .error (.invalidAmountUpdate source.id event.recordKey)
  else if event.amountUpdate == 0 then .ok none
  else if !isPositive event.price then .error (.invalidFillPrice source.id event.recordKey)
  else if (Text.trim event.symbol).isEmpty then .error (.emptySymbol source.id event.recordKey)
  else if event.sideCode = 1 then .ok (some .buy)
  else if event.sideCode = 2 then .ok (some .sell)
  else .error (.unsupportedSideCode source.id event.recordKey event.sideCode)

def preparedFill (liquidityByOrder : LiquidityByOrder) (event : NavEvent F) (side : Side) :
    PreparedFill F :=
  { event
    side
    fillTsUs := fifoTsUs event
    liquidity := liquidityRoleForEvent event liquidityByOrder
    initialPositionClose := false }

/-- At or before the snapshot: the event is part of the opening position. -/
def isBeforeSnapshot (snapshotTsUs : Option Int) (event : NavEvent F) : Bool :=
  snapshotTsUs.any fun ts => decide (fifoTsUs event ≤ ts)

/-- What the loop over the events collects. -/
structure EventScan (F : Type) where
  ignoredAtOrBeforeSnapshotEventCount : Nat
  ignoredNonFillEventCount : Nat
  fillEvents : List (PreparedFill F)
  firstFillReferences : OrdMap Market (FirstFillReference F)

def EventScan.empty : EventScan F :=
  { ignoredAtOrBeforeSnapshotEventCount := 0, ignoredNonFillEventCount := 0, fillEvents := [],
    firstFillReferences := ∅ }

def EventScan.pushFill (scan : EventScan F) (fill : PreparedFill F) : EventScan F :=
  { scan with
    firstFillReferences := OrdMap.upsert scan.firstFillReferences fill.event.market fun o =>
      o.getD { price := fill.event.price, venue := fill.event.venue }
    fillEvents := scan.fillEvents ++ [fill] }

def scanEvent (source : SourceConfig F) (snapshotTsUs : Option Int)
    (liquidityByOrder : LiquidityByOrder) (scan : EventScan F) (event : NavEvent F) :
    Except NavError (EventScan F) :=
  if isBeforeSnapshot snapshotTsUs event then
    .ok { scan with
      ignoredAtOrBeforeSnapshotEventCount := scan.ignoredAtOrBeforeSnapshotEventCount + 1 }
  else do
    match ← validatedFillSide source event with
    | none =>
      return { scan with ignoredNonFillEventCount := scan.ignoredNonFillEventCount + 1 }
    | some side => return scan.pushFill (preparedFill liquidityByOrder event side)

/-! ## Opening ledgers -/

/-- The opening price of a position: the configured one, or that of the first fill. -/
def initialReference (source : SourceConfig F) (position : SnapshotPosition F)
    (firstFill : Option (FirstFillReference F)) :
    Except NavError (F × InitialReferencePriceSource) :=
  match position.referencePrice with
  | some price => do
    ensure (isPositive price)
      (.invalidReferencePrice source.id position.symbol position.venueCode)
    return (price, .configured)
  | none =>
    match firstFill with
    | some fill => .ok (fill.price, .firstFill)
    | none => .error (.missingReferencePrice source.id position.symbol position.venueCode)

/-- The venue name of an opening ledger: that of the first fill, when there is one. -/
def initialVenue (venueCode : Int) (firstFill : Option (FirstFillReference F)) : String :=
  (firstFill.map FirstFillReference.venue).getD (venueName venueCode)

def openPosition (source : SourceConfig F)
    (firstFillReferences : OrdMap Market (FirstFillReference F))
    (initialStates : OrdMap Market (VenueState F)) (position : SnapshotPosition F) :
    Except NavError (OrdMap Market (VenueState F)) := do
  let key := position.targetMarket
  let firstFill := firstFillReferences[key]?
  let (referencePrice, referencePriceSource) ← initialReference source position firstFill
  let venue := initialVenue position.venueCode firstFill
  ensure (!initialStates.contains key)
    (.duplicateInitialPosition source.id position.symbol position.venueCode)
  return initialStates.insert key
    (VenueState.fromInitialPosition position.venueCode venue position.quantity referencePrice
      referencePriceSource)

/-- The strategy ledgers of an anchor; its residual entries have none. -/
def openStrategyPosition (firstFillReferences : OrdMap Market (FirstFillReference F))
    (states : OrdMap StrategyMarket (VenueState F)) (position : StrategySnapshotPosition F) :
    OrdMap StrategyMarket (VenueState F) :=
  if position.strategyName == UNALLOCATED_STRATEGY then states
  else
    states.insert ⟨position.strategyName, position.targetMarket⟩
      (VenueState.fromInitialPosition position.venueCode
        (initialVenue position.venueCode firstFillReferences[position.targetMarket]?)
        position.quantity position.referencePrice .configured)

/-- Without an anchor the opening positions belong to one reserved owner. -/
def initialPositionStates (initialStates : OrdMap Market (VenueState F)) :
    OrdMap StrategyMarket (VenueState F) :=
  initialStates.toList.foldl (fun states p =>
    states.insert ⟨INITIAL_POSITION_STRATEGY, p.1⟩ p.2) ∅

def openStrategyPositions (anchor : Option (StrategyPositionSnapshot F))
    (firstFillReferences : OrdMap Market (FirstFillReference F))
    (initialStates : OrdMap Market (VenueState F)) : OrdMap StrategyMarket (VenueState F) :=
  match anchor with
  | some snapshot => snapshot.positions.foldl (openStrategyPosition firstFillReferences) ∅
  | none => initialPositionStates initialStates

/-! ## Corrections -/

/-- Every market of the correction has a residual leg. -/
def hasResidualLegs (a : AllocationSnapshot F) : Bool :=
  a.positions.all fun p =>
    a.positions.any fun q => q.strategy == UNALLOCATED_STRATEGY && q.market == p.market

/-- A correction belongs to the projection: it is later than the snapshot, and
residual legs need the strategy anchor they refer to. -/
def appliesTo (snapshotTsUs : Option Int) (strategyAllocationActive : Bool)
    (a : AllocationSnapshot F) : Bool :=
  snapshotTsUs.all (fun ts => decide (ts < a.snapshotTsUs)) &&
    (strategyAllocationActive || !a.usesResidual)

def prepareAllocations [Fingerprint F] (source : SourceConfig F) (snapshotTsUs : Option Int)
    (strategyAllocationActive : Bool) (allocations : List (AllocationSnapshot F)) :
    Except NavError (List (AllocationSnapshot F)) := do
  let resolved ← resolve allocations
  let allocations := resolved.filter (appliesTo snapshotTsUs strategyAllocationActive)
  allocations.forM fun a => do
    a.validate
    ensure (a.sourceId == source.id) .allocationSourceMismatch
  ensure (decide (allocations.IsChain fun a b => a.snapshotTsUs < b.snapshotTsUs))
    .allocationTimestampsNotIncreasing
  if strategyAllocationActive then
    allocations.forM fun a => ensure (hasResidualLegs a) .residualLegMissing
  return allocations

/-! ## The whole preparation -/

def checkSnapshot (source : SourceConfig F) (snapshot : PositionSnapshot F) :
    Except NavError Unit := do
  snapshot.validate
  ensure (snapshot.sourceId == source.id) (.snapshotSourceMismatch snapshot.sourceId source.id)

def checkStrategySnapshot (source : SourceConfig F) (snapshot : StrategyPositionSnapshot F) :
    Except NavError Unit := do
  snapshot.validate
  ensure (snapshot.sourceId == source.id)
    (.strategySnapshotSourceMismatch snapshot.sourceId source.id)

def prepareSourceEvents [Fingerprint F] (source : SourceConfig F) (events : List (NavEvent F))
    (snapshot : Option (PositionSnapshot F))
    (strategySnapshot : Option (StrategyPositionSnapshot F)) (liquidityByOrder : LiquidityByOrder)
    (allocations : List (AllocationSnapshot F)) :
    Except NavError (PreparedSourceEvents F) := do
  snapshot.forM (checkSnapshot source)
  strategySnapshot.forM (checkStrategySnapshot source)
  let anchor := strategySnapshot.filter (supersedes snapshot)
  let effectiveSnapshot ← effectivePositionSnapshot snapshot strategySnapshot
  let snapshotTsUs := effectiveSnapshot.map PositionSnapshot.snapshotTsUs
  let scan ← (stableSort eventOrder events).foldlM
    (scanEvent source snapshotTsUs liquidityByOrder) EventScan.empty
  let initialStates ← ((effectiveSnapshot.map PositionSnapshot.positions).getD []).foldlM
    (openPosition source scan.firstFillReferences) ∅
  let allocations ← prepareAllocations source snapshotTsUs anchor.isSome allocations
  return {
    allocations
    snapshotTsUs
    initialStates
    initialStrategyStates := openStrategyPositions anchor scan.firstFillReferences initialStates
    strategyAllocationActive := anchor.isSome
    fillEvents := scan.fillEvents.map
      (PreparedFill.attributeInitialPosition anchor.isSome initialStates)
    orderEventCount := events.length
    ignoredAtOrBeforeSnapshotEventCount := scan.ignoredAtOrBeforeSnapshotEventCount
    ignoredNonFillEventCount := scan.ignoredNonFillEventCount }

/-! ## A small source

The data of the examples below it: one source and the fills of its strategies. -/

namespace Sample

def source : SourceConfig ℚ :=
  { id := "trade01", account := "trade01", accountAlias := none, venue := "binance-futures",
    enabled := true, estimatedFeeRate := none, makerFeeRate := some (1 / 10000),
    takerFeeRate := some (5 / 10000), quoteFeeRates := ∅ }

/-- A fill of strategy `owner` on the linear perpetual of `symbol`. -/
def fill (recordKey : String) (tsUs : Int) (owner symbol : String) (sideCode : Int)
    (price amount : ℚ) : NavEvent ℚ :=
  { recordKey, eventTsUs := tsUs, createTsUs := tsUs, updateTsUs := tsUs, signalTsUs := tsUs,
    symbol, clientOrderId := 7, venueCode := 1, venue := "BinanceFutures", orderTypeCode := 0,
    sideCode, price, amountUpdate := amount, fromKeyText := BATCH_EXEC_FROM_KEY_PREFIX ++ owner,
    fillLiquidity := none }

/-- The fingerprint of sources without restatements is never asked for. -/
abbrev noFingerprint : Fingerprint ℚ := ⟨fun _ => ""⟩

end Sample

end CtaManager
