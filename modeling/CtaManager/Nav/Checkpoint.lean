import CtaManager.Library.FirstSeen
import CtaManager.Library.PartitionPoint
import CtaManager.Nav.Prepare

/-!
The checkpointed replay of one source (`CachedTimelineSource` in `nav.rs`):
`build` replays all fills and keeps the state at hourly checkpoints, `refresh`
takes a change of the history into an existing replay, from its end or from the
last checkpoint the change leaves valid.
-/

namespace CtaManager

open Check StableSort FirstSeen PartitionPoint

/-! ## Histories -/

structure HistoryChange (F : Type) where
  previousRevision : Nat
  events : List (NavEvent F)
  earliestLiquidityFillTsUs : Option Int

structure NavSourceHistory (F : Type) where
  allocations : List (AllocationSnapshot F)
  events : List (NavEvent F)
  liquidityByOrder : LiquidityByOrder
  revision : Nat
  change : Option (HistoryChange F)

/-! ## Cached sources -/

structure SourceNavReport (F : Type) where
  sourceId : String
  account : String
  configuredVenue : String
  estimatedFeeRate : F
  makerFeeRate : F
  takerFeeRate : F
  quoteFeeRates : OrdMap String (QuoteFeeRates F)
  initialPositionSnapshotTsUs : Option Int
  initialPositionCount : Nat
  orderEventCount : Nat
  ignoredAtOrBeforeSnapshotEventCount : Nat
  ignoredNonFillEventCount : Nat
  firstFillTsUs : Option Int
  lastFillTsUs : Option Int
  totals : NavTotals F
  symbols : List (SymbolNavReport F)

structure FifoCheckpoint (F : Type) where
  tsUs : Int
  nextFill : Nat
  state : TimelineSourceState F

structure CachedTimelineSource (F : Type) where
  prepared : PreparedSourceEvents F
  checkpoints : List (FifoCheckpoint F)
  symbols : OrdMap String Int
  strategies : OrdMap String Int
  report : SourceNavReport F
  endState : TimelineSourceState F
  nextCheckpoint : Option Int

variable {F : Type}

def CHECKPOINT_US : Int := 3600000000

def i64Max : Int := 9223372036854775807

/-- The checkpoint hour of a time. -/
def checkpointHour (tsUs : Int) : Int := tsUs / CHECKPOINT_US * CHECKPOINT_US

/-- The first checkpoint hour after a time. -/
def followingCheckpoint (tsUs : Int) : Int := (tsUs / CHECKPOINT_US + 1) * CHECKPOINT_US

/-- The strategy row a fill shows up in. -/
def strategyRow (strategyAllocationActive : Bool) (fill : PreparedFill F) : String :=
  if strategyAllocationActive && isSystemPositionClose fill.strategy then UNALLOCATED_STRATEGY
  else fill.strategy

variable [F64 F]

def initialTimelineState (source : SourceConfig F) (prepared : PreparedSourceEvents F) :
    Except NavError (TimelineSourceState F) := do
  let feeRates ← source.navFeeRates
  return {
    allocations := prepared.allocations
    nextAllocation := 0
    sourceId := source.id
    feeRates
    snapshotTsUs := prepared.snapshotTsUs
    pendingInitialStates := prepared.snapshotTsUs.map fun _ => prepared.initialStates
    pendingInitialStrategyStates :=
      prepared.snapshotTsUs.map fun _ => prepared.initialStrategyStates
    states := ∅
    strategyStates := ∅
    latestMarks := ∅
    strategyAllocationActive := prepared.strategyAllocationActive }

/-- What the replay loop carries along. -/
structure ReplayState (F : Type) where
  state : TimelineSourceState F
  checkpoints : List (FifoCheckpoint F)
  symbols : OrdMap String Int
  strategies : OrdMap String Int
  nextCheckpoint : Option Int

/-- The symbols and owners of the corrections, at the correction times. -/
def allocationSymbols (allocations : List (AllocationSnapshot F)) : List (String × Int) :=
  allocations.flatMap fun a => a.positions.map fun p => (p.symbol, a.snapshotTsUs)

def allocationStrategies (allocations : List (AllocationSnapshot F)) : List (String × Int) :=
  allocations.flatMap fun a => a.positions.map fun p => (p.strategy, a.snapshotTsUs)

/-- The fill is the first one of a new checkpoint hour. -/
def needsCheckpoint (nextCheckpoint : Option Int) (tsUs : Int) : Bool :=
  nextCheckpoint.any fun ts => decide (ts ≤ tsUs)

/-- Keep the state as of the hour of the fill of index `index`. -/
def ReplayState.checkpoint (replay : ReplayState F) (tsUs : Int) (index : Nat) : ReplayState F :=
  if needsCheckpoint replay.nextCheckpoint tsUs then
    let ts := checkpointHour tsUs
    let state := replay.state.activateSnapshotAt ts
    { replay with
      state
      checkpoints := replay.checkpoints ++ [{ tsUs := ts, nextFill := index, state }]
      nextCheckpoint := some (ts + CHECKPOINT_US) }
  else replay

def replayFill (strategyAllocationActive : Bool) (replay : ReplayState F)
    (fill : PreparedFill F × Nat) : Except NavError (ReplayState F) := do
  let seen := { replay with
    symbols := note replay.symbols fill.1.event.symbol fill.1.fillTsUs
    strategies :=
      note replay.strategies (strategyRow strategyAllocationActive fill.1) fill.1.fillTsUs }
  let seen := seen.checkpoint fill.1.fillTsUs fill.2
  let state ← seen.state.applyFill fill.1
  return { seen with state }

/-- The symbol reports of a state, in symbol order, each market at its latest fill. -/
def reportSymbols (states : OrdMap Market (VenueState F)) : List (SymbolNavReport F) :=
  (symbolBuilders states fun _ => none).toList.map fun p => p.2.finish p.1

def reportTotals (symbols : List (SymbolNavReport F)) : NavTotals F :=
  (symbols.foldl (fun totals symbol => totals.add symbol.totals) NavTotals.zero).cleaned

def sourceReport (source : SourceConfig F) (prepared : PreparedSourceEvents F)
    (initialPositionCount : Nat) (state : TimelineSourceState F) : SourceNavReport F :=
  { sourceId := source.id
    account := source.displayName
    configuredVenue := source.venue
    estimatedFeeRate := state.feeRates.taker
    makerFeeRate := state.feeRates.maker
    takerFeeRate := state.feeRates.taker
    quoteFeeRates := state.feeRates.byQuote
    initialPositionSnapshotTsUs := prepared.snapshotTsUs
    initialPositionCount
    orderEventCount := prepared.orderEventCount
    ignoredAtOrBeforeSnapshotEventCount := prepared.ignoredAtOrBeforeSnapshotEventCount
    ignoredNonFillEventCount := prepared.ignoredNonFillEventCount
    firstFillTsUs := prepared.fillEvents.head?.map PreparedFill.fillTsUs
    lastFillTsUs := prepared.fillEvents.getLast?.map PreparedFill.fillTsUs
    totals := reportTotals (reportSymbols state.states)
    symbols := reportSymbols state.states }

namespace CachedTimelineSource

/-- The state and the report after the last fill. -/
def finish (source : SourceConfig F) (prepared : PreparedSourceEvents F)
    (initialPositionCount : Nat) (replay : ReplayState F) :
    Except NavError (CachedTimelineSource F) := do
  let state ← (replay.state.activateSnapshotAt i64Max).advanceAllocations i64Max true
  return {
    prepared
    checkpoints := replay.checkpoints
    symbols := replay.symbols
    strategies := replay.strategies
    report := sourceReport source prepared initialPositionCount state
    endState := state
    nextCheckpoint := replay.nextCheckpoint }

def replay (source : SourceConfig F) (prepared : PreparedSourceEvents F)
    (initialPositionCount firstFill : Nat) (start : ReplayState F) :
    Except NavError (CachedTimelineSource F) := do
  let start := { start with
    symbols := noteAll start.symbols (allocationSymbols prepared.allocations)
    strategies := noteAll start.strategies (allocationStrategies prepared.allocations) }
  let replay ← ((prepared.fillEvents.drop firstFill).zipIdx firstFill).foldlM
    (replayFill prepared.strategyAllocationActive) start
  finish source prepared initialPositionCount replay

/-- The first checkpoint of a replay: the hour after the snapshot, or after the
first fill when there is no snapshot. -/
def firstCheckpoint (prepared : PreparedSourceEvents F) : Option Int :=
  (prepared.snapshotTsUs.or (prepared.fillEvents.head?.map PreparedFill.fillTsUs)).map
    followingCheckpoint

def build (source : SourceConfig F) (prepared : PreparedSourceEvents F)
    (initialPositionCount : Nat) : Except NavError (CachedTimelineSource F) := do
  let state ← initialTimelineState source prepared
  replay source prepared initialPositionCount 0
    { state, checkpoints := [], symbols := ∅, strategies := ∅,
      nextCheckpoint := firstCheckpoint prepared }

/-! ## Refresh -/

/-- One event of a change: the counters, and the new fills found so far. -/
def changeEvent (source : SourceConfig F) (liquidityByOrder : LiquidityByOrder)
    (state : PreparedSourceEvents F × List (PreparedFill F)) (event : NavEvent F) :
    Except NavError (PreparedSourceEvents F × List (PreparedFill F)) :=
  let (prepared, added) := state
  let prepared := { prepared with orderEventCount := prepared.orderEventCount + 1 }
  if isBeforeSnapshot prepared.snapshotTsUs event then
    .ok ({ prepared with
      ignoredAtOrBeforeSnapshotEventCount :=
        prepared.ignoredAtOrBeforeSnapshotEventCount + 1 }, added)
  else do
    match ← validatedFillSide source event with
    | some side =>
      return (prepared, added ++ [(preparedFill liquidityByOrder event side).attributeInitialPosition
        prepared.strategyAllocationActive prepared.initialStates])
    | none =>
      return ({ prepared with
        ignoredNonFillEventCount := prepared.ignoredNonFillEventCount + 1 }, added)

/-- `earliest_added.into_iter().chain(..).min()`. -/
def earlier : Option Int → Option Int → Option Int
  | some a, some b => some (min a b)
  | some a, none => some a
  | none, b => b

/-- A new fill at or before the last known one may be the first fill of its
market, which an opening price can depend on. -/
def mayChangeReference (cached : CachedTimelineSource F) (earliestAdded : Option Int) : Bool :=
  (earliestAdded.any fun ts =>
    cached.prepared.fillEvents.getLast?.any fun last => decide (ts ≤ last.fillTsUs)) &&
  cached.prepared.initialStates.toList.any fun p =>
    p.2.initialReferencePriceSource == some InitialReferencePriceSource.firstFill

/-- Nothing known changes: the new fills go after the known ones. -/
def refreshAppend (cached : CachedTimelineSource F) (source : SourceConfig F)
    (prepared : PreparedSourceEvents F) (added : List (PreparedFill F))
    (initialPositionCount : Nat) : Except NavError (CachedTimelineSource F) :=
  let oldLen := prepared.fillEvents.length
  let prepared := { prepared with fillEvents := prepared.fillEvents ++ added }
  let nextCheckpoint := cached.nextCheckpoint.or
    ((prepared.fillEvents.head?.map PreparedFill.fillTsUs).map followingCheckpoint)
  replay source prepared initialPositionCount oldLen
    { state := cached.endState, checkpoints := cached.checkpoints, symbols := cached.symbols,
      strategies := cached.strategies, nextCheckpoint }

/-- The fill with the role its order has now. -/
def recomputeLiquidity (liquidityByOrder : LiquidityByOrder) (fill : PreparedFill F) :
    PreparedFill F :=
  { fill with liquidity := liquidityRoleForEvent fill.event liquidityByOrder }

/-- The fills in order, where everything from `firstChangedTs` on may have changed. -/
def changedFills (fills added : List (PreparedFill F)) (liquidityByOrder : LiquidityByOrder)
    (liquidityChanged : Bool) (firstChangedTs : Int) : List (PreparedFill F) :=
  let prefixLen := partitionPoint (fun fill => decide (fill.fillTsUs < firstChangedTs)) fills
  let tail := fills.drop prefixLen
  let tail := if liquidityChanged then tail.map (recomputeLiquidity liquidityByOrder) else tail
  fills.take prefixLen ++ stableSort fillOrder (tail ++ added)

/-- Replay from the last checkpoint that the change leaves valid, or from the
beginning when there is none. -/
def refreshTail (cached : CachedTimelineSource F) (source : SourceConfig F)
    (prepared : PreparedSourceEvents F) (firstChangedTs : Int) (initialPositionCount : Nat) :
    Except NavError (CachedTimelineSource F) :=
  let checkpoints := cached.checkpoints.take
    (partitionPoint (fun cp => decide (cp.tsUs ≤ firstChangedTs)) cached.checkpoints)
  match checkpoints.getLast? with
  | some cp =>
    replay source prepared initialPositionCount cp.nextFill
      { state := cp.state, checkpoints, symbols := before cp.tsUs cached.symbols,
        strategies := before cp.tsUs cached.strategies,
        nextCheckpoint := some (cp.tsUs + CHECKPOINT_US) }
  | none => build source prepared initialPositionCount

/-- No known fill changes its role and the new fills come after the known ones. -/
def appendOnly (prepared : PreparedSourceEvents F) (added : List (PreparedFill F))
    (earliestLiquidityFillTsUs : Option Int) : Bool :=
  earliestLiquidityFillTsUs.isNone && added.head?.all fun first =>
    prepared.fillEvents.getLast?.all fun last => decide (fillOrder last ≤ fillOrder first)

/-- The second half of `refresh`: which way the new fills go in. -/
def refreshFills (cached : CachedTimelineSource F) (source : SourceConfig F)
    (prepared : PreparedSourceEvents F) (added : List (PreparedFill F))
    (liquidityByOrder : LiquidityByOrder) (earliestLiquidityFillTsUs : Option Int)
    (initialPositionCount : Nat) : Except NavError (Option (CachedTimelineSource F)) :=
  let earliestAdded := added.head?.map PreparedFill.fillTsUs
  if cached.mayChangeReference earliestAdded then .ok none
  else if appendOnly prepared added earliestLiquidityFillTsUs then
    (cached.refreshAppend source prepared added initialPositionCount).map some
  else
    match earlier earliestAdded earliestLiquidityFillTsUs with
    | none => .ok none
    | some firstChangedTs =>
      let fillEvents := changedFills prepared.fillEvents added liquidityByOrder
        earliestLiquidityFillTsUs.isSome firstChangedTs
      (cached.refreshTail source { prepared with fillEvents } firstChangedTs
        initialPositionCount).map some

/-- `refresh`: `none` asks for a full rebuild. -/
def refresh (cached : CachedTimelineSource F) (source : SourceConfig F)
    (history : NavSourceHistory F) (initialPositionCount : Nat) :
    Except NavError (Option (CachedTimelineSource F)) :=
  if !cached.prepared.allocations.isEmpty then .ok none
  else
    match history.change with
    | none => .ok none
    | some change => do
      let (prepared, added) ← change.events.foldlM
        (changeEvent source history.liquidityByOrder) (cached.prepared, [])
      cached.refreshFills source prepared (stableSort fillOrder added) history.liquidityByOrder
        change.earliestLiquidityFillTsUs initialPositionCount

end CachedTimelineSource

end CtaManager
