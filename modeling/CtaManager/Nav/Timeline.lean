import CtaManager.Nav.Cache
import CtaManager.Nav.Totals

/-!
The NAV timeline of a window (`rebuild_nav_timeline_with_cache` in `nav.rs`).

Every selected source contributes a replay state and the events up to the end of
the window; a cached source contributes the state of a checkpoint and the events
after it.  The events before the window give the baseline, the rest is applied
with a sample at every tick.
-/

namespace CtaManager

open Check StableSort PartitionPoint

structure NavTimelineRequest where
  startTsUs : Option Int
  endTsUs : Int
  selectedSourceIds : List String
  selectedSymbols : List String
  maxPoints : Nat
  tickIntervalUs : Option Int

structure NavTimelinePoint (F : Type) where
  tsUs : Int
  grossPositionValueQuote : F
  netPositionValueQuote : F
  totals : NavTotals F

structure SymbolNavTimeline (F : Type) where
  symbol : String
  points : List (NavTimelinePoint F)

structure StrategyNavTimeline (F : Type) where
  strategy : String
  symbolCount : Nat
  grossPositionValueQuote : F
  netPositionValueQuote : F
  summary : NavTotals F
  points : List (NavTimelinePoint F)

structure NavTimelineReport (F : Type) where
  valuation : String
  earliestStartTsUs : Int
  startTsUs : Int
  endTsUs : Int
  selectedSourceIds : List String
  availableSymbols : List String
  selectedSymbols : List String
  availableStrategies : List String
  summary : NavTotals F
  symbols : List (AggregateSymbolNavReport F)
  points : List (NavTimelinePoint F)
  symbolPoints : List (SymbolNavTimeline F)
  strategyPoints : List (StrategyNavTimeline F)
  sampled : Bool

variable {F : Type}

def NAV_TICK_INTERVAL_US : Int := 900000000

/-! ## Minute marks -/

def MINUTE_US : Int := 60000000

def MINUTE_VALUATION : String := "quantity_fifo_closed_1m_window_delta"

def WINDOW_VALUATION : String := "quantity_fifo_window_delta"

/-- `MinuteMarks`: loaded closing prices by market and minute, or the dry run
that only records which minutes are asked for. -/
inductive MinuteMarks (F : Type)
  | collect
  | loaded (prices : OrdMap Market (OrdMap Int F))

/-- The last minute that is complete at `ts`. -/
def minuteOpen (tsUs : Int) : Int := tsUs / MINUTE_US * MINUTE_US - MINUTE_US

/-- The minute prices of a venue are known. -/
def isMinuteVenue (venueCode : Int) : Bool := decide (0 ≤ venueCode ∧ venueCode ≤ 3)

def MinuteMarks.price (marks : MinuteMarks F) (market : Market) (tsUs : Int) :
    Except NavError (Option F) := do
  ensure (isMinuteVenue market.venueCode) .minuteVenueUnsupported
  match marks with
  | .collect => return none
  | .loaded prices =>
    match (prices[market]?).bind fun (bars : OrdMap Int F) => bars[minuteOpen tsUs]? with
    | some price => return some price
    | none => throw (.minutePriceMissing market.symbol tsUs)

variable [F64 F]

namespace TimelineSourceState

/-- The ledger holds a position. -/
def isOpen (state : VenueState F) : Bool :=
  decide (F64.eps12 < F64.abs (state.fifo.longQuantity 1)) ||
    decide (F64.eps12 < F64.abs (state.fifo.shortQuantity 1))

/-- The markets to mark: an account or a strategy ledger of them is open. -/
def openMarkets (runtime : TimelineSourceState F) (symbols : OrdSet String) : OrdSet Market :=
  let account : OrdSet Market := runtime.states.toList.foldl (fun markets p =>
    if symbols.contains p.1.symbol && isOpen p.2 then markets.insert p.1 else markets) ∅
  runtime.strategyStates.toList.foldl (fun markets p =>
    if symbols.contains p.1.market.symbol && isOpen p.2 then markets.insert p.1.market
    else markets) account

def markMarket (prices : MinuteMarks F) (tsUs : Int) (runtime : TimelineSourceState F)
    (market : Market) : Except NavError (TimelineSourceState F) := do
  match ← prices.price market tsUs with
  | some price => return { runtime with latestMarks := runtime.latestMarks.insert market price }
  | none => return runtime

/-- `minute_marks::apply` on one source. -/
def applyMinuteMarks (prices : Option (MinuteMarks F)) (symbols : OrdSet String) (tsUs : Int)
    (runtime : TimelineSourceState F) : Except NavError (TimelineSourceState F) :=
  match prices with
  | none => .ok runtime
  | some prices =>
    (runtime.openMarkets symbols).toList.foldlM (markMarket prices tsUs) runtime

end TimelineSourceState

/-! ## Events -/

inductive TimelineEvent (F : Type)
  | snapshot (sourceIndex : Nat) (sourceId : String) (tsUs : Int)
  | fill (sourceIndex : Nat) (sourceId : String) (fill : PreparedFill F)

namespace TimelineEvent

def tsUs : TimelineEvent F → Int
  | snapshot _ _ tsUs => tsUs
  | fill _ _ prepared => prepared.fillTsUs

def sourceIndex : TimelineEvent F → Nat
  | snapshot sourceIndex _ _ | fill sourceIndex _ _ => sourceIndex

def sourceId : TimelineEvent F → String
  | snapshot _ sourceId _ | fill _ sourceId _ => sourceId

def rank : TimelineEvent F → Nat
  | snapshot .. => 0
  | fill .. => 1

/-- `record_tie_breaker`, event time first, as the sort compares it. -/
def recordTieBreaker : TimelineEvent F → Int ×ₗ String
  | snapshot .. => toLex (-i64Max - 1, "")
  | fill _ _ prepared => toLex (prepared.event.eventTsUs, prepared.event.recordKey)

/-- The order in which the events of all sources are applied. -/
def order (event : TimelineEvent F) : Int ×ₗ Nat ×ₗ String ×ₗ Int ×ₗ String :=
  toLex (event.tsUs, toLex (event.rank, toLex (event.sourceId, event.recordTieBreaker)))

/-- `apply_timeline_event` on the source of the event. -/
def applyTo (runtime : TimelineSourceState F) (event : TimelineEvent F) :
    Except NavError (TimelineSourceState F) :=
  match event with
  | snapshot _ _ tsUs => .ok (runtime.activateSnapshotAt tsUs)
  | fill _ _ prepared => runtime.applyFill prepared

end TimelineEvent

/-- `apply_timeline_event`. -/
def applyTimelineEvent (runtimes : List (TimelineSourceState F)) (event : TimelineEvent F) :
    Except NavError (List (TimelineSourceState F)) :=
  modifyM (fun runtime => event.applyTo runtime) event.sourceIndex runtimes

/-! ## Sources -/

/-- What the sources selected so far contribute. -/
structure TimelineSources (F : Type) where
  runtimes : List (TimelineSourceState F)
  events : List (TimelineEvent F)
  availableSymbols : OrdSet String
  availableStrategies : OrdSet String
  anchors : List Int

def insertAll (set : OrdSet String) (names : List String) : OrdSet String :=
  names.foldl (fun set name => set.insert name) set

/-- The names first seen by `endTsUs`. -/
def seenBy (names : OrdMap String Int) (endTsUs : Int) : List String :=
  (names.toList.filter fun p => decide (p.2 ≤ endTsUs)).map Prod.fst

/-- The last checkpoint at or before the requested start. -/
def startCheckpoint (cached : CachedTimelineSource F) (startTsUs : Option Int) :
    Option (FifoCheckpoint F) :=
  startTsUs.bind fun start =>
    (cached.checkpoints.take
      (partitionPoint (fun cp => decide (cp.tsUs ≤ start)) cached.checkpoints)).getLast?

/-- The fills from `firstFill` on that are not after the end of the window. -/
def windowFills (fills : List (PreparedFill F)) (firstFill : Nat) (endTsUs : Int) :
    List (PreparedFill F) :=
  let lastFill := partitionPoint (fun fill => decide (fill.fillTsUs ≤ endTsUs)) fills
  (fills.drop (min firstFill lastFill)).take (lastFill - firstFill)

/-- The prepared events of a source: the cached ones, or new ones. -/
def preparedFor [Fingerprint F] (source : SourceConfig F) (history : NavSourceHistory F)
    (snapshot : Option (PositionSnapshot F))
    (strategySnapshot : Option (StrategyPositionSnapshot F))
    (cachedSource : Option (CachedTimelineSource F)) : Except NavError (PreparedSourceEvents F) :=
  match cachedSource with
  | some cached => .ok cached.prepared
  | none => prepareSourceEvents source history.events snapshot strategySnapshot
      history.liquidityByOrder history.allocations

/-- The earliest moment of a source in the window: its snapshot, or its first fill. -/
def sourceAnchor (prepared : PreparedSourceEvents F) (endTsUs : Int) : Option Int :=
  (prepared.snapshotTsUs.filter fun ts => decide (ts ≤ endTsUs)).or
    ((prepared.fillEvents.find? fun fill => decide (fill.fillTsUs ≤ endTsUs)).map
      PreparedFill.fillTsUs)

/-- The opening snapshot, when it is in the window's past or present. -/
def openingSnapshot (prepared : PreparedSourceEvents F) (endTsUs : Int) : Option Int :=
  prepared.snapshotTsUs.filter fun ts => decide (ts ≤ endTsUs)

def correctionsBy (prepared : PreparedSourceEvents F) (endTsUs : Int) :
    List (AllocationPosition F) :=
  (prepared.allocations.filter fun a => decide (a.snapshotTsUs ≤ endTsUs)).flatMap
    AllocationSnapshot.positions

def openingSymbols (prepared : PreparedSourceEvents F) (endTsUs : Int) : List String :=
  if (openingSnapshot prepared endTsUs).isSome then
    prepared.initialStates.toList.map (fun p => p.1.symbol) ++
      prepared.initialStrategyStates.toList.map (fun p => p.1.market.symbol)
  else []

def openingStrategies (prepared : PreparedSourceEvents F) (endTsUs : Int) : List String :=
  if (openingSnapshot prepared endTsUs).isSome then
    prepared.initialStrategyStates.toList.map fun p => p.1.strategy
  else []

/-- The source `source` with its prepared events joins: `runtime` is the state to
go on from, `fills` the fills still to come, `seenSymbols` and `seenStrategies`
the names a cached source knows of by the end. -/
def TimelineSources.add (sources : TimelineSources F) (request : NavTimelineRequest)
    (sourceId : String) (prepared : PreparedSourceEvents F) (runtime : TimelineSourceState F)
    (fills : List (PreparedFill F)) (seenSymbols seenStrategies : List String) :
    TimelineSources F :=
  let active := prepared.strategyAllocationActive
  let sourceIndex := sources.runtimes.length
  let corrections := correctionsBy prepared request.endTsUs
  { runtimes := sources.runtimes ++ [runtime]
    events := sources.events ++
      ((openingSnapshot prepared request.endTsUs).toList.map
          (TimelineEvent.snapshot sourceIndex sourceId) ++
        fills.map (TimelineEvent.fill sourceIndex sourceId))
    availableSymbols := insertAll sources.availableSymbols
      (openingSymbols prepared request.endTsUs ++ corrections.map AllocationPosition.symbol ++
        seenSymbols ++ fills.map fun fill => fill.event.symbol)
    availableStrategies := insertAll sources.availableStrategies
      (openingStrategies prepared request.endTsUs ++ corrections.map AllocationPosition.strategy ++
        (if active then [UNALLOCATED_STRATEGY] else []) ++ seenStrategies ++
        fills.map (strategyRow active))
    anchors := sources.anchors ++ (sourceAnchor prepared request.endTsUs).toList }

/-- One selected source: the body of the loop over `selected`. -/
def addSource [Fingerprint F] (request : NavTimelineRequest)
    (snapshots : SourcePositionSnapshots F) (strategySnapshots : SourceStrategyPositionSnapshots F)
    (histories : NavSourceHistories F) (cached : Option (NavTimelineCache F × Bool))
    (sources : TimelineSources F) (source : SourceConfig F) :
    Except NavError (TimelineSources F) := do
  let _ ← source.navFeeRates
  let some history := histories[source.id]? | throw (.missingHistory source.id)
  let cachedSource := cached.bind fun (cache, allocation) =>
    cache.sources[(⟨source.id, allocation⟩ : SourceKey)]?
  let prepared ← preparedFor source history snapshots[source.id]? strategySnapshots[source.id]?
    cachedSource
  let checkpoint := cachedSource.bind fun cached => startCheckpoint cached request.startTsUs
  let fills := windowFills prepared.fillEvents ((checkpoint.map FifoCheckpoint.nextFill).getD 0)
    request.endTsUs
  let seenSymbols := (cachedSource.map fun cached => seenBy cached.symbols request.endTsUs).getD []
  let seenStrategies :=
    (cachedSource.map fun cached => seenBy cached.strategies request.endTsUs).getD []
  let runtime ← match checkpoint with
    | some cp => .ok cp.state
    | none => initialTimelineState source prepared
  return sources.add request source.id prepared runtime fills seenSymbols seenStrategies

/-! ## Samples -/

/-- What stays fixed while the window is replayed. -/
structure TimelineView (F : Type) where
  baselines : OrdMap String (NavTotals F)
  strategyBaselines : OrdMap StrategySymbol (NavTotals F)
  selectedSymbols : List String
  availableStrategies : List String
  prices : Option (MinuteMarks F)
  endTsUs : Int
  tickIntervalUs : Int

/-- What the replay of the window carries along. -/
structure TimelineRun (F : Type) where
  runtimes : List (TimelineSourceState F)
  points : List (NavTimelinePoint F)
  pointsBySymbol : OrdMap String (List (NavTimelinePoint F))
  pointsByStrategy : OrdMap String (List (NavTimelinePoint F))
  nextTickTsUs : Int

/-- A second sample at one time replaces the first. -/
def pushOrReplace (points : List (NavTimelinePoint F)) (point : NavTimelinePoint F) :
    List (NavTimelinePoint F) :=
  match points.getLast? with
  | some last => if last.tsUs = point.tsUs then points.dropLast ++ [point] else points ++ [point]
  | none => [point]

/-- The window total of a symbol. -/
def symbolDelta (view : TimelineView F) (current : OrdMap String (NavTotals F)) (symbol : String) :
    NavTotals F :=
  ((current[symbol]?).getD NavTotals.zero).difference
    ((view.baselines[symbol]?).getD NavTotals.zero)

/-- The window total of a strategy on one symbol. -/
def strategyDelta (view : TimelineView F) (current : OrdMap StrategySymbol (NavTotals F))
    (strategy symbol : String) : NavTotals F :=
  ((current[(⟨strategy, symbol⟩ : StrategySymbol)]?).getD NavTotals.zero).difference
    ((view.strategyBaselines[(⟨strategy, symbol⟩ : StrategySymbol)]?).getD NavTotals.zero)

def strategyWindowTotals (view : TimelineView F) (current : OrdMap StrategySymbol (NavTotals F))
    (strategy : String) : NavTotals F :=
  (view.selectedSymbols.foldl (fun totals symbol =>
    totals.add (strategyDelta view current strategy symbol)) NavTotals.zero).cleaned

def pushTimelineSample (view : TimelineView F) (tsUs : Int) (run : TimelineRun F) :
    Except NavError (TimelineRun F) := do
  let runtimes ← run.runtimes.mapM fun runtime =>
    runtime.advanceAllocations tsUs (!run.points.isEmpty)
  let runtimes ← runtimes.mapM
    (TimelineSourceState.applyMinuteMarks view.prices (insertAll ∅ view.selectedSymbols) tsUs)
  let currentBySymbol := TimelineSourceState.timelineTotalsBySymbol runtimes
  let currentByStrategySymbol := TimelineSourceState.timelineTotalsByStrategySymbol runtimes
  let valuesBySymbol := TimelineSourceState.timelinePositionValuesBySymbol runtimes
  let values := TimelineSourceState.timelinePositionValues runtimes view.selectedSymbols
  let portfolio := view.selectedSymbols.foldl (fun totals symbol =>
    totals.add (symbolDelta view currentBySymbol symbol)) NavTotals.zero
  return { run with
    runtimes
    points := pushOrReplace run.points
      { tsUs, grossPositionValueQuote := values.1, netPositionValueQuote := values.2,
        totals := portfolio.cleaned }
    pointsBySymbol := run.pointsBySymbol.map fun symbol points =>
      let values := (valuesBySymbol[symbol]?).getD (0, 0)
      pushOrReplace points
        { tsUs, grossPositionValueQuote := values.1, netPositionValueQuote := values.2,
          totals := symbolDelta view currentBySymbol symbol }
    pointsByStrategy := run.pointsByStrategy.map fun strategy points =>
      pushOrReplace points
        { tsUs, grossPositionValueQuote := 0, netPositionValueQuote := 0,
          totals := strategyWindowTotals view currentByStrategySymbol strategy } }

/-! ## The window -/

/-- The sample of the next tick, and the tick after it. -/
def pushTick (view : TimelineView F) (run : TimelineRun F) : Except NavError (TimelineRun F) := do
  let run ← pushTimelineSample view run.nextTickTsUs run
  return { run with nextTickTsUs := run.nextTickTsUs + view.tickIntervalUs }

/-- The ticks before `boundTsUs` and before the end.  Ticks advance by at least
one, so the distance to the bound is enough rounds. -/
def pushTicksLoop (view : TimelineView F) (boundTsUs : Int) :
    Nat → TimelineRun F → Except NavError (TimelineRun F)
  | 0, run => .ok run
  | rounds + 1, run =>
    if run.nextTickTsUs < boundTsUs ∧ run.nextTickTsUs < view.endTsUs then do
      let run ← pushTick view run
      pushTicksLoop view boundTsUs rounds run
    else .ok run

def pushTicksBefore (view : TimelineView F) (boundTsUs : Int) (run : TimelineRun F) :
    Except NavError (TimelineRun F) :=
  pushTicksLoop view boundTsUs (boundTsUs - run.nextTickTsUs).toNat run

/-- The tick that falls on a moment whose events have all been applied. -/
def pushTickAt (view : TimelineView F) (tsUs : Int) (run : TimelineRun F) :
    Except NavError (TimelineRun F) :=
  if run.nextTickTsUs = tsUs ∧ run.nextTickTsUs ≤ view.endTsUs then pushTick view run else .ok run

/-- The events of the window.  Events of one moment follow each other without a
sample in between: the ticks before the moment come before its first event (and
there are none left before the others), a tick on it after its last. -/
def applyWindow (view : TimelineView F) :
    List (TimelineEvent F) → TimelineRun F → Except NavError (TimelineRun F)
  | [], run => .ok run
  | event :: rest, run =>
    if view.endTsUs < event.tsUs then .ok run
    else do
      let run ← pushTicksBefore view event.tsUs run
      let runtimes ← applyTimelineEvent run.runtimes event
      let run := { run with runtimes }
      let run ← if rest.head?.any (fun next => next.tsUs = event.tsUs) then .ok run
        else pushTickAt view event.tsUs run
      applyWindow view rest run

def nextTimelineTick (tsUs intervalUs : Int) : Int := (tsUs / intervalUs + 1) * intervalUs

/-! ## Downsampling -/

/-- `min_by`: the first of the least elements. -/
def minBy (value : NavTimelinePoint F → F) : List (NavTimelinePoint F) → Option (NavTimelinePoint F)
  | [] => none
  | point :: rest =>
    some (rest.foldl (fun least point => if value point < value least then point else least) point)

/-- `max_by`: the last of the greatest elements. -/
def maxBy (value : NavTimelinePoint F → F) : List (NavTimelinePoint F) → Option (NavTimelinePoint F)
  | [] => none
  | point :: rest =>
    some (rest.foldl (fun greatest point =>
      if value point < value greatest then greatest else point) point)

def valueSelectors : List (NavTimelinePoint F → F) :=
  [fun point => point.totals.navChangeBeforeFeeQuote,
    fun point => point.totals.navChangeAfterFeeQuote,
    fun point => point.totals.realizedPnlBeforeFeeQuote,
    fun point => point.totals.floatingPnlQuote,
    fun point => point.grossPositionValueQuote,
    fun point => point.netPositionValueQuote]

/-- `dedup_by_key`: of neighbours with one time the first stays. -/
def dedupByTs : List (NavTimelinePoint F) → List (NavTimelinePoint F)
  | [] => []
  | point :: rest =>
    match dedupByTs rest with
    | [] => [point]
    | next :: kept => if next.tsUs = point.tsUs then point :: kept else point :: next :: kept

/-- The extreme points of a bucket, in time order. -/
def bucketExtrema (bucket : List (NavTimelinePoint F)) : List (NavTimelinePoint F) :=
  dedupByTs (stableSort NavTimelinePoint.tsUs (valueSelectors.flatMap fun value =>
    (minBy value bucket).toList ++ (maxBy value bucket).toList))

def downsampleTimelinePoints (points : List (NavTimelinePoint F)) (maxPoints : Nat) :
    List (NavTimelinePoint F) :=
  if points.length ≤ maxPoints ∨ maxPoints < 10 then points
  else
    let interior := (points.drop 1).dropLast
    let bucketCount := max ((maxPoints - 2) / 12) 1
    let bucketSize := (interior.length + bucketCount - 1) / bucketCount
    points.take 1 ++ (interior.toChunks bucketSize).flatMap bucketExtrema ++
      points.getLast?.toList

/-! ## The report -/

def selectTimelineSymbols (availableSymbols : List String) (requestedSymbols : List String) :
    Except NavError (List String) :=
  let requested := ((requestedSymbols.map fun symbol => Text.toAsciiUppercase (Text.trim symbol)).filter
    fun symbol => !symbol.isEmpty)
  let requested : OrdSet String := insertAll ∅ requested
  if requested.isEmpty then .ok availableSymbols
  else
    let selected := requested.toList.filter fun symbol => availableSymbols.contains symbol
    if selected.isEmpty && !availableSymbols.isEmpty then .error .noRequestedSymbol
    else .ok selected

def NavTimelineRequest.resolvedStartTsUs (request : NavTimelineRequest) (earliest : Option Int) :
    Int :=
  match earliest with
  | some earliest => max (request.startTsUs.getD earliest) earliest
  | none => request.startTsUs.getD request.endTsUs

/-- A reserved row that nothing was booked on. -/
def isEmptyVirtual (timeline : StrategyNavTimeline F) : Bool :=
  (timeline.strategy == UNALLOCATED_STRATEGY || timeline.strategy == INITIAL_POSITION_STRATEGY ||
    isSystemPositionClose timeline.strategy) &&
    timeline.grossPositionValueQuote == 0 && timeline.summary == NavTotals.zero &&
    timeline.points.all fun point =>
      point.grossPositionValueQuote == 0 && point.totals == NavTotals.zero

/-- The symbol reports with their window totals. -/
def windowSymbols (view : TimelineView F) (runtimes : List (TimelineSourceState F)) :
    List (AggregateSymbolNavReport F) :=
  let currentTotals := TimelineSourceState.timelineTotalsBySymbol runtimes
  let symbols := (TimelineSourceState.timelineSymbolReports runtimes).filter fun symbol =>
    view.prices.isNone || view.selectedSymbols.contains symbol.symbol
  symbols.map fun symbol => { symbol with totals := symbolDelta view currentTotals symbol.symbol }

def windowSummary (view : TimelineView F) (symbols : List (AggregateSymbolNavReport F)) :
    NavTotals F :=
  ((symbols.filter fun symbol => view.selectedSymbols.contains symbol.symbol).foldl
    (fun totals symbol => totals.add symbol.totals) NavTotals.zero).cleaned

/-- The points of a row, thinned out. -/
def rowPoints (points : OrdMap String (List (NavTimelinePoint F))) (maxPoints : Nat)
    (name : String) : List (NavTimelinePoint F) :=
  downsampleTimelinePoints ((points[name]?).getD []) (min (max maxPoints 100) 800)

def strategyTimeline (view : TimelineView F) (maxPoints : Nat) (run : TimelineRun F)
    (strategy : String) : StrategyNavTimeline F :=
  let points := rowPoints run.pointsByStrategy maxPoints strategy
  let values := TimelineSourceState.timelineStrategyPositionValues strategy run.runtimes
    view.selectedSymbols
  { strategy
    symbolCount := values.1
    grossPositionValueQuote := values.2.1
    netPositionValueQuote := values.2.2
    summary := (points.getLast?.map NavTimelinePoint.totals).getD NavTotals.zero
    points }

/-- Some row lost points to downsampling. -/
def isSampled (maxPoints : Nat) (run : TimelineRun F) (view : TimelineView F) : Bool :=
  decide ((downsampleTimelinePoints run.points (max maxPoints 2)).length < run.points.length) ||
    view.selectedSymbols.any (fun symbol => decide
      ((rowPoints run.pointsBySymbol maxPoints symbol).length <
        ((run.pointsBySymbol[symbol]?).getD []).length)) ||
    view.availableStrategies.any (fun strategy => decide
      ((rowPoints run.pointsByStrategy maxPoints strategy).length <
        ((run.pointsByStrategy[strategy]?).getD []).length))

def timelineReport (request : NavTimelineRequest) (selectedSourceIds : List String)
    (earliestStartTsUs startTsUs : Int) (availableSymbols : List String) (view : TimelineView F)
    (run : TimelineRun F) : NavTimelineReport F :=
  let symbols := windowSymbols view run.runtimes
  let strategyPoints := view.availableStrategies.map (strategyTimeline view request.maxPoints run)
  let emptyVirtual := (strategyPoints.filter isEmptyVirtual).map StrategyNavTimeline.strategy
  { valuation := if view.prices.isSome then MINUTE_VALUATION else WINDOW_VALUATION
    earliestStartTsUs
    startTsUs
    endTsUs := request.endTsUs
    selectedSourceIds
    availableSymbols
    selectedSymbols := view.selectedSymbols
    availableStrategies := view.availableStrategies.filter fun strategy =>
      !emptyVirtual.contains strategy
    summary := windowSummary view symbols
    symbols
    points := downsampleTimelinePoints run.points (max request.maxPoints 2)
    symbolPoints := view.selectedSymbols.map fun symbol =>
      { symbol, points := rowPoints run.pointsBySymbol request.maxPoints symbol }
    strategyPoints := strategyPoints.filter fun timeline =>
      !emptyVirtual.contains timeline.strategy
    sampled := isSampled request.maxPoints run view }

/-- No points yet for these names. -/
def noPoints (names : List String) : OrdMap String (List (NavTimelinePoint F)) :=
  names.foldl (fun points name => points.insert name []) ∅

/-- Replay the window, from the states at its start. -/
def runWindow (view : TimelineView F) (startTsUs : Int) (events : List (TimelineEvent F))
    (runtimes : List (TimelineSourceState F)) : Except NavError (TimelineRun F) := do
  let run : TimelineRun F :=
    { runtimes, points := [], pointsBySymbol := noPoints view.selectedSymbols,
      pointsByStrategy := noPoints view.availableStrategies, nextTickTsUs := 0 }
  let run ← pushTimelineSample view startTsUs run
  ensure (decide (0 < view.tickIntervalUs)) .invalidTickInterval
  let run := { run with nextTickTsUs := nextTimelineTick startTsUs view.tickIntervalUs }
  let run ← applyWindow view events run
  let run ← pushTicksBefore view view.endTsUs run
  let runtimes ← run.runtimes.mapM fun runtime =>
    (runtime.activateSnapshotAt view.endTsUs).advanceAllocations view.endTsUs true
  pushTimelineSample view view.endTsUs { run with runtimes }

/-- The states of the sources at the start of the window. -/
def startStates (startTsUs : Int) (events : List (TimelineEvent F))
    (runtimes : List (TimelineSourceState F)) : Except NavError (List (TimelineSourceState F)) := do
  let runtimes := runtimes.map fun runtime => runtime.activateSnapshotAt startTsUs
  let runtimes ← events.foldlM applyTimelineEvent runtimes
  runtimes.mapM fun runtime => runtime.advanceAllocations startTsUs false

def rebuildNavTimelineWithCache [Fingerprint F] (config : AppConfig F)
    (request : NavTimelineRequest) (snapshots : SourcePositionSnapshots F)
    (strategySnapshots : SourceStrategyPositionSnapshots F) (histories : NavSourceHistories F)
    (cached : Option (NavTimelineCache F × Bool)) (prices : Option (MinuteMarks F)) :
    Except NavError (NavTimelineReport F) := do
  ensure (decide (0 ≤ request.endTsUs)) .negativeEnd
  let selected ← selectSources config request.selectedSourceIds
  let selectedSourceIds := selected.map SourceConfig.id
  snapshots.toList.forM fun p =>
    ensure (selectedSourceIds.contains p.1) (.unselectedSnapshot p.1)
  strategySnapshots.toList.forM fun p =>
    ensure (selectedSourceIds.contains p.1) (.unselectedStrategySnapshot p.1)
  let sources ← selected.foldlM
    (addSource request snapshots strategySnapshots histories cached)
    { runtimes := [], events := [], availableSymbols := ∅, availableStrategies := ∅, anchors := [] }
  let earliest := sources.anchors.min?
  let startTsUs := request.resolvedStartTsUs earliest
  ensure (decide (startTsUs ≤ request.endTsUs)) .endBeforeStart
  let availableSymbols := sources.availableSymbols.toList
  let selectedSymbols ← selectTimelineSymbols availableSymbols request.selectedSymbols
  let events := stableSort TimelineEvent.order sources.events
  let split := partitionPoint (fun event => decide (event.tsUs < startTsUs)) events
  let runtimes ← startStates startTsUs (events.take split) sources.runtimes
  let runtimes ← runtimes.mapM
    (TimelineSourceState.applyMinuteMarks prices (insertAll ∅ selectedSymbols) startTsUs)
  let view : TimelineView F :=
    { baselines := TimelineSourceState.timelineTotalsBySymbol runtimes
      strategyBaselines := TimelineSourceState.timelineTotalsByStrategySymbol runtimes
      selectedSymbols
      availableStrategies := sources.availableStrategies.toList
      prices
      endTsUs := request.endTsUs
      tickIntervalUs := request.tickIntervalUs.getD NAV_TICK_INTERVAL_US }
  let run ← runWindow view startTsUs (events.drop split) runtimes
  return timelineReport request selectedSourceIds (earliest.getD startTsUs) startTsUs
    availableSymbols view run

/-! ## Queries on a cache -/

/-- `sort` and `dedup`. -/
def sortedNames (names : List String) : List String := (insertAll ∅ names).toList

namespace NavTimelineCache

/-- The request is about the source: an empty selection is every source. -/
def requests (request : NavTimelineRequest) (sourceId : String) : Bool :=
  request.selectedSourceIds.isEmpty || request.selectedSourceIds.contains sourceId

def requestedSnapshots (cache : NavTimelineCache F) (request : NavTimelineRequest) :
    SourcePositionSnapshots F :=
  cache.snapshots.filter fun sourceId _ => requests request sourceId

/-- Without strategy allocation no anchor takes part. -/
def requestedStrategySnapshots (cache : NavTimelineCache F) (request : NavTimelineRequest)
    (strategyAllocation : Bool) : SourceStrategyPositionSnapshots F :=
  if strategyAllocation then
    cache.strategySnapshots.filter fun sourceId _ => requests request sourceId
  else ∅

/-- `rebuild_with_prices`. -/
def rebuildWithPrices [Fingerprint F] (cache : NavTimelineCache F) (request : NavTimelineRequest)
    (strategyAllocation : Bool) (prices : Option (MinuteMarks F)) :
    Except NavError (NavTimelineReport F) :=
  let request := { request with
    selectedSourceIds := sortedNames request.selectedSourceIds
    selectedSymbols := sortedNames request.selectedSymbols }
  rebuildNavTimelineWithCache cache.config request (cache.requestedSnapshots request)
    (cache.requestedStrategySnapshots request strategyAllocation) cache.histories
    (some (cache, strategyAllocation)) prices

end NavTimelineCache

end CtaManager
