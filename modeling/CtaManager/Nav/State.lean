import CtaManager.Nav.Allocation
import CtaManager.Nav.Ledger

/-!
The replay state of one source, `TimelineSourceState` (`nav.rs`), and what moves
it: the opening snapshot becomes active, a fill is booked on the account ledger
and on the ledger of its strategy, a correction transfers ownership between
strategy ledgers (`nav/allocation.rs`).
-/

namespace CtaManager

open Check

structure PreparedFill (F : Type) where
  event : NavEvent F
  side : Side
  fillTsUs : Int
  liquidity : LiquidityRole
  /-- A system close of a market the account snapshot opened. -/
  initialPositionClose : Bool
  deriving DecidableEq

structure TimelineSourceState (F : Type) where
  allocations : List (AllocationSnapshot F)
  nextAllocation : Nat
  sourceId : String
  feeRates : FeeRates F
  snapshotTsUs : Option Int
  pendingInitialStates : Option (OrdMap Market (VenueState F))
  pendingInitialStrategyStates : Option (OrdMap StrategyMarket (VenueState F))
  states : OrdMap Market (VenueState F)
  strategyStates : OrdMap StrategyMarket (VenueState F)
  latestMarks : OrdMap Market F
  strategyAllocationActive : Bool

variable {F : Type}

namespace PreparedFill

/-- `attribute_initial_position`: without a strategy anchor the system closes of
an opened market belong to one unassigned ledger. -/
def attributeInitialPosition (strategyAllocationActive : Bool)
    (initialStates : OrdMap Market (VenueState F)) (fill : PreparedFill F) : PreparedFill F :=
  { fill with
    initialPositionClose := !strategyAllocationActive &&
      initialStates.contains fill.event.market &&
      isSystemPositionClose (strategyFromFromKey fill.event.fromKeyText) }

def strategy (fill : PreparedFill F) : String :=
  if fill.initialPositionClose then INITIAL_POSITION_STRATEGY
  else strategyFromFromKey fill.event.fromKeyText

end PreparedFill

namespace TimelineSourceState

variable [F64 F]

/-! ## The opening snapshot -/

/-- The snapshot time has come. -/
def snapshotReached (state : TimelineSourceState F) (tsUs : Int) : Bool :=
  state.snapshotTsUs.any fun snapshotTsUs => decide (snapshotTsUs ≤ tsUs)

/-- `latest_marks.extend(..)`: the opening marks. -/
def openingMarks (initialStates : OrdMap Market (VenueState F)) (marks : OrdMap Market F) :
    OrdMap Market F :=
  initialStates.toList.foldl (fun marks p => marks.insert p.1 p.2.latestFillPrice) marks

def activateAccount (state : TimelineSourceState F) : TimelineSourceState F :=
  match state.pendingInitialStates with
  | some initialStates =>
    { state with
      latestMarks := openingMarks initialStates state.latestMarks
      states := initialStates
      pendingInitialStates := none }
  | none => state

def activateStrategies (state : TimelineSourceState F) : TimelineSourceState F :=
  match state.pendingInitialStrategyStates with
  | some initialStates =>
    { state with strategyStates := initialStates, pendingInitialStrategyStates := none }
  | none => state

def activateSnapshotAt (state : TimelineSourceState F) (tsUs : Int) : TimelineSourceState F :=
  if state.snapshotReached tsUs then state.activateAccount.activateStrategies else state

/-! ## Corrections -/

/-- `allocation_quantity`: the signed quantity a strategy holds; the residual
is what the account holds beyond all strategies. -/
def allocationQuantity (state : TimelineSourceState F) (strategy : String) (market : Market) : F :=
  if strategy == UNALLOCATED_STRATEGY then
    (state.states[market]?).elim 0 (fun account => account.fifo.netQuantity) -
      F64.sum ((state.strategyStates.toList.filter fun p => p.1.market == market).map
        fun p => p.2.fifo.netQuantity)
  else
    (state.strategyStates[(⟨strategy, market⟩ : StrategyMarket)]?).elim 0
      fun owner => owner.fifo.netQuantity

/-- The ledger a correction opens for an owner that has none. -/
def transferState (p : AllocationPosition F) : VenueState F :=
  VenueState.fromInitialPosition p.venueCode (venueName p.venueCode) 0 p.referencePrice .configured

/-- Trade the ledger to the target quantity at the mark; an exactly flat target
also removes the arithmetic dust. -/
def transferTo (owner : VenueState F) (afterQty referencePrice : F) : VenueState F :=
  let delta := afterQty - owner.fifo.netQuantity
  let fifo :=
    if delta == 0 then owner.fifo
    else owner.fifo.applyFill (if 0 < delta then Side.buy else Side.sell) referencePrice
      (F64.abs delta)
  let fifo := if afterQty == 0 then { fifo with longs := [], shorts := [] } else fifo
  { owner with fifo }

/-- One leg of a correction.  The residual leg has no ledger of its own. -/
def transferPosition (state : TimelineSourceState F) (p : AllocationPosition F) :
    TimelineSourceState F :=
  if p.strategy == UNALLOCATED_STRATEGY then state
  else
    { state with
      strategyStates := OrdMap.upsert state.strategyStates p.key fun o =>
        transferTo (o.getD (transferState p)) p.afterQty p.referencePrice }

/-- The quantity before a correction still is the audited one. -/
def matchesBefore (state : TimelineSourceState F) (p : AllocationPosition F) : Bool :=
  decide (F64.abs ((state.allocationQuantity p.strategy p.market - p.beforeQty) * p.referencePrice) <
    F64.eps6)

def applyAllocation (state : TimelineSourceState F) (snapshot : AllocationSnapshot F) :
    Except NavError (TimelineSourceState F) := do
  let state := state.activateSnapshotAt snapshot.snapshotTsUs
  snapshot.positions.forM fun p => ensure (state.matchesBefore p)
    (.allocationMismatch state.sourceId snapshot.snapshotTsUs p.strategy p.symbol)
  return snapshot.positions.foldl transferPosition state

/-- The loop of `advance_allocations` over the corrections not applied yet. -/
def advanceLoop (tsUs : Int) (inclusive : Bool) :
    List (AllocationSnapshot F) → TimelineSourceState F →
      Except NavError (TimelineSourceState F)
  | [], state => .ok state
  | snapshot :: rest, state =>
    if tsUs < snapshot.snapshotTsUs ∨ (!inclusive ∧ snapshot.snapshotTsUs = tsUs) then .ok state
    else do
      let state ← state.applyAllocation snapshot
      advanceLoop tsUs inclusive rest { state with nextAllocation := state.nextAllocation + 1 }

def advanceAllocations (state : TimelineSourceState F) (tsUs : Int) (inclusive : Bool) :
    Except NavError (TimelineSourceState F) :=
  advanceLoop tsUs inclusive (state.allocations.drop state.nextAllocation) state

/-! ## Fills -/

/-- The strategy ledger a fill is booked on; a system close under an active
strategy anchor stays in the residual. -/
def fillOwner (strategyAllocationActive : Bool) (fill : PreparedFill F) : Option StrategyMarket :=
  if strategyAllocationActive && isSystemPositionClose fill.strategy then none
  else some ⟨fill.strategy, fill.event.market⟩

/-- The ledger after a fill, opened by the fill if there was none. -/
def bookOn (feeRates : FeeRates F) (fill : PreparedFill F) (ledger : Option (VenueState F)) :
    Except NavError (VenueState F) :=
  (ledger.getD (VenueState.new fill.event)).applyFill fill.event fill.side feeRates fill.liquidity
    fill.fillTsUs

def bookAccount (state : TimelineSourceState F) (fill : PreparedFill F) :
    Except NavError (TimelineSourceState F) := do
  let account ← bookOn state.feeRates fill state.states[fill.event.market]?
  return { state with states := state.states.insert fill.event.market account }

def bookStrategy (state : TimelineSourceState F) (fill : PreparedFill F) :
    Except NavError (TimelineSourceState F) :=
  match fillOwner state.strategyAllocationActive fill with
  | none => .ok state
  | some owner => do
    let ledger ← bookOn state.feeRates fill state.strategyStates[owner]?
    return { state with strategyStates := state.strategyStates.insert owner ledger }

/-- Book a fill once corrections and snapshot are up to date. -/
def bookFill (state : TimelineSourceState F) (fill : PreparedFill F) :
    Except NavError (TimelineSourceState F) := do
  let state ← state.bookAccount fill
  let state ← state.bookStrategy fill
  return { state with latestMarks := state.latestMarks.insert fill.event.market fill.event.price }

def applyFill (state : TimelineSourceState F) (fill : PreparedFill F) :
    Except NavError (TimelineSourceState F) := do
  let state ← state.advanceAllocations fill.fillTsUs false
  (state.activateSnapshotAt fill.fillTsUs).bookFill fill

end TimelineSourceState

end CtaManager
