import CtaManager.Nav.Types

/-!
Audited ownership corrections (`nav/allocation.rs`): their data, the checks a
correction passes before it is used, and `resolve`, which replaces the `before`
quantities of the corrections that a stored amendment restates.
-/

namespace CtaManager

open Check

structure AllocationPosition (F : Type) where
  strategy : String
  symbol : String
  venueCode : Int
  beforeQty : F
  afterQty : F
  referencePrice : F
  deriving BEq, DecidableEq

structure AllocationQuantity (F : Type) where
  strategy : String
  symbol : String
  venueCode : Int
  quantity : F
  deriving DecidableEq

structure AllocationRestatement (F : Type) where
  snapshotTsUs : Int
  originalPositionsSha256 : String
  before : List (AllocationQuantity F)
  deriving DecidableEq

structure AllocationSnapshot (F : Type) where
  sourceId : String
  snapshotTsUs : Int
  positions : List (AllocationPosition F)
  /-- New preconditions of later corrections. -/
  restatements : List (AllocationRestatement F)
  deriving DecidableEq

structure OwnershipObservation (F : Type) where
  snapshotTsUs : Int
  positions : List (AllocationQuantity F)
  deriving DecidableEq

/-- `positions_fingerprint`: the SHA-256 of the serialized positions, as hex
digits.  The hash and the serializer are libraries, so the function is a
parameter. -/
class Fingerprint (F : Type) where
  positionsFingerprint : List (AllocationPosition F) → String

/-- `(source_id, snapshot_ts_us)`, the identity of a stored correction. -/
structure AllocationKey where
  sourceId : String
  snapshotTsUs : Int
  deriving DecidableEq, Repr

instance : LinearOrder AllocationKey :=
  LinearOrder.lift' (fun k => toLex (k.sourceId, k.snapshotTsUs)) (by
    rintro ⟨a, b⟩ ⟨c, d⟩ h
    simpa using h)

variable {F : Type}

def AllocationPosition.market (p : AllocationPosition F) : Market := ⟨p.symbol, p.venueCode⟩

def AllocationPosition.key (p : AllocationPosition F) : StrategyMarket := ⟨p.strategy, p.market⟩

def AllocationQuantity.market (p : AllocationQuantity F) : Market := ⟨p.symbol, p.venueCode⟩

def AllocationQuantity.key (p : AllocationQuantity F) : StrategyMarket := ⟨p.strategy, p.market⟩

/-- The position as a quantity at its `before`, the form a restatement stores. -/
def AllocationPosition.beforeQuantity (p : AllocationPosition F) : AllocationQuantity F :=
  { strategy := p.strategy, symbol := p.symbol, venueCode := p.venueCode, quantity := p.beforeQty }

namespace AllocationSnapshot

def key (snapshot : AllocationSnapshot F) : AllocationKey :=
  ⟨snapshot.sourceId, snapshot.snapshotTsUs⟩

/-- An explicit residual leg: ownership relative to a strategy anchor. -/
def usesResidual (snapshot : AllocationSnapshot F) : Bool :=
  snapshot.positions.any fun p => p.strategy == UNALLOCATED_STRATEGY

variable [F64 F]

def isAsciiHexdigit (c : Char) : Bool :=
  let n := c.toNat
  (48 ≤ n && n ≤ 57) || (65 ≤ n && n ≤ 70) || (97 ≤ n && n ≤ 102)

def validateRestatement (snapshotTsUs : Int) (revision : AllocationRestatement F) :
    Except NavError Unit := do
  ensure (decide (snapshotTsUs < revision.snapshotTsUs)) .restatementNotLater
  ensure (revision.originalPositionsSha256.length == 64 &&
    revision.originalPositionsSha256.toList.all isAsciiHexdigit) .restatementFingerprintInvalid
  ensure (!revision.before.isEmpty && revision.before.all fun p => F64.isFinite p.quantity)
    .restatementQuantitiesInvalid

/-- One position of `validate`: the keys seen so far, and for each market the
imbalance so far and its reference price. -/
def validatePosition (seen : OrdSet StrategyMarket × OrdMap Market (F × F))
    (p : AllocationPosition F) :
    Except NavError (OrdSet StrategyMarket × OrdMap Market (F × F)) := do
  ensure (p.venueCode == 0 || p.venueCode == 1) .allocationVenueUnsupported
  ensure (!p.symbol.isEmpty && Text.trim p.symbol == p.symbol) .allocationSymbolInvalid
  ensure (isStrategyName p.strategy) .allocationStrategyInvalid
  ensure (F64.isFinite p.beforeQty && F64.isFinite p.afterQty && isPositive p.referencePrice)
    .allocationQuantityOrPriceInvalid
  ensure (!seen.1.contains p.key) .allocationPositionDuplicate
  let market := (seen.2[p.market]?).getD (0, p.referencePrice)
  ensure (decide (F64.abs (market.2 - p.referencePrice) ≤ market.2 * F64.eps12))
    .allocationMarksDiffer
  return (seen.1.insert p.key,
    seen.2.insert p.market (market.1 + (p.afterQty - p.beforeQty), market.2))

def validate (snapshot : AllocationSnapshot F) : Except NavError Unit := do
  ensure (!(Text.trim snapshot.sourceId).isEmpty && decide (0 < snapshot.snapshotTsUs))
    .allocationIdentityInvalid
  ensure (!snapshot.positions.isEmpty) .allocationEmpty
  snapshot.restatements.forM (validateRestatement snapshot.snapshotTsUs)
  let (_, markets) ← snapshot.positions.foldlM validatePosition (∅, ∅)
  markets.toList.forM fun (market, delta, price) =>
    ensure (decide (F64.abs (delta * price) < F64.eps6))
      (.allocationUnbalanced market.symbol market.venueCode)

end AllocationSnapshot

/-! ## Amendments -/

variable [F64 F]

/-- The first loop of `resolve`: every correction is valid and no two of a
source share a timestamp.  The result finds a correction's index. -/
def allocationIndexes (snapshots : List (AllocationSnapshot F)) :
    Except NavError (OrdMap AllocationKey Nat) :=
  snapshots.zipIdx.foldlM (fun indexes (snapshot, index) => do
    snapshot.validate
    ensure (!indexes.contains snapshot.key) .allocationTimestampDuplicate
    return indexes.insert snapshot.key index) ∅

/-- Take the restated `before` quantities of every position. -/
def restatePositions (before : OrdMap StrategyMarket F) (positions : List (AllocationPosition F)) :
    Except NavError (List (AllocationPosition F)) :=
  positions.mapM fun p =>
    match before[p.key]? with
    | some quantity => .ok { p with beforeQty := quantity }
    | none => .error .restatementPositionMismatch

/-- One restatement of `resolve`: `state` holds the corrections amended so far
and the keys of those already amended. -/
def applyRestatement [Fingerprint F] (snapshots : List (AllocationSnapshot F))
    (indexes : OrdMap AllocationKey Nat) (snapshot : AllocationSnapshot F)
    (state : List (AllocationSnapshot F) × OrdSet AllocationKey)
    (revision : AllocationRestatement F) :
    Except NavError (List (AllocationSnapshot F) × OrdSet AllocationKey) := do
  let (result, amended) := state
  let key : AllocationKey := ⟨snapshot.sourceId, revision.snapshotTsUs⟩
  let some index := indexes[key]? | throw .restatedAllocationMissing
  let some original := snapshots[index]? | throw .restatedAllocationMissing
  let some current := result[index]? | throw .restatedAllocationMissing
  ensure (snapshot.usesResidual == original.usesResidual) .restatementCrossesScopes
  ensure (!amended.contains key) .restatedTwice
  ensure (Fingerprint.positionsFingerprint original.positions == revision.originalPositionsSha256)
    .restatedFingerprintChanged
  let before : OrdMap StrategyMarket F :=
    revision.before.foldl (fun before p => before.insert p.key p.quantity) ∅
  ensure (before.size == revision.before.length && before.size == current.positions.length)
    .restatementPositionsIncomplete
  let positions ← restatePositions before current.positions
  let restated := { current with positions }
  restated.validate
  return (result.set index restated, amended.insert key)

/-- `resolve`: only the audited `before` quantities change. -/
def resolve [Fingerprint F] (snapshots : List (AllocationSnapshot F)) :
    Except NavError (List (AllocationSnapshot F)) := do
  let indexes ← allocationIndexes snapshots
  let (result, _) ← snapshots.foldlM (fun state snapshot =>
    snapshot.restatements.foldlM (applyRestatement snapshots indexes snapshot) state)
    (snapshots, ∅)
  return result

end CtaManager
