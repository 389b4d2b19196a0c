import CtaManager.Nav.Types

/-!
Opening positions of a source: account snapshots and per-strategy anchors
(`snapshot.rs`), and which of the two a source starts from.
-/

namespace CtaManager

open Check

structure SnapshotPosition (F : Type) where
  symbol : String
  venueCode : Int
  /-- Signed base quantity: positive is long, negative is short. -/
  quantity : F
  /-- `none` uses the price of the first later fill. -/
  referencePrice : Option F
  deriving DecidableEq

structure PositionSnapshot (F : Type) where
  sourceId : String
  snapshotTsUs : Int
  positions : List (SnapshotPosition F)
  deriving DecidableEq

structure StrategySnapshotPosition (F : Type) where
  strategyName : String
  symbol : String
  venueCode : Int
  quantity : F
  referencePrice : F
  deriving DecidableEq

/-- A per-strategy anchor: every entry has an owner and a valuation basis. -/
structure StrategyPositionSnapshot (F : Type) where
  sourceId : String
  snapshotTsUs : Int
  positions : List (StrategySnapshotPosition F)
  deriving DecidableEq

variable {F : Type} [F64 F]

def SnapshotPosition.market (position : SnapshotPosition F) : Market :=
  ⟨position.symbol, position.venueCode⟩

def StrategySnapshotPosition.market (position : StrategySnapshotPosition F) : Market :=
  ⟨position.symbol, position.venueCode⟩

/-- The key of a position in the ledgers: the normalized symbol on its venue. -/
def SnapshotPosition.targetMarket (position : SnapshotPosition F) : Market :=
  ⟨targetSymbol position.symbol position.venueCode, position.venueCode⟩

def StrategySnapshotPosition.targetMarket (position : StrategySnapshotPosition F) : Market :=
  ⟨targetSymbol position.symbol position.venueCode, position.venueCode⟩

/-- `validate_position`. -/
def isSnapshotPosition (symbol : String) (venueCode : Int) (quantity : F)
    (referencePrice : Option F) : Bool :=
  !(Text.trim symbol).isEmpty && symbol == Text.trim symbol &&
    decide (0 ≤ venueCode ∧ venueCode ≤ 255) &&
    F64.isFinite quantity && !(quantity == 0) &&
    referencePrice.all isPositive

/-- The reserved strategy of BNB reserve management (`bnb_auto.rs`). -/
def HEDGE_STRATEGY : String := "SYSTEM_BNB_RESERVE"

/-- `order_config::validate_strategy_name`. -/
def isRuntimeStrategyName (name : String) : Bool :=
  decide (name.length ≤ 256) &&
    (match name.toList with
      | [] => false
      | first :: rest => Text.isAsciiAlphanumeric first && rest.all Text.isNameChar) &&
    !(name == "strategy_names" || name == "removed_strategy_names" ||
      name == "SYSTEM_POSITION_CLOSE") &&
    name != HEDGE_STRATEGY

/-- `validate_strategy_name` of `snapshot.rs`. -/
def isSnapshotStrategyName (name : String) : Bool :=
  name == UNALLOCATED_STRATEGY || isRuntimeStrategyName name

def sameMark (left right : F) : Bool :=
  decide (F64.abs (left - right) ≤ max (max (F64.abs left) (F64.abs right)) 1 * F64.eps10)

def PositionSnapshot.validate (snapshot : PositionSnapshot F) : Except NavError Unit := do
  ensure (!(Text.trim snapshot.sourceId).isEmpty) .snapshotSourceIdEmpty
  ensure (decide (0 < snapshot.snapshotTsUs)) .snapshotTimestampNotPositive
  let _ ← snapshot.positions.foldlM (fun (keys : OrdSet Market) position => do
    ensure (isSnapshotPosition position.symbol position.venueCode position.quantity
      position.referencePrice) (.snapshotPositionInvalid position.symbol position.venueCode)
    ensure (!keys.contains position.market)
      (.snapshotPositionDuplicate position.symbol position.venueCode)
    return keys.insert position.market) ∅

/-- One round of the loop of `StrategyPositionSnapshot::validate`: the keys and
the marks seen so far. -/
def StrategyPositionSnapshot.validateStep
    (seen : OrdSet StrategyMarket × OrdMap Market F) (position : StrategySnapshotPosition F) :
    Except NavError (OrdSet StrategyMarket × OrdMap Market F) := do
  ensure (isSnapshotStrategyName position.strategyName) (.strategyNameInvalid position.strategyName)
  ensure (isSnapshotPosition position.symbol position.venueCode position.quantity
    (some position.referencePrice)) (.snapshotPositionInvalid position.symbol position.venueCode)
  let key : StrategyMarket := ⟨position.strategyName, position.market⟩
  ensure (!seen.1.contains key)
    (.strategySnapshotPositionDuplicate position.strategyName position.symbol position.venueCode)
  ensure ((seen.2[position.market]?).all fun mark => sameMark mark position.referencePrice)
    (.strategySnapshotMarksDiffer position.symbol position.venueCode)
  return (seen.1.insert key, seen.2.insert position.market position.referencePrice)

def StrategyPositionSnapshot.validate (snapshot : StrategyPositionSnapshot F) :
    Except NavError Unit := do
  ensure (!(Text.trim snapshot.sourceId).isEmpty) .snapshotSourceIdEmpty
  ensure (decide (0 < snapshot.snapshotTsUs)) .snapshotTimestampNotPositive
  ensure (!snapshot.positions.isEmpty) .strategySnapshotEmpty
  let _ ← snapshot.positions.foldlM validateStep (∅, ∅)

/-- The account positions of an anchor: the signed sum of each market at its
first reference price; markets that net to zero disappear. -/
def StrategyPositionSnapshot.accountPositions (snapshot : StrategyPositionSnapshot F) :
    List (SnapshotPosition F) :=
  let positions : OrdMap Market (F × F) := snapshot.positions.foldl (fun positions position =>
    OrdMap.upsert positions position.market fun o =>
      let entry := o.getD (0, position.referencePrice)
      (entry.1 + position.quantity, entry.2)) ∅
  positions.toList.filterMap fun (market, quantity, referencePrice) =>
    if F64.eps12 < F64.abs quantity then
      some { symbol := market.symbol, venueCode := market.venueCode, quantity,
             referencePrice := some referencePrice }
    else none

def StrategyPositionSnapshot.accountSnapshot (snapshot : StrategyPositionSnapshot F) :
    Except NavError (PositionSnapshot F) := do
  snapshot.validate
  let account : PositionSnapshot F :=
    { sourceId := snapshot.sourceId, snapshotTsUs := snapshot.snapshotTsUs,
      positions := snapshot.accountPositions }
  account.validate
  return account

/-- The anchor is used unless a later account snapshot supersedes it. -/
def supersedes (snapshot : Option (PositionSnapshot F))
    (strategySnapshot : StrategyPositionSnapshot F) : Bool :=
  snapshot.all fun account => decide (account.snapshotTsUs ≤ strategySnapshot.snapshotTsUs)

def effectivePositionSnapshot (snapshot : Option (PositionSnapshot F))
    (strategySnapshot : Option (StrategyPositionSnapshot F)) :
    Except NavError (Option (PositionSnapshot F)) :=
  match strategySnapshot.filter (supersedes snapshot) with
  | some anchor => anchor.accountSnapshot.map some
  | none => .ok snapshot

end CtaManager
