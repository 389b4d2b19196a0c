import CtaManager.Library.Draw
import CtaManager.Library.Grouping
import CtaManager.Library.PaddedDecimal
import CtaManager.Library.StableSort
import CtaManager.Nav.Types

/-!
The recovery of lifecycle fills from executions (`nav/fill_recovery.rs`).

The executions of an order are the evidence: each has its own transaction id and a positive
quantity and price (`Evidence`, what `decode_fills` accepts).  For every wanted order
`replaceOrders` keeps the lifecycle rows, adds the maker and taker roles of the executions
to them, or puts the executions in their place.
-/

namespace CtaManager.FillRecovery

open Check StableSort

inductive RecoveryError
  | invalidLifecycleQuantity
  | conflictingAttribution (clientOrderId : Int)
  | noExecutions (key : LiquidityOrderKey)
  | quantityMismatch (key : LiquidityOrderKey)
  | emptyExecutionOrder
  | executionConflict (clientOrderId : Int)
  | rolesConflict (clientOrderId : Int)
  deriving DecidableEq, Repr

structure Fill (F : Type) where
  transactionId : String
  orderId : String
  sideCode : Int
  quantity : F
  price : F
  timestampUs : Int
  liquidity : Option FillLiquidity
  deriving DecidableEq

/-- The executions of one order, by transaction id. -/
abbrev OrderFills (F : Type) := OrdMap String (Fill F)

variable {F : Type}

/-- `order.values()`. -/
def executions (order : OrderFills F) : List (Fill F) := order.toList.map Prod.snd

variable [F64 F]

def needsPrice (event : NavEvent F) : Bool :=
  decide (0 < event.amountUpdate) && (!F64.isFinite event.price || decide (event.price ≤ 0))

/-- Deduplicated executions, as `decode_fills` leaves them. -/
structure Evidence (F : Type) [F64 F] where
  fills : OrdMap LiquidityOrderKey (OrderFills F)
  transactionId_eq : ∀ order ∈ fills.toList, ∀ entry ∈ order.2.toList,
    entry.2.transactionId = entry.1
  positive : ∀ order ∈ fills.toList, ∀ entry ∈ order.2.toList,
    isPositive entry.2.quantity = true ∧ isPositive entry.2.price = true

/-! ## Roles -/

def withRole (event : NavEvent F) : Option FillLiquidity → Except RecoveryError (NavEvent F)
  | none => .ok event
  | some role => do
    ensure (event.fillLiquidity.all fun old => old == .unknown || old == role)
      (.rolesConflict event.clientOrderId)
    return { event with fillLiquidity := some role }

/-- An execution that a lifecycle row does not come from: another millisecond or another
price. -/
def elsewhere (event : NavEvent F) (fill : Fill F) : Bool :=
  fill.timestampUs.tdiv 1000 != event.updateTsUs.tdiv 1000 ||
    decide (F64.abs event.price * F64.eps12 < F64.abs (fill.price - event.price))

/-- The parts of a row whose executions have different roles; the last one is what the
others leave of its quantity. -/
def splitRows (event : NavEvent F) :
    Nat → F → List (Fill F × F) → Except RecoveryError (List (NavEvent F))
  | _, _, [] => .ok []
  | i, used, (fill, quantity) :: parts => do
    let part ← withRole event fill.liquidity
    let amount := if parts.isEmpty then event.amountUpdate - used else quantity
    let rest ← splitRows event (i + 1) (used + amount) parts
    return { part with
      amountUpdate := amount
      recordKey := event.recordKey ++ ":liquidity:" ++ PaddedDecimal.pad 8 i } :: rest

/-- One row against what is left of the executions. -/
def matchRow (remaining : List (Fill F × F)) (event : NavEvent F) :
    Except RecoveryError (List (Fill F × F) × List (NavEvent F)) :=
  if event.amountUpdate ≤ 0 then .ok (remaining, [event])
  else
    let tolerance := F64.abs event.amountUpdate * F64.eps12
    let drawn := Draw.draw (elsewhere event) tolerance event.amountUpdate remaining
    if tolerance < drawn.left then .ok (remaining, [event])
    else
      let role := drawn.parts.head?.bind fun part => part.1.liquidity
      if drawn.parts.all fun part => part.1.liquidity == role then do
        let row ← withRole event role
        return (drawn.lots, [row])
      else do
        let rows ← splitRows event 0 0 drawn.parts
        return (drawn.lots, rows)

def matchRows : List (Fill F × F) → List (NavEvent F) → Except RecoveryError (List (NavEvent F))
  | _, [] => .ok []
  | remaining, event :: events => do
    let (remaining, rows) ← matchRow remaining event
    let rest ← matchRows remaining events
    return rows ++ rest

def applyRoles (original : List (NavEvent F)) (order : List (Fill F)) :
    Except RecoveryError (List (NavEvent F)) :=
  let firstRole := order.head?.bind Fill.liquidity
  if firstRole.isSome && order.all fun fill => fill.liquidity == firstRole then
    original.mapM fun event =>
      if 0 < event.amountUpdate then withRole event firstRole else .ok event
  else matchRows (order.map fun fill => (fill, fill.quantity)) original

/-! ## Orders -/

/-- `{:020}` of a timestamp. -/
def timeKey (tsUs : Int) : String :=
  if 0 ≤ tsUs then PaddedDecimal.pad 20 tsUs.toNat
  else "-" ++ PaddedDecimal.pad 19 (-tsUs).toNat

/-- The row of an execution: the lifecycle row it stands for, with its own time, price,
quantity and role. -/
def recovered (template : NavEvent F) (fill : Fill F) : NavEvent F :=
  { template with
    recordKey := timeKey template.eventTsUs ++ ":execution:" ++ fill.transactionId
    updateTsUs := fill.timestampUs
    price := fill.price
    amountUpdate := fill.quantity
    fillLiquidity := some (fill.liquidity.getD .unknown) }

def attributedAs (template event : NavEvent F) : Bool :=
  event.sideCode == template.sideCode && event.fromKeyText == template.fromKeyText &&
    event.signalTsUs == template.signalTsUs

def identifiedAs (template : NavEvent F) (orderId : String) (fill : Fill F) : Bool :=
  fill.sideCode == template.sideCode && fill.orderId == orderId &&
    (decide (template.createTsUs ≤ 0) ||
      decide (template.createTsUs.tdiv 1000 * 1000 ≤ fill.timestampUs))

/-- The tolerance of two totals. -/
def totalTolerance (expected actual : F) : F :=
  max (F64.abs expected) (F64.abs actual) * F64.eps12

def amountTotal (events : List (NavEvent F)) : F := F64.sum (events.map NavEvent.amountUpdate)

def quantityTotal (order : List (Fill F)) : F := F64.sum (order.map Fill.quantity)

/-- The rows of one wanted order. -/
def recoverOrder (key : LiquidityOrderKey) (original : List (NavEvent F))
    (fills : Option (OrderFills F)) : Except RecoveryError (List (NavEvent F)) :=
  let original := stableSort NavEvent.recordKey original
  match original with
  | [] => .ok []
  | template :: _ => do
    let expected := amountTotal original
    ensure (F64.isFinite expected && decide (0 ≤ expected)) .invalidLifecycleQuantity
    ensure (original.all (attributedAs template)) (.conflictingAttribution template.clientOrderId)
    let unpriced := original.any needsPrice
    match fills with
    | none => do
      ensure (!unpriced) (.noExecutions key)
      return original
    | some order =>
      let order := executions order
      let actual := quantityTotal order
      let tolerance := totalTolerance expected actual
      -- a priced lifecycle can arrive before its executions
      if decide (actual + tolerance < expected) && !unpriced then .ok original
      else do
        ensure (F64.isFinite actual && decide (expected ≤ actual + tolerance))
          (.quantityMismatch key)
        match order with
        | [] => throw .emptyExecutionOrder
        | first :: _ => do
          order.forM fun fill =>
            ensure (identifiedAs template first.orderId fill) (.executionConflict key.clientOrderId)
          if decide (F64.abs (actual - expected) ≤ tolerance) && !unpriced then
            applyRoles original order
          else
            return order.map (recovered template) ++
              original.filter fun event => event.amountUpdate == 0

def replaceOrders (events : List (NavEvent F)) (wanted : OrdSet LiquidityOrderKey)
    (fills : OrdMap LiquidityOrderKey (OrderFills F)) :
    Except RecoveryError (List (NavEvent F)) := do
  let replaced :=
    OrdMap.group NavEvent.orderKey (events.filter fun event => wanted.contains event.orderKey)
  let result := events.filter fun event => !wanted.contains event.orderKey
  let rows ← replaced.toList.mapM fun (key, original) => recoverOrder key original fills[key]?
  return stableSort NavEvent.recordKey (result ++ rows.flatten)

end CtaManager.FillRecovery
