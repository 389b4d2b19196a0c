import CtaManager.Library.Check
import CtaManager.Library.OrdMap
import CtaManager.Model.RawUpdates
import CtaManager.Nav.Types
import CtaManager.Text

/-!
The orders behind raw observations (`reconcile.rs`).

Every trade update and every order update is an observation of an order and says the
quantity filled so far.  `applyRawObservation` files it under the exchange id of the
order, or under its client id where the exchange id is missing, and keeps the greatest
quantity of each entry.  Quantities are the exact numbers of their bits.
-/

namespace CtaManager.Reconcile

open Check Model

/-! ## Numbers -/

/-- `u64::MAX`. -/
def maxU64 : Nat := 18446744073709551615

/-- `checked_add` and its context. -/
def checkedAdd (a b : Nat) (context : String) : Except String Nat :=
  if a + b ≤ maxU64 then .ok (a + b) else .error context

/-- The number that `validate_quantity` lets pass. -/
def quantity? (bits : UInt64) : Option ℚ := (float64 bits).filter fun q => decide (0 ≤ q)

/-- `validate_quantity`, with the number it passes. -/
def validateQuantity (bits : UInt64) (field identity : String) : Except String ℚ :=
  match quantity? bits with
  | some quantity => .ok quantity
  | none => .error (field ++ " for " ++ identity ++ " must be finite and nonnegative")

def cleanZero (value : ℚ) : ℚ := if value = 0 then 0 else value

/-- `update_bounds`. -/
def updateBounds (bounds : Option Int × Option Int) (value : Int) : Option Int × Option Int :=
  (some (bounds.1.elim value fun current => min current value),
    some (bounds.2.elim value fun current => max current value))

/-! ## Observations -/

inductive StableOrderId where
  | exchange (id : Int)
  | client (id : Int)
  deriving DecidableEq

def StableOrderId.order : StableOrderId → Nat ×ₗ Int
  | exchange id => toLex (0, id)
  | client id => toLex (1, id)

instance : LinearOrder StableOrderId :=
  LinearOrder.lift' StableOrderId.order (by
    intro a b h
    cases a <;> cases b <;> simp_all [StableOrderId.order])

structure RawOrderKey where
  market : Market
  id : StableOrderId
  deriving DecidableEq

instance : LinearOrder RawOrderKey :=
  LinearOrder.lift' (fun k => toLex (k.market, k.id)) (by
    rintro ⟨a, b⟩ ⟨c, d⟩ h
    simpa using h)

structure RawObservation where
  symbol : String
  venueCode : Int
  orderId : Int
  clientOrderId : Int
  sideCode : Int
  cumulativeQuantity : UInt64
  eventTsUs : Int
  deriving DecidableEq

def RawObservation.market (o : RawObservation) : Market := ⟨o.symbol, o.venueCode⟩

structure RawOrder where
  symbol : String
  venueCode : Int
  sideCode : Int
  maxCumulativeQuantity : ℚ
  observationCount : Nat
  clientOrderIds : OrdSet Int

def RawOrder.market (order : RawOrder) : Market := ⟨order.symbol, order.venueCode⟩

abbrev RawOrders := OrdMap RawOrderKey RawOrder

/-- The id that an observation carries. -/
def stableId? (o : RawObservation) : Option StableOrderId :=
  if 0 < o.orderId then some (.exchange o.orderId)
  else if o.clientOrderId ≠ 0 then some (.client o.clientOrderId)
  else none

/-- The entry of an order before its first observation. -/
def newOrder (o : RawObservation) : RawOrder where
  symbol := o.symbol
  venueCode := o.venueCode
  sideCode := o.sideCode
  maxCumulativeQuantity := 0
  observationCount := 0
  clientOrderIds := ∅

/-- One more observation of an order. -/
def RawOrder.observe (order : RawOrder) (o : RawObservation) (quantity : ℚ) :
    Except String RawOrder := do
  ensure (order.sideCode == o.sideCode)
    ("one raw order changed side from " ++ toString order.sideCode ++ " to " ++
      toString o.sideCode)
  let observationCount ← checkedAdd order.observationCount 1 "raw observation count overflowed"
  return { order with
    maxCumulativeQuantity := max order.maxCumulativeQuantity quantity
    observationCount
    clientOrderIds :=
      if o.clientOrderId ≠ 0 then order.clientOrderIds.insert o.clientOrderId
      else order.clientOrderIds }

def applyRawObservation (orders : RawOrders) (o : RawObservation) : Except String RawOrders := do
  let quantity ← validateQuantity o.cumulativeQuantity "raw cumulative filled quantity"
    (o.symbol ++ ":" ++ toString o.orderId)
  ensure (Text.trim o.symbol != "") "raw update has an empty symbol"
  ensure (o.sideCode == 1 || o.sideCode == 2)
    ("raw update has unsupported side code " ++ toString o.sideCode)
  match stableId? o with
  | none =>
    ensure (decide (quantity = 0)) "positive raw fill has neither exchange nor client order ID"
    return orders
  | some id => do
    let key : RawOrderKey := ⟨o.market, id⟩
    let order ← ((orders[key]?).getD (newOrder o)).observe o quantity
    return orders.insert key order

end CtaManager.Reconcile
