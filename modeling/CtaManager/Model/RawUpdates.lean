import CtaManager.Model.UniformOrder

/-!
The decoding of trade and order updates (`model.rs`).

Both are little-endian records behind a timestamp key, as the uniform orders are, with
texts behind a length of four bytes and flags for the optional fields.  `float64` is the
number that the bits of an `f64` stand for.
-/

namespace CtaManager.Model

open Check

inductive UpdateError
  | key (kind : String) (e : DecodeError)
  | field (e : DecodeError)
  | invalidFlag (field : String) (value : UInt8)
  | trailingBytes (kind : String) (remaining : Nat)
  deriving DecidableEq, Repr

abbrev DecodeUpdate := StateT Decoder (Except UpdateError)

/-- A field of a uniform order, read in an update. -/
def readField {α : Type} (m : Decode α) : DecodeUpdate α := fun d => (m d).mapError .field

instance : MonadLift Decode DecodeUpdate where
  monadLift := readField

/-- `Decoder::string`. -/
def decodeString (field : String) : Decode String := do
  let length ← Decoder.u32 (field ++ "_len")
  Decoder.lossyString length field

/-- `Decoder::optional_string`. -/
def decodeOptionalString (field : String) : DecodeUpdate (Option String) := do
  let present ← Decoder.u8 (field ++ "_present")
  match present.toNat with
  | 0 => return none
  | 1 => some <$> decodeString field
  | _ => throw (.invalidFlag field present)

/-- `decode_timestamp_key`. -/
def decodeTimestampKey (key : List UInt8) (kind : String) : Except UpdateError (String × Int) :=
  (decodeKey key).mapError (.key kind)

def ensureEnd (kind : String) : DecodeUpdate Unit := do
  let remaining ← Decoder.remaining
  if remaining = 0 then return () else throw (.trailingBytes kind remaining)

/-! ## Trade updates -/

structure TradeUpdateEvent where
  recordKey : String
  recordTsUs : Int
  recvTsUs : Int
  eventTsUs : Int
  tradeTsUs : Int
  symbol : String
  orderId : Int
  clientOrderId : Int
  sideCode : Int
  price : UInt64
  isMaker : Bool
  venueCode : Int
  cumulativeFilledQuantity : UInt64
  statusCode : Option Int
  deriving DecidableEq

def decodeStatus : DecodeUpdate (Option Int) := do
  let present ← Decoder.u8 "status_present"
  match present.toNat with
  | 0 => return none
  | 1 =>
    let status ← Decoder.u8 "status"
    return some status.toNat
  | _ => throw (.invalidFlag "status" present)

def decodeTradePayload (recordKey : String) (recordTsUs : Int) : DecodeUpdate TradeUpdateEvent := do
  let recvTsUs ← Decoder.i64 "recv_ts_us"
  let eventTsUs ← Decoder.i64 "event_time"
  let tradeTsUs ← Decoder.i64 "trade_time"
  let symbol ← decodeString "symbol"
  let orderId ← Decoder.i64 "order_id"
  let clientOrderId ← Decoder.i64 "client_order_id"
  let side ← Decoder.u8 "side"
  let price ← Decoder.f64 "price"
  let isMaker ← Decoder.u8 "is_maker"
  let venue ← Decoder.u8 "venue"
  let cumulativeFilledQuantity ← Decoder.f64 "cumulative_filled_quantity"
  let statusCode ← decodeStatus
  ensureEnd "trade update"
  return {
    recordKey, recordTsUs, recvTsUs, eventTsUs, tradeTsUs, symbol, orderId, clientOrderId
    sideCode := side.toNat, price, isMaker := isMaker != 0, venueCode := venue.toNat
    cumulativeFilledQuantity, statusCode }

/-- `decode_trade_update`. -/
def decodeTradeUpdate (key payload : List UInt8) : Except UpdateError TradeUpdateEvent := do
  let (recordKey, recordTsUs) ← decodeTimestampKey key "trade update"
  let (event, _) ← decodeTradePayload recordKey recordTsUs (Decoder.new payload)
  return event

/-! ## Order updates -/

structure OrderUpdateEvent where
  recordKey : String
  recordTsUs : Int
  recvTsUs : Int
  eventTsUs : Int
  symbol : String
  orderId : Int
  clientOrderId : Int
  clientOrderIdText : Option String
  sideCode : Int
  orderTypeCode : Int
  timeInForceCode : Int
  price : UInt64
  quantity : UInt64
  cumulativeFilledQuantity : UInt64
  statusCode : Int
  rawStatus : String
  executionTypeCode : Int
  rawExecutionType : String
  venueCode : Int
  deriving DecidableEq

def decodeOrderPayload (recordKey : String) (recordTsUs : Int) : DecodeUpdate OrderUpdateEvent := do
  let recvTsUs ← Decoder.i64 "recv_ts_us"
  let eventTsUs ← Decoder.i64 "event_time"
  let symbol ← decodeString "symbol"
  let orderId ← Decoder.i64 "order_id"
  let clientOrderId ← Decoder.i64 "client_order_id"
  let clientOrderIdText ← decodeOptionalString "client_order_id_str"
  let side ← Decoder.u8 "side"
  let orderType ← Decoder.u8 "order_type"
  let timeInForce ← Decoder.u8 "time_in_force"
  let price ← Decoder.f64 "price"
  let quantity ← Decoder.f64 "quantity"
  let cumulativeFilledQuantity ← Decoder.f64 "cumulative_filled_quantity"
  let status ← Decoder.u8 "status"
  let rawStatus ← decodeString "raw_status"
  let executionType ← Decoder.u8 "execution_type"
  let rawExecutionType ← decodeString "raw_execution_type"
  let venue ← Decoder.u8 "venue"
  ensureEnd "order update"
  return {
    recordKey, recordTsUs, recvTsUs, eventTsUs, symbol, orderId, clientOrderId, clientOrderIdText
    sideCode := side.toNat, orderTypeCode := orderType.toNat
    timeInForceCode := timeInForce.toNat, price, quantity, cumulativeFilledQuantity
    statusCode := status.toNat, rawStatus, executionTypeCode := executionType.toNat
    rawExecutionType, venueCode := venue.toNat }

/-- `decode_order_update`. -/
def decodeOrderUpdate (key payload : List UInt8) : Except UpdateError OrderUpdateEvent := do
  let (recordKey, recordTsUs) ← decodeTimestampKey key "order update"
  let (event, _) ← decodeOrderPayload recordKey recordTsUs (Decoder.new payload)
  return event

/-! ## Numbers -/

/-- The number of the bits of an `f64`; none for an infinity or a NaN. -/
def float64 (bits : UInt64) : Option ℚ :=
  let exponent : ℕ := bits.toNat / 2 ^ 52 % 2 ^ 11
  let fraction : ℕ := bits.toNat % 2 ^ 52
  let magnitude : ℕ := if exponent = 0 then 2 * fraction else (2 ^ 52 + fraction) * 2 ^ exponent
  let value : ℚ := (magnitude : ℚ) / ((2 ^ 1075 : ℕ) : ℚ)
  if exponent = 2047 then none else some (if bits.toNat < 2 ^ 63 then value else -value)

/-- The largest finite `f64`. -/
@[irreducible] def maxFloat64 : ℚ := (((2 ^ 53 - 1) * 2 ^ 971 : ℕ) : ℚ)

/-- `f64::is_finite` of a result. -/
@[irreducible] def isFinite (value : ℚ) : Bool := decide (|value| ≤ maxFloat64)

example : float64 0x3FE0000000000000 = some (1 / 2) ∧ float64 0x7FF0000000000000 = none := by
  decide +kernel

end CtaManager.Model
