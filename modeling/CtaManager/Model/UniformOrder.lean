import CtaManager.Library.Check
import CtaManager.Library.LittleEndian
import CtaManager.Library.Utf8
import CtaManager.Nav.Types

/-!
The decoding of a uniform order record (`model.rs`).

A record is a key of 20 digits and a payload of little-endian fields with length-prefixed
texts; three tails were added over time and are told apart by what is left of the payload.
Indexing and slicing that would panic end in `DecodeError.panic`.  An `f64` is its bits.
-/

namespace CtaManager.Model

open Check LittleEndian

inductive DecodeError
  | panic
  | keyNotUtf8
  | keyNotTimestamp (key : String)
  | keyExceedsBigint
  | lengthOverflow (field : String)
  | tooShort (field : String) (need have_ : Nat)
  | arrayLength
  | invalidMask (mask : UInt8)
  | invalidLegLength (length : Nat)
  | invalidTail (remaining : Nat)
  | invalidFillLiquidity (code : UInt8)
  | trailingBytes (remaining : Nat)
  deriving DecidableEq, Repr

/-! ## Slices -/

/-- `usize::MAX`. -/
def usizeMax : Nat := 18446744073709551615

/-- `isize::MAX`: no slice is longer. -/
def isizeMax : Nat := 9223372036854775807

/-- `l[i]`. -/
def index (l : List UInt8) (i : Nat) : Except DecodeError UInt8 :=
  match l[i]? with
  | some b => .ok b
  | none => .error .panic

/-- `l.get(a..b)`. -/
def getRange (l : List UInt8) (a b : Nat) : Option (List UInt8) :=
  if a ≤ b ∧ b ≤ l.length then some ((l.drop a).take (b - a)) else none

/-- `&l[a..b]`. -/
def slice (l : List UInt8) (a b : Nat) : Except DecodeError (List UInt8) :=
  match getRange l a b with
  | some value => .ok value
  | none => .error .panic

/-- `l.try_into()` to an array of `width` bytes. -/
def array (width : Nat) (l : List UInt8) : Except DecodeError (List UInt8) :=
  if l.length = width then .ok l else .error .arrayLength

/-- `i64::from_le_bytes`. -/
def i64FromLeBytes (l : List UInt8) : Int := toSigned 64 (leNat l)

/-- `f64::from_le_bytes`. -/
def f64FromLeBytes (l : List UInt8) : UInt64 := UInt64.ofNat (leNat l)

/-! ## The decoder -/

structure Decoder where
  input : List UInt8
  offset : Nat
  deriving DecidableEq

abbrev Decode := StateT Decoder (Except DecodeError)

namespace Decoder

def new (input : List UInt8) : Decoder := { input, offset := 0 }

def left (d : Decoder) : Nat := d.input.length - d.offset

def remaining : Decode Nat := fun d => .ok (d.left, d)

def bytes (length : Nat) (field : String) : Decode (List UInt8) := fun d =>
  if usizeMax < d.offset + length then .error (.lengthOverflow field)
  else
    match getRange d.input d.offset (d.offset + length) with
    | none => .error (.tooShort field length d.left)
    | some value => .ok (value, { d with offset := d.offset + length })

def lossyString (length : Nat) (field : String) : Decode String := do
  let value ← bytes length field
  return Utf8.lossy value

def u8 (field : String) : Decode UInt8 := do
  let value ← bytes 1 field
  index value 0

def u16 (field : String) : Decode Nat := do
  let value ← bytes 2 field
  let value ← array 2 value
  return leNat value

def u32 (field : String) : Decode Nat := do
  let value ← bytes 4 field
  let value ← array 4 value
  return leNat value

def i64 (field : String) : Decode Int := do
  let value ← bytes 8 field
  let value ← array 8 value
  return i64FromLeBytes value

def f64 (field : String) : Decode UInt64 := do
  let value ← bytes 8 field
  let value ← array 8 value
  return f64FromLeBytes value

end Decoder

/-! ## Names of the codes -/

/-- `UNKNOWN(value)`. -/
def unknownName (value : UInt8) : String := "UNKNOWN(" ++ toString value.toNat ++ ")"

def venueName (value : UInt8) : String :=
  match value.toNat with
  | 0 => "BinanceMargin"
  | 1 => "BinanceFutures"
  | 2 => "OkexMargin"
  | 3 => "OkexFutures"
  | 4 => "BybitMargin"
  | 5 => "BybitFutures"
  | 6 => "BitgetMargin"
  | 7 => "BitgetFutures"
  | 8 => "GateMargin"
  | 9 => "GateFutures"
  | 10 => "AsterMargin"
  | 11 => "AsterFutures"
  | 12 => "HyperliquidMargin"
  | 13 => "HyperliquidFutures"
  | 14 => "BinanceCoinFutures"
  | 15 => "BitgetCoinFutures"
  | _ => unknownName value

def orderTypeName (value : UInt8) : String :=
  match value.toNat with
  | 1 => "LIMIT"
  | 2 => "INTERNAL_CROSS"
  | 3 => "MARKET"
  | 4 => "STOP_LOSS"
  | 5 => "STOP_LOSS_LIMIT"
  | 6 => "TAKE_PROFIT"
  | 7 => "TAKE_PROFIT_LIMIT"
  | 8 => "STOP_MARKET"
  | 9 => "TAKE_PROFIT_MARKET"
  | _ => unknownName value

def sideName (value : UInt8) : String :=
  match value.toNat with
  | 1 => "BUY"
  | 2 => "SELL"
  | _ => unknownName value

def statusName (value : UInt8) : String :=
  match value.toNat with
  | 1 => "NEW"
  | 2 => "PARTIALLY_FILLED"
  | 3 => "FILLED"
  | 4 => "CANCELED"
  | 5 => "EXPIRED"
  | 6 => "EXPIRED_IN_MATCH"
  | _ => unknownName value

/-! ## The optional tails -/

def signalBboLegBinaryLen : Nat := 41

def signalBboBinaryLen : Nat := 83

def uniformOrderTailBinaryLen : Nat := signalBboBinaryLen + 1

structure SignalBboLeg where
  venueCode : Int
  tsUs : Int
  bidPrice : UInt64
  bidQuantity : UInt64
  askPrice : UInt64
  askQuantity : UInt64
  deriving DecidableEq

/-- `FillLiquidity::decode`. -/
def decodeFillLiquidity (code : UInt8) : Except DecodeError FillLiquidity :=
  match code.toNat with
  | 0 => .ok .unknown
  | 1 => .ok .maker
  | 2 => .ok .taker
  | _ => .error (.invalidFillLiquidity code)

def decodeSignalLeg (raw : List UInt8) (present : Bool) :
    Except DecodeError (Option SignalBboLeg) := do
  if present then
    ensure (raw.length == signalBboLegBinaryLen) (.invalidLegLength raw.length)
    let venueCode ← index raw 0
    let tsUs ← slice raw 1 9 >>= array 8
    let bidPrice ← slice raw 9 17 >>= array 8
    let bidQuantity ← slice raw 17 25 >>= array 8
    let askPrice ← slice raw 25 33 >>= array 8
    let askQuantity ← slice raw 33 41 >>= array 8
    return some
      { venueCode := venueCode.toNat, tsUs := i64FromLeBytes tsUs
        bidPrice := f64FromLeBytes bidPrice, bidQuantity := f64FromLeBytes bidQuantity
        askPrice := f64FromLeBytes askPrice, askQuantity := f64FromLeBytes askQuantity }
  else return none

def decodeSignalBbo (raw : List UInt8) :
    Except DecodeError (Option SignalBboLeg × Option SignalBboLeg) := do
  let mask ← index raw 0
  ensure (mask &&& ~~~ 3 == 0) (.invalidMask mask)
  let open_ ← decodeSignalLeg (← slice raw 1 (1 + signalBboLegBinaryLen)) (mask &&& 1 != 0)
  let hedge ← decodeSignalLeg (← slice raw (1 + signalBboLegBinaryLen) raw.length) (mask &&& 2 != 0)
  return (open_, hedge)

/-- A text behind its length. -/
def decodeText (lengthField field : String) : Decode String := do
  let length ← Decoder.u16 lengthField
  Decoder.lossyString length field

/-- A record ends after `from_key`, or goes on with a spread. -/
def decodeBboSpread : Decode String := do
  if (← Decoder.remaining) = 0 then return ""
  else decodeText "bbo_spread_len" "bbo_spread"

/-- It ends after the spread, or goes on with the signal quotes. -/
def decodeSignals : Decode (Option SignalBboLeg × Option SignalBboLeg) := do
  let remaining ← Decoder.remaining
  if remaining = 0 then return (none, none)
  else if remaining = signalBboBinaryLen ∨ remaining = uniformOrderTailBinaryLen then
    let raw ← Decoder.bytes signalBboBinaryLen "signal_bbo"
    decodeSignalBbo raw
  else throw (.invalidTail remaining)

/-- One byte more is the liquidity of the fill, and nothing follows. -/
def decodeLiquidity : Decode (Option FillLiquidity) := do
  let liquidity ←
    (if (← Decoder.remaining) = 1 then do
      let code ← Decoder.u8 "fill_liquidity"
      let role ← decodeFillLiquidity code
      return some role
    else return none : Decode (Option FillLiquidity))
  let remaining ← Decoder.remaining
  if remaining = 0 then return liquidity else throw (.trailingBytes remaining)

/-! ## The record -/

structure UniformOrderEvent where
  recordKey : String
  eventTsUs : Int
  recvTsUs : Int
  symbol : String
  createTsUs : Int
  updateTsUs : Int
  signalTsUs : Int
  submitTsUs : Int
  localTsUs : Int
  marketTsUs : Int
  clientOrderId : Int
  venueCode : Int
  venue : String
  orderTypeCode : Int
  orderType : String
  sideCode : Int
  side : String
  price : UInt64
  priceOffset : UInt64
  amountInitial : UInt64
  amountUpdate : UInt64
  statusCode : Int
  status : String
  fromKey : List UInt8
  fromKeyText : String
  bboSpread : String
  signalOpen : Option SignalBboLeg
  signalHedge : Option SignalBboLeg
  fillLiquidity : Option FillLiquidity
  deriving DecidableEq

/-- The fields up to the client order id. -/
structure OrderHead where
  recvTsUs : Int
  symbol : String
  createTsUs : Int
  updateTsUs : Int
  signalTsUs : Int
  submitTsUs : Int
  localTsUs : Int
  marketTsUs : Int
  clientOrderId : Int

def decodeHead : Decode OrderHead := do
  let recvTsUs ← Decoder.i64 "recv_ts_us"
  let symbol ← decodeText "symbol_len" "symbol"
  let createTsUs ← Decoder.i64 "create_ts"
  let updateTsUs ← Decoder.i64 "update_ts"
  let signalTsUs ← Decoder.i64 "signal_ts"
  let submitTsUs ← Decoder.i64 "submit_ts"
  let localTsUs ← Decoder.i64 "local_ts"
  let marketTsUs ← Decoder.i64 "mkt_ts"
  let clientOrderId ← Decoder.i64 "client_order_id"
  return { recvTsUs, symbol, createTsUs, updateTsUs, signalTsUs, submitTsUs, localTsUs,
           marketTsUs, clientOrderId }

/-- The fields of the order itself. -/
structure OrderTerms where
  venueRaw : UInt8
  orderTypeRaw : UInt8
  sideRaw : UInt8
  price : UInt64
  priceOffset : UInt64
  amountInitial : UInt64
  amountUpdate : UInt64
  statusRaw : UInt8

def decodeTerms : Decode OrderTerms := do
  let venueRaw ← Decoder.u8 "venue"
  let orderTypeRaw ← Decoder.u8 "order_type"
  let sideRaw ← Decoder.u8 "side"
  let price ← Decoder.f64 "price"
  let priceOffset ← Decoder.f64 "price_offset"
  let amountInitial ← Decoder.f64 "amount_init"
  let amountUpdate ← Decoder.f64 "amount_update"
  let statusRaw ← Decoder.u8 "status"
  return { venueRaw, orderTypeRaw, sideRaw, price, priceOffset, amountInitial, amountUpdate,
           statusRaw }

def decodeFromKey : Decode (List UInt8) := do
  let length ← Decoder.u32 "from_key_len"
  Decoder.bytes length "from_key"

/-- What the tails say. -/
structure OrderTail where
  bboSpread : String
  signals : Option SignalBboLeg × Option SignalBboLeg
  fillLiquidity : Option FillLiquidity

def decodeTail : Decode OrderTail := do
  let bboSpread ← decodeBboSpread
  let signals ← decodeSignals
  let fillLiquidity ← decodeLiquidity
  return { bboSpread, signals, fillLiquidity }

def decodePayload (recordKey : String) (eventTsUs : Int) : Decode UniformOrderEvent := do
  let head ← decodeHead
  let terms ← decodeTerms
  let fromKey ← decodeFromKey
  let tail ← decodeTail
  return {
    recordKey, eventTsUs
    recvTsUs := head.recvTsUs, symbol := head.symbol, createTsUs := head.createTsUs
    updateTsUs := head.updateTsUs, signalTsUs := head.signalTsUs, submitTsUs := head.submitTsUs
    localTsUs := head.localTsUs, marketTsUs := head.marketTsUs
    clientOrderId := head.clientOrderId
    venueCode := terms.venueRaw.toNat, venue := venueName terms.venueRaw
    orderTypeCode := terms.orderTypeRaw.toNat, orderType := orderTypeName terms.orderTypeRaw
    sideCode := terms.sideRaw.toNat, side := sideName terms.sideRaw
    price := terms.price, priceOffset := terms.priceOffset
    amountInitial := terms.amountInitial, amountUpdate := terms.amountUpdate
    statusCode := terms.statusRaw.toNat, status := statusName terms.statusRaw
    fromKey, fromKeyText := Utf8.lossy fromKey
    bboSpread := tail.bboSpread, signalOpen := tail.signals.1, signalHedge := tail.signals.2
    fillLiquidity := tail.fillLiquidity }

/-! ## The key -/

/-- `u8::is_ascii_digit`. -/
def isAsciiDigit (b : UInt8) : Bool := decide (48 ≤ b.toNat ∧ b.toNat ≤ 57)

/-- The number of a list of digits. -/
def digitsValue (digits : List UInt8) : Nat := digits.foldl (fun n b => n * 10 + (b.toNat - 48)) 0

/-- `i64::MAX`. -/
def maxI64 : Nat := 9223372036854775807

/-- The key and its timestamp. -/
def decodeKey (key : List UInt8) : Except DecodeError (String × Int) :=
  match Utf8.decode? key with
  | none => .error .keyNotUtf8
  | some recordKey => do
    let raw := Utf8.encode recordKey.toList
    ensure (raw.length == 20 && raw.all isAsciiDigit) (.keyNotTimestamp recordKey)
    ensure (decide (digitsValue raw ≤ maxI64)) .keyExceedsBigint
    return (recordKey, (digitsValue raw : Int))

/-- `decode_uniform_order`. -/
def decodeUniformOrder (key payload : List UInt8) : Except DecodeError UniformOrderEvent := do
  let (recordKey, eventTsUs) ← decodeKey key
  let (event, _) ← decodePayload recordKey eventTsUs (Decoder.new payload)
  return event

end CtaManager.Model
