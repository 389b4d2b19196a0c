import CtaManager.Library.OrdMap
import CtaManager.Model.RawUpdates
import CtaManager.Text

/-!
Live readings of an account from its monitor (`account_ipc.rs`).

A payload is a header of twelve bytes (type, scope, length of the body) and a body.  An
account-risk event has the equity, the initial margin and the margin ratio of the account
of a scope; a wallet row has one asset of the standard Binance account.  Each field of the
state keeps the value of the newest payload that had it.  A slice out of range ends in
`Miss.panic`; numbers are the exact values of their bits.
-/

namespace CtaManager.Accounts

open Model

/-! ## Bytes -/

/-- A payload says nothing, or reading it goes out of range. -/
inductive Miss where
  | absent
  | panic
  deriving DecidableEq, Repr

inductive Panic where
  | outOfRange
  deriving DecidableEq, Repr

abbrev Parse := Except Miss

/-- `&l[a..b]`. -/
def range (l : List UInt8) (a b : Nat) : Parse (List UInt8) :=
  match getRange l a b with
  | some value => .ok value
  | none => .error .panic

/-- `l.get(a..b)?`. -/
def getSome (l : List UInt8) (a b : Nat) : Parse (List UInt8) :=
  match getRange l a b with
  | some value => .ok value
  | none => .error .absent

/-- `try_into().ok()?` to an array of `width` bytes. -/
def toArray (width : Nat) (l : List UInt8) : Parse (List UInt8) :=
  if l.length = width then .ok l else .error .absent

/-- The number behind four bytes that are sliced out. -/
def u32At (l : List UInt8) (a : Nat) : Parse Nat := do
  let bytes ← range l a (a + 4)
  let bytes ← toArray 4 bytes
  return LittleEndian.leNat bytes

def i64At (l : List UInt8) (a : Nat) : Parse Int := do
  let bytes ← range l a (a + 8)
  let bytes ← toArray 8 bytes
  return i64FromLeBytes bytes

def f64At (l : List UInt8) (a : Nat) : Parse UInt64 := do
  let bytes ← range l a (a + 8)
  let bytes ← toArray 8 bytes
  return f64FromLeBytes bytes

/-- `None` unless the condition holds. -/
def require (condition : Bool) : Parse Unit := if condition then .ok () else .error .absent

/-- A parse result, as the caller sees it. -/
def parsed {α : Type} : Parse α → Except Panic (Option α)
  | .ok a => .ok (some a)
  | .error .absent => .ok none
  | .error .panic => .error .outOfRange

/-- `f64::is_nan`. -/
def isNan (bits : UInt64) : Bool :=
  decide (bits.toNat / 2 ^ 52 % 2 ^ 11 = 2047 ∧ bits.toNat % 2 ^ 52 ≠ 0)

/-- `value < 0.0`. -/
def isNegative (bits : UInt64) : Bool :=
  match float64 bits with
  | some value => decide (value < 0)
  | none => !isNan bits && decide (2 ^ 63 ≤ bits.toNat)

/-! ## Constants -/

def WALLET_SNAPSHOT_TYPE : Nat := 4008

def ACCOUNT_RISK_TYPE : Nat := 4007

def BINANCE_STD_UM_SCOPE : Nat := 3

def BINANCE_UNIFIED_SCOPE : Nat := 1

def OKEX_UNIFIED_SCOPE : Nat := 10

def BITGET_UNIFIED_SCOPE : Nat := 12

def BYBIT_UNIFIED_SCOPE : Nat := 13

def EVENT_HEADER_LEN : Nat := 12

def ACCOUNT_RISK_ACTUAL_EQUITY_OFFSET : Nat := 4 + 8 + 8

def ACCOUNT_RISK_MARGIN_RATIO_OFFSET : Nat := 4 + 8 + 8 * 4

/-! ## Wallets -/

structure LiveEquitySnapshot where
  source : String
  equityUsdt : ℚ
  walletBalanceUsdt : Option ℚ
  unrealizedPnlUsdt : Option ℚ
  availableBalanceUsdt : Option ℚ
  tsMs : Int
  deriving DecidableEq

structure WalletAssetSnapshot where
  asset : String
  walletBalanceUsdt : ℚ
  unrealizedPnlUsdt : ℚ
  availableBalanceUsdt : ℚ
  tsMs : Int
  deriving DecidableEq

structure WalletAssetAccumulator where
  tsMs : Option Int
  assets : OrdMap String WalletAssetSnapshot

namespace WalletAssetAccumulator

def default : WalletAssetAccumulator := { tsMs := none, assets := ∅ }

/-- The sums over the rows of one time.  They are exact, so the order of the rows, which the
hash map leaves open, does not matter. -/
def snapshotOf (rows : List WalletAssetSnapshot) (tsMs : Int) : LiveEquitySnapshot :=
  let walletBalance := (rows.map (·.walletBalanceUsdt)).sum
  let unrealizedPnl := (rows.map (·.unrealizedPnlUsdt)).sum
  let availableBalance := (rows.map (·.availableBalanceUsdt)).sum
  { source := "binance_std_um_stable_wallets"
    equityUsdt := walletBalance + unrealizedPnl
    walletBalanceUsdt := some walletBalance
    unrealizedPnlUsdt := some unrealizedPnl
    availableBalanceUsdt := some availableBalance
    tsMs }

def update (acc : WalletAssetAccumulator) (row : WalletAssetSnapshot) :
    WalletAssetAccumulator × Option LiveEquitySnapshot :=
  if acc.tsMs.any fun tsMs => decide (row.tsMs < tsMs) then (acc, none)
  else
    let assets :=
      if acc.tsMs.any fun tsMs => decide (tsMs < row.tsMs) then ∅ else acc.assets
    let acc : WalletAssetAccumulator :=
      { tsMs := some row.tsMs, assets := assets.insert row.asset row }
    -- an earlier BFUSD row waits for the USDT row of its snapshot
    if acc.assets.contains "USDT" then
      (acc, some (snapshotOf (acc.assets.toList.map Prod.snd) row.tsMs))
    else (acc, none)

end WalletAssetAccumulator

/-! ## State -/

structure SourceLiveState where
  equity : Option LiveEquitySnapshot
  accountRiskEquity : Bool
  unifiedAccount : Bool
  uniMmr : Option ℚ
  uniMmrTsMs : Option Int
  initialMarginUsd : Option ℚ
  initialMarginTsMs : Option Int
  deriving DecidableEq

namespace SourceLiveState

def default : SourceLiveState where
  equity := none
  accountRiskEquity := false
  unifiedAccount := false
  uniMmr := none
  uniMmrTsMs := none
  initialMarginUsd := none
  initialMarginTsMs := none

def applyWalletEquity (state : SourceLiveState) (snapshot : LiveEquitySnapshot) :
    SourceLiveState :=
  -- account totals stay once they have arrived
  if state.accountRiskEquity || state.equity.any fun previous => decide (snapshot.tsMs < previous.tsMs)
  then state
  else { state with equity := some snapshot }

def applyAccountEquity (state : SourceLiveState) (snapshot : LiveEquitySnapshot) :
    SourceLiveState :=
  if state.accountRiskEquity && state.equity.any fun previous => decide (snapshot.tsMs < previous.tsMs)
  then state
  else { state with accountRiskEquity := true, equity := some snapshot }

def applyUnifiedRisk (state : SourceLiveState) (tsMs : Int) (uniMmr : Option ℚ) :
    SourceLiveState :=
  if state.uniMmrTsMs.any fun previous => decide (tsMs < previous) then state
  else { state with unifiedAccount := true, uniMmr, uniMmrTsMs := some tsMs }

/-- The update of the initial margin in `apply_account_message`. -/
def applyInitialMargin (state : SourceLiveState) (tsMs : Int) (margin : Option ℚ) :
    SourceLiveState :=
  if state.initialMarginTsMs.all fun previous => decide (previous ≤ tsMs) then
    { state with initialMarginUsd := margin, initialMarginTsMs := some tsMs }
  else state

end SourceLiveState

/-! ## Decoders -/

def accountRiskBody (payload : List UInt8) (expectedScope : Nat) : Parse (List UInt8) := do
  require (decide (EVENT_HEADER_LEN ≤ payload.length))
  let eventType ← u32At payload 0
  let scope ← u32At payload 4
  require (eventType == ACCOUNT_RISK_TYPE && scope == expectedScope)
  let bodyLen ← u32At payload 8
  let tail := EVENT_HEADER_LEN + bodyLen
  require (decide (tail ≤ payload.length) && bodyLen == 4 + 8 + 8 * 8)
  let body ← range payload EVENT_HEADER_LEN tail
  let innerType ← u32At body 0
  require (innerType == ACCOUNT_RISK_TYPE)
  return body

def parseInitialMargin (payload : List UInt8) (scope : Nat) : Parse (Int × Option ℚ) := do
  let body ← accountRiskBody payload scope
  let tsBytes ← getSome body 4 12 >>= toArray 8
  let tsMs := i64FromLeBytes tsBytes
  require (decide (0 ≤ tsMs))
  let marginBytes ← getSome body 36 44 >>= toArray 8
  return (tsMs, (float64 (f64FromLeBytes marginBytes)).filter fun margin => decide (0 ≤ margin))

def parseUnifiedRisk (payload : List UInt8) (scope : Nat) : Parse (Int × Option ℚ) := do
  let body ← accountRiskBody payload scope
  require (decide (ACCOUNT_RISK_MARGIN_RATIO_OFFSET + 8 ≤ body.length))
  let tsMs ← i64At body 4
  let uniMmr ← f64At body ACCOUNT_RISK_MARGIN_RATIO_OFFSET
  require (decide (0 ≤ tsMs) && !isNan uniMmr && !isNegative uniMmr)
  -- no required maintenance margin is an infinite ratio
  return (tsMs, float64 uniMmr)

def parseAccountEquity (payload : List UInt8) (scope : Nat) (source : String) :
    Parse LiveEquitySnapshot := do
  let body ← accountRiskBody payload scope
  require (decide (ACCOUNT_RISK_ACTUAL_EQUITY_OFFSET + 8 ≤ body.length))
  let tsMs ← i64At body 4
  let equity ← f64At body ACCOUNT_RISK_ACTUAL_EQUITY_OFFSET
  require (decide (0 ≤ tsMs))
  match float64 equity with
  | none => .error .absent
  | some equityUsdt =>
    return {
      source, equityUsdt, tsMs
      walletBalanceUsdt := none, unrealizedPnlUsdt := none, availableBalanceUsdt := none }

def parseBinanceStdUmEquity (payload : List UInt8) : Parse LiveEquitySnapshot :=
  parseAccountEquity payload BINANCE_STD_UM_SCOPE "binance_std_um_account_risk"

/-- A number that must be finite. -/
def finiteAt (data : List UInt8) (a : Nat) : Parse (Option ℚ) := float64 <$> f64At data a

def parseWalletSnapshot (data : List UInt8) : Parse WalletAssetSnapshot := do
  require (decide (4 + 8 + 8 + 4 + 1 + 3 + 8 * 5 ≤ data.length))
  let msgType ← u32At data 0
  require (msgType == WALLET_SNAPSHOT_TYPE)
  let tsMs ← i64At data 4
  let assetLen ← u32At data 20
  let assetStart := 28
  let numbersStart := assetStart + assetLen
  require (decide (numbersStart + 40 ≤ data.length))
  let assetBytes ← range data assetStart numbersStart
  match Utf8.decode? assetBytes with
  | none => .error .absent
  | some text => do
    let asset := Text.toAsciiUppercase text
    require (["USDT", "BFUSD"].contains asset)
    let walletBalance ← finiteAt data (numbersStart + 8)
    let unrealizedPnl ← finiteAt data (numbersStart + 16)
    let availableBalance ← finiteAt data (numbersStart + 24)
    match walletBalance, unrealizedPnl, availableBalance with
    | some walletBalanceUsdt, some unrealizedPnlUsdt, some availableBalanceUsdt =>
      return { asset, walletBalanceUsdt, unrealizedPnlUsdt, availableBalanceUsdt, tsMs }
    | _, _, _ => .error .absent

def parseWalletAsset (payload : List UInt8) : Parse WalletAssetSnapshot := do
  require (decide (EVENT_HEADER_LEN ≤ payload.length))
  let eventType ← u32At payload 0
  require (eventType == WALLET_SNAPSHOT_TYPE)
  let scope ← u32At payload 4
  require (scope == BINANCE_STD_UM_SCOPE)
  let bodyLen ← u32At payload 8
  let tail := EVENT_HEADER_LEN + bodyLen
  require (decide (tail ≤ payload.length))
  let body ← range payload EVENT_HEADER_LEN tail
  parseWalletSnapshot body

/-! ## Scopes -/

/-- `rsplit_once`, on characters, for a separator that is not empty. -/
def rsplitOnceChars (sep : List Char) : List Char → Option (List Char × List Char)
  | [] => none
  | c :: rest =>
    match rsplitOnceChars sep rest with
    | some (before, after) => some (c :: before, after)
    | none =>
      if sep.isPrefixOf (c :: rest) then some ([], (c :: rest).drop sep.length) else none

def rapidxAccountScope (serviceName : String) : Option Nat :=
  (rsplitOnceChars "/account_pubs/".toList serviceName.toList).bind fun (_, service) =>
    if "rapidx_binance_".toList.isPrefixOf service then some BINANCE_UNIFIED_SCOPE
    else if "rapidx_okex_".toList.isPrefixOf service then some OKEX_UNIFIED_SCOPE
    else none

def unifiedScope (venue : String) : Option (Nat × String) :=
  if venue = "okex-futures" then some (OKEX_UNIFIED_SCOPE, "okex_unified_account_risk")
  else if venue = "bybit-futures" then some (BYBIT_UNIFIED_SCOPE, "bybit_unified_account_risk")
  else if venue = "bitget-futures" then some (BITGET_UNIFIED_SCOPE, "bitget_unified_account_risk")
  else none

/-- The RapidX scope of a venue. -/
def rapidxScopeOf (venue : String) : Option Nat :=
  if venue = "binance-futures" then some BINANCE_UNIFIED_SCOPE
  else if venue = "okex-futures" then some OKEX_UNIFIED_SCOPE
  else none

/-! ## Messages -/

/-- The part of `apply_account_message` that sets the equity; `none` where it returns. -/
def applyEquity (state : SourceLiveState) (wallets : WalletAssetAccumulator)
    (venue service : String) (payload : List UInt8) :
    Except Panic (Option (SourceLiveState × WalletAssetAccumulator)) := do
  match rapidxAccountScope service with
  | some scope =>
    if rapidxScopeOf venue ≠ some scope then .ok none
    else do
      let snapshot ← parsed (parseAccountEquity payload scope "rapidx_account_risk")
      return some (snapshot.elim state state.applyAccountEquity, wallets)
  | none =>
    match unifiedScope venue with
    | some (scope, label) => do
      let snapshot ← parsed (parseAccountEquity payload scope label)
      return some (snapshot.elim state state.applyAccountEquity, wallets)
    | none =>
      if venue = "binance-futures" ∨ venue = "binance-coin-futures" then do
        let row ← parsed (parseWalletAsset payload)
        let updated := row.elim (wallets, none) wallets.update
        let state := updated.2.elim state state.applyWalletEquity
        let snapshot ← parsed (parseBinanceStdUmEquity payload)
        return some (snapshot.elim state state.applyAccountEquity, updated.1)
      else .ok (some (state, wallets))

/-- `risk_scope`. -/
def riskScope (venue service : String) : Option Nat :=
  ((rapidxAccountScope service).filter fun scope => rapidxScopeOf venue == some scope).or
    (((unifiedScope venue).map Prod.fst).or
      (if venue = "binance-futures" then some BINANCE_STD_UM_SCOPE else none))

/-- A parse where there is a scope. -/
def parsedAt {α : Type} (scope : Option Nat) (parse : Nat → Parse α) : Except Panic (Option α) :=
  match scope with
  | none => .ok none
  | some scope => parsed (parse scope)

def applyAccountMessage (state : SourceLiveState) (wallets : WalletAssetAccumulator)
    (venue service : String) (payload : List UInt8) :
    Except Panic (SourceLiveState × WalletAssetAccumulator) := do
  let applied ← applyEquity state wallets venue service payload
  match applied with
  | none => .ok (state, wallets)
  | some (state, wallets) => do
    let margin ← parsedAt (riskScope venue service) (parseInitialMargin payload)
    let state := margin.elim state fun m => state.applyInitialMargin m.1 m.2
    let ratio ← parsedAt ((unifiedScope venue).map Prod.fst) (parseUnifiedRisk payload)
    return (ratio.elim state fun r => state.applyUnifiedRisk r.1 r.2, wallets)

/-- The payloads of a subscriber, one after the other. -/
def applyMessages (venue service : String) (payloads : List (List UInt8)) :
    Except Panic (SourceLiveState × WalletAssetAccumulator) :=
  payloads.foldlM (fun s payload => applyAccountMessage s.1 s.2 venue service payload)
    (.default, .default)

end CtaManager.Accounts
