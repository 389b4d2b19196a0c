import CtaManager.Library.Binary64
import CtaManager.Library.Check
import CtaManager.Library.Interaction
import CtaManager.Library.OrdMap
import CtaManager.Library.PaddedDecimal

/-!
Automatic BFUSD (`bfusd_auto.rs`).

A round asks the exchange and writes the settings; both may fail at every question (`Op`).  The
settings of all accounts are one document: `memory` is what the process holds, `file` what the next
start reads.  Durations are left out: that a round is due is an answer.  A response is what the code
reads of it, and a message is the value it is made of.  Amounts are binary64 numbers, and every
operation on them is rounded; where one overflows in the source, the round is skipped as it is here.
-/

namespace CtaManager.Treasury

open Check Program

structure AccountSettings where
  enabled : Bool
  intervalSecs : Nat
  roundCapUsdt : ℚ
  triggerUsdt : ℚ
  reserveUsdt : ℚ
  paused : Bool
  deriving DecidableEq

def AccountSettings.default : AccountSettings where
  enabled := false
  intervalSecs := 3600
  roundCapUsdt := 5000
  triggerUsdt := 100
  reserveUsdt := 0
  paused := false

/-- The accounts of `DiskSettings`. -/
abbrev Accounts := OrdMap String AccountSettings

def settingsOf (accounts : Accounts) (sourceId : String) : AccountSettings :=
  (accounts[sourceId]?).getD .default

structure Source where
  id : String
  venue : String
  enabled : Bool

/-! ## Responses -/

/-- A JSON field: a string, a number, or something else. -/
inductive Field where
  | text (text : String)
  | number (value : ℚ)
  | other
  deriving DecidableEq

structure Asset where
  asset : Option String
  walletBalance : Option Field
  maxWithdrawAmount : Option Field
  free : Option Field
  deriving DecidableEq

/-- `/fapi/v2/account`. -/
structure FuturesAccount where
  multiAssetsMargin : Option Bool
  assets : Option (List Asset)
  totalMarginBalance : Option Field
  totalMaintMargin : Option Field
  deriving DecidableEq

/-- `balances` of `/api/v3/account`. -/
structure SpotAccount where
  balances : Option (List Asset)
  deriving DecidableEq

/-- `/sapi/v1/bfusd/quota`: its `subscriptionQuota`, and there the `leftQuota`. -/
structure Quota where
  subscriptionQuota : Option (Option Field)
  deriving DecidableEq

/-- The body of a successful POST. -/
structure Posted where
  tranId : Option Nat
  success : Option Bool
  bfusdAmount : Option String
  deriving DecidableEq

/-- The POSTs: the sweep of spot BFUSD, and the three of a subscription. -/
inductive Post where
  | sweep (amount : String)
  | outbound (amount : String)
  | purchase (amount : String)
  | inbound (amount : String)
  deriving DecidableEq

inductive Op where
  /-- the settings in memory -/
  | settings
  /-- `persist`, and the memory rolled back where it fails -/
  | persist (accounts : Accounts)
  | due (sourceId : String)
  /-- `BINANCE_ACCOUNT_MODE` of the environment file -/
  | mode (sourceId : String)
  /-- the egress of the round and the client on it -/
  | connect (sourceId : String)
  | futuresAccount (sourceId : String)
  | spotAccount (sourceId : String)
  | quota (sourceId : String)
  | reservePost (path : String)
  | post (sourceId : String) (request : Post)

abbrev Op.Reply : Op → Type
  | .settings => Accounts
  | .persist _ => Unit
  | .due _ => Bool
  | .mode _ => Option String
  | .connect _ => String
  | .futuresAccount _ => FuturesAccount
  | .spotAccount _ => SpotAccount
  | .quota _ => Quota
  | .reservePost _ => Unit
  | .post _ _ => Posted

abbrev Round (α : Type) := Fallible Op Op.Reply String α

/-- What a round reports. -/
inductive Summary where
  | notDue
  | transferred (amount : String) (tranId : Nat)
  | belowTrigger (wallet reserve withdrawable : ℚ)
  | noHeadroom
  | belowQuota
  | subscribed (amount bfusd ip : String) (fee : ℚ)
  | both (sweep subscription : Summary)

/-! ## Settings -/

def validateSettings (settings : AccountSettings) : Except String Unit := do
  ensure (decide (60 ≤ settings.intervalSecs) && decide (settings.intervalSecs ≤ 86400))
    "interval must be between 60 and 86400 seconds"
  ensure (decide (1 ≤ settings.roundCapUsdt) && decide (settings.roundCapUsdt ≤ 1000000))
    "round cap must be between 1 and 1000000 USDT"
  ensure (decide (0 ≤ settings.triggerUsdt) && decide (settings.triggerUsdt ≤ 1000000))
    "trigger must be between 0 and 1000000 USDT"
  ensure (decide (0 ≤ settings.reserveUsdt)) "reserve must be a finite nonnegative USDT amount"

/-- `save`: the pause of the account stays. -/
def save (sourceId : String) (settings : AccountSettings) : Round Unit := do
  ExceptT.mk (pure (validateSettings settings))
  let accounts : Accounts ← request Op.settings
  let paused := (accounts[sourceId]?).any AccountSettings.paused
  request (Op.persist (accounts.insert sourceId { settings with paused }))

def setPaused (sourceId : String) (paused : Bool) : Round Unit := do
  let accounts : Accounts ← request Op.settings
  request (Op.persist (accounts.insert sourceId { settingsOf accounts sourceId with paused }))

def resume (sourceId : String) : Round Unit := setPaused sourceId false

/-! ## Numbers -/

section

-- `str::parse::<f64>`: no number, one that is not finite, or its value
variable (parse : String → Option (Option ℚ))

/-- `ParseFloatError`. -/
def parseError (text : String) : String :=
  if text = "" then "cannot parse float from empty string" else "invalid float literal"

def finiteNumber (field : Option Field) (key : String) : Except String ℚ :=
  match field with
  | none => .error ("Binance field " ++ key ++ " missing")
  | some (.text text) =>
    match parse text with
    | none => .error (parseError text)
    | some none => .error ("Binance field " ++ key ++ " is invalid")
    | some (some value) => .ok value
  | some (.number value) => .ok value
  | some .other => .error ("Binance field " ++ key ++ " is not numeric")

def number (field : Option Field) (key : String) : Except String ℚ := do
  let amount ← finiteNumber parse field key
  ensure (decide (0 ≤ amount)) ("Binance field " ++ key ++ " is invalid")
  return amount

def MIN_SPOT_BFUSD_TRANSFER : ℚ := Binary64.round (1 / 10000)

def spotBfusdTransferAmount (account : SpotAccount) : Except String (Option String) :=
  match account.balances with
  | none => .error "Binance spot account balances missing"
  | some balances =>
    match balances.find? fun asset => asset.asset == some "BFUSD" with
    | none => .ok none
    | some asset => do
      let free ← number parse asset.free "free"
      if free < MIN_SPOT_BFUSD_TRANSFER then return none
      else
        match asset.free with
        | some (.text amount) => return some amount
        | _ => .error "Binance spot BFUSD free balance is not a decimal string"

/-- The difference from which on a fee was taken. -/
def FEE_TOLERANCE : ℚ := Binary64.round (5 / 1000000000)

def subscriptionFee (spentUsdt receivedBfusd : String) : Except String ℚ :=
  match parse spentUsdt with
  | none => .error (parseError spentUsdt)
  | some spent =>
    match parse receivedBfusd with
    | none => .error (parseError receivedBfusd)
    | some received =>
      match spent, received with
      | some spent, some received =>
        if received ≤ 0 then .error "BFUSD subscription returned invalid bfusdAmount"
        else
          let difference := Binary64.sub spent received
          if difference < -FEE_TOLERANCE then
            .error "BFUSD subscription returned more BFUSD than USDT spent"
          else .ok (if FEE_TOLERANCE < difference then difference else 0)
      | _, _ => .error "BFUSD subscription returned invalid bfusdAmount"

/-- An amount in whole cents. -/
def inCents (usdt : ℚ) : Int := ⌊Binary64.mul usdt 100⌋

/-- `margin - maintenance * 3.0`. -/
def headroomOf (margin maintenance : ℚ) : ℚ :=
  Binary64.sub margin (Binary64.mul maintenance 3)

def roundAmountCents (wallet withdrawable margin maintenance quota cap reserve : ℚ) : Int :=
  let marginHeadroom := max (headroomOf margin maintenance) 0
  let excess := max (Binary64.sub wallet reserve) 0
  inCents (min (min (min (min excess withdrawable) marginHeadroom) quota) cap)

example : inCents (Binary64.round (5001 / 100)) = 5001 := by decide +kernel

/-- `format!("{}.{:02}", cents / 100, cents % 100)`, of a positive amount. -/
def amountText (cents : Int) : String :=
  toString (cents.toNat / 100) ++ "." ++ PaddedDecimal.pad 2 (cents.toNat % 100)

/-! ## The round -/

def sweepSpotBfusd (source : Source) : Round (Option Summary) := do
  let spot : SpotAccount ← request (Op.spotAccount source.id)
  match spotBfusdTransferAmount parse spot with
  | .error e => throw e
  | .ok none => return none
  | .ok (some amount) =>
    request (Op.reservePost "/sapi/v1/asset/transfer")
    setPaused source.id true
    let transfer : Posted ← request (Op.post source.id (.sweep amount))
    match transfer.tranId with
    | none => throw "spot BFUSD transfer did not return tranId"
    | some tranId =>
      setPaused source.id false
      return some (.transferred amount tranId)

/-- The three POSTs of a subscription. -/
def subscribe (source : Source) (ip amount : String) : Round Summary := do
  request (Op.reservePost "/sapi/v1/asset/transfer")
  request (Op.reservePost "/sapi/v1/bfusd/subscribe")
  request (Op.reservePost "/sapi/v1/asset/transfer")
  setPaused source.id true
  let _ : Posted ← request (Op.post source.id (.outbound amount))
  let subscription : Posted ← request (Op.post source.id (.purchase amount))
  if subscription.success ≠ some true then
    throw "BFUSD subscription did not report success; reconcile before resuming"
  else
    match subscription.bfusdAmount with
    | none => throw "BFUSD subscription did not return bfusdAmount"
    | some bfusd =>
      match subscriptionFee parse amount bfusd with
      | .error e => throw e
      | .ok fee =>
        let _ : Posted ← request (Op.post source.id (.inbound bfusd))
        if 0 < fee then return .subscribed amount bfusd ip fee
        else
          setPaused source.id false
          return .subscribed amount bfusd ip 0

/-- The balances of a futures account that a subscription depends on. -/
structure Funds where
  wallet : ℚ
  withdrawable : ℚ
  deriving DecidableEq

def usdtFunds (account : FuturesAccount) : Except String Funds :=
  match account.assets.bind fun assets => assets.find? fun asset => asset.asset == some "USDT" with
  | none => .error "USDT asset missing from Binance account"
  | some usdt => do
    let wallet ← finiteNumber parse usdt.walletBalance "walletBalance"
    let withdrawable ← number parse usdt.maxWithdrawAmount "maxWithdrawAmount"
    return { wallet, withdrawable }

def marginOf (account : FuturesAccount) : Except String (ℚ × ℚ) := do
  let margin ← number parse account.totalMarginBalance "totalMarginBalance"
  let maintenance ← number parse account.totalMaintMargin "totalMaintMargin"
  return (margin, maintenance)

def leftQuota (quota : Quota) : Except String ℚ :=
  match quota.subscriptionQuota with
  | none => .error "BFUSD subscription quota missing"
  | some left => number parse left "leftQuota"

def subscribeFuturesUsdt (source : Source) (settings : AccountSettings) (account : FuturesAccount)
    (ip : String) : Round Summary := do
  let funds ← ExceptT.mk (pure (usdtFunds parse account))
  let excess := max (Binary64.sub funds.wallet settings.reserveUsdt) 0
  if min excess funds.withdrawable ≤ settings.triggerUsdt then
    return .belowTrigger funds.wallet settings.reserveUsdt funds.withdrawable
  else
    let margins ← ExceptT.mk (pure (marginOf parse account))
    if headroomOf margins.1 margins.2 ≤ settings.triggerUsdt then return .noHeadroom
    else
      let quota : Quota ← request (Op.quota source.id)
      let left ← ExceptT.mk (pure (leftQuota parse quota))
      let cents := roundAmountCents funds.wallet funds.withdrawable margins.1 margins.2 left
        settings.roundCapUsdt settings.reserveUsdt
      if cents < 100 ∨ Binary64.div cents 100 ≤ settings.triggerUsdt then return .belowQuota
      else subscribe parse source ip (amountText cents)

/-- Both parts of a round: the error of the second part says that the first one is done. -/
def report (swept : Option Summary) : Except String Summary → Except String Summary
  | .ok subscription =>
    match swept with
    | some sweep => .ok (.both sweep subscription)
    | none => .ok subscription
  | .error e =>
    match swept with
    | some _ => .error ("USDT round failed: " ++ e)
    | none => .error e

def isStandard (mode : String) : Bool := ["standard", "std"].contains mode.toLower

def execute (source : Source) (settings : AccountSettings) : Round Summary := do
  ExceptT.mk (pure (validateSettings settings))
  if source.venue ≠ "binance-futures" then
    throw "automatic BFUSD requires a Binance futures source"
  else
    let mode : Option String ← request (Op.mode source.id)
    if ¬isStandard (mode.getD "") then
      throw "automatic BFUSD requires a Binance STANDARD account"
    else
      let ip : String ← request (Op.connect source.id)
      let account : FuturesAccount ← request (Op.futuresAccount source.id)
      if account.multiAssetsMargin ≠ some true then
        throw "Binance Multi-Assets Mode must be enabled for BFUSD collateral"
      else
        let swept ← sweepSpotBfusd parse source
        ExceptT.mk (report swept <$> (subscribeFuturesUsdt parse source settings account ip).run)

def run (source : Source) (manual : Bool) : Round Summary := do
  let accounts : Accounts ← request Op.settings
  let settings := settingsOf accounts source.id
  if !source.enabled || !settings.enabled || settings.paused then
    throw "automatic BFUSD is disabled or paused for this account"
  else
    if manual then execute parse source settings
    else
      let due : Bool ← request (Op.due source.id)
      if !due then return .notDue else execute parse source settings

end

end CtaManager.Treasury
