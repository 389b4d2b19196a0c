import CtaManager.Library.Check
import CtaManager.Library.SlidingWindow
import CtaManager.Text

/-!
The egress limiter of the treasury (`treasury_rate_limit.rs`).

An `Instant` is a number of nanoseconds; `duration_since` is the truncated
difference.  The last instant the clock can represent is a parameter.
-/

namespace CtaManager.Treasury

open Check

/-! ## Endpoints -/

inductive Method
  | get
  | post
  | other (name : String)
  deriving DecidableEq, Repr

inductive Pool
  | futures
  | spot
  | sapiIp
  | sapiAccount
  deriving DecidableEq, Repr

namespace Pool

def limit : Pool → Nat
  | futures => 1800
  | spot => 4500
  | sapiIp => 4500
  | sapiAccount => 6000

def header : Pool → String
  | futures | spot => "x-mbx-used-weight-1m"
  | sapiIp => "x-sapi-used-ip-weight-1m"
  | sapiAccount => "x-sapi-used-uid-weight-1m"

end Pool

/-- The refusals, `NotSent` or not. -/
inductive LimitError
  | coolingDown
  | noConfiguredWeight (path : String)
  | quoteBudgetExhausted
  | earnWriteCooldown
  | weightBudgetExhausted (method : Method) (path : String) (pool : Pool)
      (used weight headroom limit : Nat)
  deriving DecidableEq, Repr

/-- `cost`: the pool and the weight of a request. -/
def cost (method : Method) (path : String) : Except LimitError (Pool × Nat) :=
  match path with
  | "/api/v3/account" => .ok (.spot, 20)
  | "/api/v3/ticker/price" => .ok (.spot, 2)
  | "/fapi/v2/account" => .ok (.futures, 5)
  | "/fapi/v1/feeBurn" => .ok (.futures, 1)
  | "/fapi/v1/convert/exchangeInfo" => .ok (.futures, 20)
  | "/fapi/v1/convert/getQuote" | "/fapi/v1/convert/orderStatus" => .ok (.futures, 50)
  | "/fapi/v1/convert/acceptQuote" => .ok (.futures, 200)
  | "/sapi/v1/convert/exchangeInfo" => .ok (.sapiIp, 3000)
  | "/sapi/v1/convert/getQuote" => .ok (.sapiAccount, 200)
  | "/sapi/v1/convert/acceptQuote" => .ok (.sapiAccount, 500)
  | "/sapi/v1/convert/orderStatus" => .ok (.sapiAccount, 100)
  | "/sapi/v1/asset/transfer" =>
    if method = .get then .ok (.sapiIp, 1) else .ok (.sapiAccount, 900)
  | "/sapi/v1/bfusd/quota" | "/sapi/v1/bfusd/subscribe" => .ok (.sapiIp, 150)
  | "/sapi/v1/simple-earn/flexible/position" | "/sapi/v1/simple-earn/flexible/list"
  | "/sapi/v1/simple-earn/flexible/personalLeftQuota" => .ok (.sapiIp, 150)
  | "/sapi/v1/simple-earn/flexible/history/redemptionRecord"
  | "/sapi/v1/simple-earn/flexible/history/subscriptionRecord" => .ok (.sapiIp, 150)
  | "/sapi/v1/simple-earn/flexible/subscribe" | "/sapi/v1/simple-earn/flexible/redeem" =>
    .ok (.sapiIp, 1)
  | path => .error (.noConfiguredWeight path)

/-! ## Windows -/

/-- `u32::MAX`. -/
def maxU32 : Nat := 4294967295

/-- `u32::saturating_add`. -/
def saturatingAdd (a b : Nat) : Nat := min (a + b) maxU32

/-- `Duration::from_secs`. -/
def seconds (n : Nat) : Nat := n * 1000000000

structure Window where
  reservations : List (Nat × Nat)
  observations : List (Nat × Nat)
  deriving DecidableEq

namespace Window

def empty : Window := { reservations := [], observations := [] }

/-- The entries younger than a minute. -/
def prune (window : Window) (now : Nat) : Window :=
  { reservations := window.reservations.filter fun p => decide (now - p.1 < seconds 60)
    observations := window.observations.filter fun p => decide (now - p.1 < seconds 60) }

/-- The weight in use: what was reserved, or what a response reported with what was
reserved after it. -/
def weight (window : Window) : Nat :=
  let local_ := (window.reservations.map Prod.snd).sum
  let external := window.observations.map fun (at_, used) =>
    saturatingAdd used ((window.reservations.filter fun p => decide (at_ < p.1)).map Prod.snd).sum
  max local_ (external.foldl max 0)

/-- `used`: prune, then sum up. -/
def used (window : Window) (now : Nat) : Window × Nat :=
  (window.prune now, (window.prune now).weight)

end Window

/-! ## State -/

structure State where
  /-- A pool without an entry has an empty window. -/
  windows : Pool → Window
  cooldown : Option Nat
  lastEarnWrite : Option Nat
  futuresQuotes : List Nat

/-- The status and the headers of a response that the limiter reads; a header is its
first value, when that is visible ASCII. -/
structure Response where
  status : Nat
  headers : String → Option String

/-- `str::parse` of an unsigned integer up to `bound`. -/
def parseUnsigned (bound : Nat) (s : String) : Option Nat :=
  let digits := match s.toList with
    | '+' :: rest => rest
    | l => l
  if digits.isEmpty || !digits.all Text.isAsciiDigit then none
  else
    let value := digits.foldl (fun n c => n * 10 + (c.toNat - 48)) 0
    if value ≤ bound then some value else none

/-- `u64::MAX`. -/
def maxU64 : Nat := 18446744073709551615

namespace State

/-- `State::default`. -/
def init : State :=
  { windows := fun _ => .empty, cooldown := none, lastEarnWrite := none, futuresQuotes := [] }

def setWindow (state : State) (pool : Pool) (window : Window) : State :=
  { state with windows := Function.update state.windows pool window }

def ready (state : State) (now : Nat) : Except LimitError Unit :=
  ensure (!state.cooldown.any fun at_ => decide (now < at_)) .coolingDown

/-- `path == "/fapi/v1/convert/getQuote"`. -/
def isQuote (path : String) : Bool := path == "/fapi/v1/convert/getQuote"

/-- A Simple Earn write. -/
def isEarnWrite (method : Method) (path : String) : Bool :=
  decide (method = .post) && Text.startsWith path "/sapi/v1/simple-earn/"

/-- Room to accept a ten-second quote without a rate-limit wait. -/
def headroom (path : String) : Nat :=
  match path with
  | "/fapi/v1/convert/getQuote" => 200
  | "/sapi/v1/convert/getQuote" => 500
  | _ => 0

/-- `reserve`.  A refusal keeps what was pruned up to it. -/
def reserve (state : State) (method : Method) (path : String) (now : Nat) :
    State × Except LimitError Unit :=
  match state.ready now with
  | .error e => (state, .error e)
  | .ok () =>
  match cost method path with
  | .error e => (state, .error e)
  | .ok (pool, weight) =>
    let futuresQuotes :=
      state.futuresQuotes.filter fun at_ => decide (now - at_ < seconds 86400)
    let state := { state with futuresQuotes }
    if isQuote path && (decide (500 ≤ futuresQuotes.length) ||
        decide (360 ≤ (futuresQuotes.filter fun at_ => decide (now - at_ < seconds 3600)).length)) then
      (state, .error .quoteBudgetExhausted)
    else if isEarnWrite method path &&
        state.lastEarnWrite.any fun at_ => decide (now - at_ < seconds 3) then
      (state, .error .earnWriteCooldown)
    else
      let window := ((state.windows pool).used now).1
      let used := ((state.windows pool).used now).2
      let state := state.setWindow pool window
      if decide (pool.limit < saturatingAdd (saturatingAdd used weight) (headroom path)) then
        (state, .error (.weightBudgetExhausted method path pool used weight (headroom path) pool.limit))
      else
        ({ state.setWindow pool { window with reservations := window.reservations ++ [(now, weight)] } with
            futuresQuotes := if isQuote path then futuresQuotes ++ [now] else futuresQuotes
            lastEarnWrite := if isEarnWrite method path then some now else state.lastEarnWrite },
          .ok ())

/-- `status == 429 || status == 418`. -/
def throttled (status : Nat) : Bool := status == 429 || status == 418

/-- The instant a throttled response asks to wait for.  An instant the clock cannot
represent falls back to three days. -/
def retryUntil (maxInstant : Nat) (response : Response) (now : Nat) : Nat :=
  let default := if response.status == 418 then 180 else 60
  let wait := max (((response.headers "retry-after").bind (parseUnsigned maxU64)).getD default) 1
  if now + seconds wait ≤ maxInstant then now + seconds wait else now + seconds (86400 * 3)

/-- The reported weight.  Each observation expires on its own: a lower or late one
cannot refresh an older high-water mark. -/
def observeUsage (state : State) (pool : Pool) (response : Response) (now : Nat) : State :=
  match (response.headers pool.header).bind (parseUnsigned maxU32) with
  | some weight =>
    let window := state.windows pool
    state.setWindow pool { window with
      observations := (window.observations.filter fun p => decide (now - p.1 < seconds 60)) ++
        [(now, weight)] }
  | none => state

/-- The cooldown of a throttled response. -/
def observeThrottle (maxInstant : Nat) (state : State) (response : Response) (now : Nat) : State :=
  if throttled response.status then
    let until_ := retryUntil maxInstant response now
    { state with
      cooldown := some (match state.cooldown with | none => until_ | some old => max old until_) }
  else state

/-- `observe`. -/
def observe (maxInstant : Nat) (state : State) (method : Method) (path : String)
    (response : Response) (now : Nat) : State × Except LimitError Unit :=
  match cost method path with
  | .error e => (state, .error e)
  | .ok (pool, _) =>
    ((state.observeUsage pool response now).observeThrottle maxInstant response now, .ok ())

end State

end CtaManager.Treasury
