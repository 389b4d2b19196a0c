import CtaManager.Catalog.Symbols
import CtaManager.Exec.OrderParameters
import CtaManager.Library.OrdMap

/-! The Exec markets of a source and the market of a symbol (`exec_routing.rs`,
`market_rules.rs`). -/

namespace CtaManager.Exec

open Check Catalog

/-- What routing reads of a source. -/
structure SourceConfig where
  id : String
  venue : String
  /-- `source_values`: the environment file of the source, as read for this call -/
  sourceValues : Except String (OrdMap String String)

inductive ExecBackend where
  | native
  | ltp
  deriving DecidableEq

/-- The `parse` closure of `execution_backend`. -/
def parseBackend (value : String) : Except String ExecBackend :=
  let value := Text.toAsciiLowercase (Text.trim value)
  if ["", "native", "exchange", "direct"].contains value then .ok .native
  else if ["ltp", "rapidx", "liquidity", "liquiditytech"].contains value then .ok .ltp
  else .error "invalid execution backend in source env"

def venueExchange : String → Except String String
  | "binance-futures" | "binance-coin-futures" | "binance-margin" => .ok "binance"
  | "okex-futures" | "okex-margin" => .ok "okex"
  | "bybit-futures" => .ok "bybit"
  | "bitget-futures" => .ok "bitget"
  | _ => .error "unsupported rule venue"

/-- One entry of the backend map, over the wildcard and the specific backend so far. -/
def mapBackend (exchange : String) (found : Option ExecBackend × Option ExecBackend)
    (entry : String) : Except String (Option ExecBackend × Option ExecBackend) :=
  match Text.splitOnce entry '=' with
  | none => .error "backend map requires exchange=backend"
  | some (key, value) => do
    let backend ← parseBackend value
    let key := Text.toAsciiLowercase (Text.trim key)
    if key = "*" then
      ensure found.1.isNone "duplicate wildcard backend mapping"
      return (some backend, found.2)
    else
      ensure (["binance", "okex", "bybit", "bitget", "gate", "hyperliquid"].contains key)
        "unknown exchange in backend map"
      if key = exchange then
        ensure found.2.isNone "duplicate exchange backend mapping"
        return (found.1, some backend)
      else return found

def executionBackend (venue : String) (values : OrdMap String String) :
    Except String ExecBackend := do
  let exchange ← venueExchange venue
  let default ← parseBackend ((values["TRADE_ENGINE_EXEC_BACKEND"]?).getD "")
  let entries := (((values["TRADE_ENGINE_EXEC_BACKEND_MAP"]?).getD "").toList.splitOn ',').map
    fun entry => Text.trim (String.ofList entry)
  let (wildcard, specific) ←
    (entries.filter (· != "")).foldlM (mapBackend exchange) (none, none)
  let backend := (specific.or wildcard).getD default
  ensure (backend == .native ||
      ["binance-futures", "okex-futures", "binance-margin", "okex-margin"].contains venue)
    ("RapidX rules are unsupported for venue " ++ venue)
  return backend

/-- `markets`: RapidX linear and native OKX unified Execs also own their USDT cash market. -/
def markets (source : SourceConfig) : Except String (List String) := do
  let values ← source.sourceValues
  let backend ← executionBackend source.venue values
  ensure (source.venue != "binance-coin-futures" || backend == .native)
    "COIN-M execution requires the native Binance backend"
  return source.venue ::
    (if source.venue = "binance-futures" ∧ backend = .ltp then ["binance-margin"]
    else if source.venue = "okex-futures" then ["okex-margin"] else [])

def isSpotTarget (symbol : String) : Bool :=
  !Text.endsWith symbol "USDT" && !Text.endsWith symbol "USDC" && !Text.endsWith symbol "USD"

variable [Text.Unicode]

/-- The match of `symbol_market`, on a normalized symbol: the first arm that applies. -/
def marketOf (configuredVenue symbol : String) : Except String String :=
  let usdt := Text.endsWith symbol "USDT"
  let usdc := Text.endsWith symbol "USDC"
  if configuredVenue = "bybit-futures" ∧ usdt then .ok "bybit-futures"
  else if configuredVenue = "bitget-futures" ∧ usdt then .ok "bitget-futures"
  else if configuredVenue = "binance-futures" ∧ (usdt || usdc) then .ok "binance-futures"
  else if configuredVenue = "binance-coin-futures" ∧ Text.endsWith symbol "USD" then do
    let _ ← binanceCoinWireSymbol symbol
    return "binance-coin-futures"
  else if configuredVenue = "okex-futures" ∧ (usdt || usdc) then .ok "okex-futures"
  else if ["binance-futures", "binance-margin"].contains configuredVenue ∧ isSpotTarget symbol then
    .ok "binance-margin"
  else if ["okex-futures", "okex-margin"].contains configuredVenue ∧ isSpotTarget symbol then
    .ok "okex-margin"
  else .error ("symbol " ++ symbol ++ " does not belong to Exec market " ++ configuredVenue ++
    "; use a separate Exec deployment for the other market")

def symbolMarket (configuredVenue symbol : String) : Except String String := do
  let symbol ← normalizeExecSymbol symbol
  marketOf configuredVenue symbol

/-- The cash market of a source takes the symbols routed to it. -/
theorem marketOf_cash {venue cash symbol market : String}
    (hcash : venue = "binance-futures" ∧ cash = "binance-margin" ∨
      venue = "okex-futures" ∧ cash = "okex-margin")
    (h : marketOf venue symbol = .ok market) : marketOf cash symbol = .ok cash ↔ market = cash := by
  by_cases hs : isSpotTarget symbol = true
  · have hu : (Text.endsWith symbol "USDT" || Text.endsWith symbol "USDC") = false := by
      simp only [isSpotTarget, Bool.and_eq_true, Bool.not_eq_true'] at hs
      simp [hs.1.1, hs.1.2]
    rcases hcash with ⟨rfl, rfl⟩ | ⟨rfl, rfl⟩
    · simp [marketOf, hs, hu] at h ⊢
      exact h.symm
    · simp [marketOf, hs, hu] at h ⊢
      exact h.symm
  · rcases hcash with ⟨rfl, rfl⟩ | ⟨rfl, rfl⟩
    · simp [marketOf, hs] at h ⊢
      grind
    · simp [marketOf, hs] at h ⊢
      grind

omit [Text.Unicode] in
/-- A source has its own market, and its cash market after it. -/
theorem markets_eq_ok {source : SourceConfig} {venues : List String}
    (h : markets source = .ok venues) :
    venues = [source.venue] ∨ ∃ cash, venues = [source.venue, cash] ∧
      (source.venue = "binance-futures" ∧ cash = "binance-margin" ∨
        source.venue = "okex-futures" ∧ cash = "okex-margin") := by
  obtain ⟨values, -, h⟩ := bind_eq_ok.1 h
  obtain ⟨backend, -, h⟩ := bind_eq_ok.1 h
  obtain ⟨-, -, h⟩ := bind_eq_ok.1 h
  cases h
  split
  · next hb => exact .inr ⟨_, rfl, .inl ⟨hb.1, rfl⟩⟩
  · split
    · next ho => exact .inr ⟨_, rfl, .inr ⟨ho, rfl⟩⟩
    · exact .inl rfl

omit [Text.Unicode] in
theorem markets_nodup {source : SourceConfig} {venues : List String}
    (h : markets source = .ok venues) : venues.Nodup := by
  rcases markets_eq_ok h with rfl | ⟨cash, rfl, ⟨hv, rfl⟩ | ⟨hv, rfl⟩⟩
  · exact List.nodup_singleton _
  · rw [hv]
    decide
  · rw [hv]
    decide

/-- Each market of a source takes exactly the symbols the source routes to it. -/
theorem symbolMarket_scoped {source : SourceConfig} {venues : List String}
    (hvenues : markets source = .ok venues) {symbol market : String}
    (h : symbolMarket source.venue symbol = .ok market) {venue : String} (hv : venue ∈ venues) :
    symbolMarket venue symbol = .ok venue ↔ market = venue := by
  obtain ⟨normalized, hn, hm⟩ := bind_eq_ok.1 h
  have hown : symbolMarket source.venue symbol = .ok source.venue ↔ market = source.venue := by
    rw [h, Except.ok.injEq]
  rcases markets_eq_ok hvenues with rfl | ⟨cash, rfl, hcash⟩
  · rw [List.mem_singleton] at hv
    subst hv
    exact hown
  · rcases List.mem_cons.1 hv with rfl | hv
    · exact hown
    · rw [List.mem_singleton] at hv
      subst hv
      have hs : symbolMarket venue symbol = marketOf venue normalized := by
        unfold symbolMarket
        rw [hn, ok_bind]
      rw [hs]
      exact marketOf_cash hcash hm

variable {F : Type}

/-- The backends and account modes that run a grid. -/
def gridAllowed (source : SourceConfig) (values : OrdMap String String) : ExecBackend → Bool
  | .ltp => ["binance-futures", "okex-futures"].contains source.venue
  | .native =>
    let mode := (values["BINANCE_ACCOUNT_MODE"]?).map Text.trim
    if source.venue = "binance-futures" then
      mode.any fun mode =>
        Text.eqIgnoreAsciiCase mode "STANDARD" || Text.eqIgnoreAsciiCase mode "UNIFIED"
    else if source.venue = "binance-coin-futures" then
      mode.any fun mode => Text.eqIgnoreAsciiCase mode "UNIFIED"
    else ["okex-futures", "bybit-futures", "bitget-futures"].contains source.venue

def validateGridAccount (source : SourceConfig) (parameters : OrderParameters F)
    (overrides : OrdMap String (OrderParameters F)) : Except String Unit :=
  if (parameters :: overrides.toList.map Prod.snd).any fun p => p.algorithm == .grid then do
    let values ← source.sourceValues
    let backend ← executionBackend source.venue values
    ensure (gridAllowed source values backend)
      ("Grid requires RapidX, native Binance USD-M, or a supported native unified account: " ++
        source.id)
  else .ok ()

end CtaManager.Exec
