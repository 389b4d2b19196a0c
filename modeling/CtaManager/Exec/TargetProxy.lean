import CtaManager.Catalog.PositionStrategy
import CtaManager.Exec.Routing
import CtaManager.Funding.Income

/-! Projection of an account's targets into native Bybit contracts, and of cross-spread
targets into the leg of one venue (`target_proxy.rs`, `market_rules.rs`). -/

namespace CtaManager.Exec

open Check Catalog

/-! ## Market rules -/

structure MarketRule where
  status : String
  baseAsset : String
  quoteAsset : String
  priceTick : String
  qtyStep : String
  minQty : String
  minNotional : Option String
  contractMultiplier : Option String

structure MarketRulesSnapshot where
  venue : String
  executionBackend : String
  portfolioId : Option String
  fetchedAtUs : Int
  symbols : OrdMap String MarketRule

def validatePortfolio (id : String) : Except String Unit :=
  ensure (id != "" && decide (id.utf8ByteSize ≤ 64) && id.toList.all Text.isAsciiDigit)
    "invalid RapidX portfolio identity"

/-- The greatest magnitude that rounds to the `f64` zero. -/
def underflowMagnitude : ℚ := 1 / 2 ^ 1075

def validatePositiveDecimal (symbol field value : String) : Except String Unit :=
  match Funding.parseDecimal value with
  | none => .error ("market-rules " ++ field ++ " is not a decimal: " ++ symbol ++ "=" ++ value)
  | some parsed =>
    let positive := match parsed with
      | .number v => decide (underflowMagnitude < v ∧ v < Funding.overflowMagnitude)
      | _ => false
    ensure positive ("market-rules " ++ field ++ " must be positive: " ++ symbol ++ "=" ++ value)

def validateOptionalDecimal (symbol field : String) : Option String → Except String Unit
  | some value => validatePositiveDecimal symbol field value
  | none => .ok ()

/-- The match on the backend and the portfolio in `MarketRulesSnapshot::validate`. -/
def validateRulesScope (venue : String) : String × Option String → Except String Unit
  | ("native", none) => .ok ()
  | ("ltp", some id) =>
    if ["binance-futures", "okex-futures", "binance-margin", "okex-margin"].contains venue then
      validatePortfolio id
    else .error "invalid market-rules backend/account scope"
  | _ => .error "invalid market-rules backend/account scope"

section

variable [Text.Unicode]

def validateRule (symbol : String) (rule : MarketRule) : Except String Unit := do
  ensure (symbol != "" && Text.Unicode.toUppercase symbol == symbol)
    ("market-rules symbol is not normalized: " ++ symbol)
  ensure (Text.trim rule.status != "" && Text.trim rule.baseAsset != "" &&
    Text.trim rule.quoteAsset != "") ("market-rules identity fields are empty: " ++ symbol)
  validatePositiveDecimal symbol "price_tick" rule.priceTick
  validatePositiveDecimal symbol "qty_step" rule.qtyStep
  validatePositiveDecimal symbol "min_qty" rule.minQty
  validateOptionalDecimal symbol "min_notional" rule.minNotional
  validateOptionalDecimal symbol "contract_multiplier" rule.contractMultiplier

def MarketRulesSnapshot.validate (snapshot : MarketRulesSnapshot) : Except String Unit := do
  validateRulesScope snapshot.venue (snapshot.executionBackend, snapshot.portfolioId)
  ensure (["binance-futures", "binance-coin-futures", "okex-futures", "binance-margin",
      "okex-margin", "bybit-futures", "bitget-futures"].contains snapshot.venue)
    ("unsupported market-rules venue: " ++ snapshot.venue)
  ensure (decide (0 < snapshot.fetchedAtUs)) "market-rules fetched_at_us must be positive"
  ensure (!snapshot.symbols.isEmpty)
    ("market-rules snapshot is empty for venue " ++ snapshot.venue)
  snapshot.symbols.toList.forM fun (symbol, rule) => validateRule symbol rule

end

/-! ## The configuration -/

structure ContractMapping (F : Type) where
  symbol : String
  /-- Units of the same underlying asset represented by one incoming qty. -/
  sourceContractMultiplier : F
  /-- Units of that underlying asset represented by one destination qty. -/
  targetContractMultiplier : F

structure TargetProxyConfig (F : Type) where
  symbolMappings : OrdMap String (ContractMapping F)

/-- What target projection reads of a source. -/
structure ProxySource (F : Type) extends SourceConfig where
  targetProxy : Option (TargetProxyConfig F)

variable {F : Type} [F64 F] [Text.Unicode]

omit [F64 F] in
def isUsdtContract (symbol : String) : Bool :=
  decide (4 < symbol.utf8ByteSize) && Text.endsWith symbol "USDT" &&
    Text.Unicode.toUppercase symbol == symbol && (validateExecSymbol symbol).toOption.isSome

/-- One mapping of `TargetProxyConfig::validate`, over the destinations so far. -/
def validateMapping (destinations : OrdSet String) (entry : String × ContractMapping F) :
    Except String (OrdSet String) := do
  let (input, mapping) := entry
  [input, mapping.symbol].forM fun symbol =>
    ensure (isUsdtContract symbol)
      ("target_proxy mapping requires a normalized USDT contract: " ++ symbol)
  [mapping.sourceContractMultiplier, mapping.targetContractMultiplier].forM fun multiplier =>
    ensure (isPositive multiplier)
      "target_proxy contract multipliers must be finite and positive"
  ensure (isPositive (mapping.sourceContractMultiplier / mapping.targetContractMultiplier))
    "target_proxy contract multiplier ratio is out of range"
  ensure (!destinations.contains mapping.symbol)
    ("target_proxy has duplicate destination: " ++ mapping.symbol)
  return destinations.insert mapping.symbol

def TargetProxyConfig.validate (config : TargetProxyConfig F) (venue : String) :
    Except String Unit := do
  ensure (venue == "bybit-futures") "target_proxy requires a Bybit USDT perpetual source"
  let _ ← config.symbolMappings.toList.foldlM validateMapping ∅

/-! ## The projection -/

structure MatchedContract (F : Type) where
  symbol : String
  sourceContractMultiplier : F
  targetContractMultiplier : F
  quantityMultiplier : F

/-- Targets already include shares. -/
structure TargetProjection (F : Type) where
  rulesFetchedAtUs : Int
  targets : OrdMap String (TargetPosition F)
  matched : OrdMap String (MatchedContract F)
  filtered : OrdMap String String

omit [F64 F] [Text.Unicode] in
/-- The values of the matched inputs, at their destinations. -/
def TargetProjection.remap {V : Type} (p : TargetProjection F) (values : OrdMap String V) :
    OrdMap String V :=
  (p.matched.toList.filterMap fun (input, mapping) =>
    (values[input]?).map fun value => (mapping.symbol, value)).foldl
      (fun remapped e => remapped.insert e.1 e.2) ∅

def MAX_RULE_AGE_US : Int := 180000000

def validateCacheTime (fetchedAtUs nowUs : Int) : Except String Unit := do
  let age := nowUs - fetchedAtUs
  ensure (decide (-9223372036854775808 ≤ age ∧ age ≤ 9223372036854775807))
    "invalid target_proxy cache timestamp"
  ensure (decide (0 < fetchedAtUs ∧ 0 ≤ age ∧ age ≤ MAX_RULE_AGE_US))
    "Bybit target_proxy market-rules cache is stale or from the future; retry after refresh"

omit [F64 F] [Text.Unicode] in
def TargetProjection.ensureFresh (p : TargetProjection F) (nowUs : Int) : Except String Unit :=
  validateCacheTime p.rulesFetchedAtUs nowUs

omit [Text.Unicode] in
def validateNonnegativeMultiplier (value : F) (field : String) : Except String Unit :=
  ensure (F64.isFinite value && !decide (value < 0)) (field ++ " must be finite and non-negative")

def validateTargetSymbol (source : ProxySource F) (symbol : String) : Except String Unit :=
  if symbol.toList.contains ':' then do
    validateTarget symbol
    ensure (source.targetProxy.isNone &&
        ["okex-futures", "binance-futures"].contains source.venue)
      "cross spread requires an OKX or Binance linear Exec source"
  else if source.targetProxy.isSome then validateExecSymbol symbol
  else do
    let _ ← symbolMarket source.venue symbol

omit [F64 F] [Text.Unicode] in
def TargetProjection.filter (p : TargetProjection F) (input reason : String) :
    TargetProjection F :=
  { p with filtered := p.filtered.insert input reason }

omit [F64 F] [Text.Unicode] in
def TargetProjection.place (p : TargetProjection F) (input : String)
    (contract : MatchedContract F) (destination : TargetPosition F) : TargetProjection F :=
  { p with
    targets := p.targets.insert contract.symbol destination
    matched := p.matched.insert input contract }

/-- One target of `project_cross_spread`. -/
def crossSpreadTarget (source : ProxySource F) (shares : F) (p : TargetProjection F)
    (entry : String × TargetPosition F) : Except String (TargetProjection F) := do
  let (key, target) := entry
  validateTargetSymbol source key
  match Text.splitOnce key ':' with
  | none => .error "cross spread requires qualified targets"
  | some (venue, symbol) =>
    if venue != source.venue then
      return p.filter key "owned by the other exchange leg"
    else do
      let qty := if target.clear || shares == 0 then 0 else target.qty * shares
      ensure (F64.isFinite qty) "cross spread target quantity overflow"
      ensure (shares == 0 || target.qty == 0 || qty != 0) "cross spread target quantity underflow"
      return p.place key
        { symbol, sourceContractMultiplier := 1, targetContractMultiplier := 1,
          quantityMultiplier := 1 }
        { target with qty }

def projectCrossSpread (source : ProxySource F) (targets : OrdMap String (TargetPosition F))
    (shares : F) (nowUs : Int) : Except String (TargetProjection F) := do
  validateTargets targets
  validateNonnegativeMultiplier shares "shares"
  targets.toList.foldlM (crossSpreadTarget source shares)
    { rulesFetchedAtUs := nowUs, targets := ∅, matched := ∅, filtered := ∅ }

/-- The contract of an input: by its mapping, or by its own name one to one. -/
def TargetProxyConfig.contract (config : TargetProxyConfig F) (input : String) :
    MatchedContract F :=
  let mapping := config.symbolMappings[input]?
  let sourceMultiplier := mapping.elim 1 (·.sourceContractMultiplier)
  let targetMultiplier := mapping.elim 1 (·.targetContractMultiplier)
  { symbol := mapping.elim input (·.symbol)
    sourceContractMultiplier := sourceMultiplier
    targetContractMultiplier := targetMultiplier
    quantityMultiplier := sourceMultiplier / targetMultiplier }

/-- One target of `project`. -/
def projectTarget (config : TargetProxyConfig F) (snapshot : MarketRulesSnapshot) (shares : F)
    (p : TargetProjection F) (entry : String × TargetPosition F) :
    Except String (TargetProjection F) := do
  let (input, target) := entry
  if !isUsdtContract input then return p.filter input "not a USDT perpetual target"
  else
    let contract := config.contract input
    match snapshot.symbols[contract.symbol]? with
    | none => return p.filter input "symbol absent from Bybit cache"
    | some rule =>
      if rule.status != "Trading" || rule.quoteAsset != "USDT" then
        return p.filter input ("Bybit contract is not tradable: " ++ rule.status)
      else do
        let qty := if shares == 0 || target.clear then 0
          else target.qty * contract.quantityMultiplier * shares
        ensure (F64.isFinite qty) ("target_proxy quantity overflow: " ++ input)
        ensure (target.qty == 0 || shares == 0 || qty != 0)
          ("target_proxy quantity underflow: " ++ input)
        ensure (!p.targets.contains contract.symbol)
          ("target_proxy inputs collide at destination " ++ contract.symbol ++
            "; publish a single unambiguous target")
        return p.place input contract { target with qty }

def project (config : TargetProxyConfig F) (snapshot : MarketRulesSnapshot)
    (targets : OrdMap String (TargetPosition F)) (shares : F) (nowUs : Int) :
    Except String (TargetProjection F) := do
  config.validate snapshot.venue
  snapshot.validate
  ensure (snapshot.executionBackend == "native" && snapshot.portfolioId.isNone)
    "target_proxy requires native Bybit rules"
  validateCacheTime snapshot.fetchedAtUs nowUs
  validateTargets targets
  validateNonnegativeMultiplier shares "shares"
  targets.toList.foldlM (projectTarget config snapshot shares)
    { rulesFetchedAtUs := snapshot.fetchedAtUs, targets := ∅, matched := ∅, filtered := ∅ }

end CtaManager.Exec
