import CtaManager.Library.Check
import CtaManager.Text

/-! Exec symbols and target keys (`order_config.rs`, `market_data.rs`). -/

namespace CtaManager.Catalog

open Check

variable [Text.Unicode]

/-- `validate_exec_symbol`. -/
def validateExecSymbol (symbol : String) : Except String Unit := do
  let date := symbol.toList.reverse.take 6
  let root := String.ofList (symbol.toList.reverse.drop 6).reverse
  let isDelivery := decide (9 < symbol.utf8ByteSize) && date.all Text.isAsciiDigit &&
    Text.endsWith root "USD"
  ensure (!isDelivery) ("only perpetual contracts are supported: " ++ symbol)
  ensure (symbol != "" && symbol.toList.all fun c =>
      if c.toNat < 128 then Text.isAsciiUppercase c || Text.isAsciiDigit c
      else Text.Unicode.isAlphanumeric c)
    ("invalid symbol: " ++ symbol)

/-- `normalize_exec_symbol`: perpetual targets use USD / USDC / USDT. -/
def normalizeExecSymbol (raw : String) : Except String String := do
  let symbol := Text.Unicode.toUppercase (Text.trim raw)
  let symbol ←
    match Text.splitOnce symbol '_' with
    | some (root, suffix) => do
      ensure (decide (3 < root.utf8ByteSize) && Text.endsWith root "USD" &&
          root.toList.all Text.isAsciiAlphanumeric && suffix == "PERP")
        ("invalid symbol: " ++ raw)
      pure root
    | none => pure symbol
  let symbol := if Text.endsWith symbol "USDPERP" then (Text.stripSuffix symbol "PERP").getD symbol
    else symbol
  validateExecSymbol symbol
  return symbol

/-- `binance_coin_wire_symbol`. -/
def binanceCoinWireSymbol (symbol : String) : Except String String := do
  let symbol ← normalizeExecSymbol symbol
  ensure (Text.endsWith symbol "USD" && decide (3 < symbol.utf8ByteSize) &&
      symbol.toList.all Text.isAsciiAlphanumeric)
    ("COIN-M perpetual symbol must end with USD, e.g. BTCUSD: " ++ symbol)
  return symbol ++ "_PERP"

/-- `normalize_target`: a symbol, or a leg of a cross spread. -/
def normalizeTarget (raw : String) : Except String String :=
  match Text.splitOnce (Text.trim raw) ':' with
  | some (venue, symbol) => do
    let venue := Text.toAsciiLowercase venue
    ensure (venue == "okex-futures" || venue == "binance-futures")
      ("cross spread target venue is unsupported: " ++ venue)
    let symbol ← normalizeExecSymbol symbol
    ensure (Text.endsWith symbol "USDT" && decide (4 < symbol.utf8ByteSize))
      "cross spread targets require USDT perpetuals"
    return venue ++ ":" ++ symbol
  | none => normalizeExecSymbol raw

/-- `validate_target`. -/
def validateTarget (key : String) : Except String Unit := do
  let normalized ← normalizeTarget key
  ensure (normalized == key) ("noncanonical target: " ++ key)

/-- `validate_runtime_strategy_name`. -/
def validateRuntimeStrategyName (name : String) : Except String Unit := do
  let valid := match name.toList with
    | [] => false
    | first :: rest => Text.isAsciiAlphanumeric first && rest.all Text.isNameChar
  ensure (decide (name.utf8ByteSize ≤ 256) && valid) "strategy_name has an invalid format"
  ensure (!(name == "strategy_names" || name == "removed_strategy_names" ||
      name == "SYSTEM_POSITION_CLOSE"))
    "strategy_name is reserved"

/-- `HEDGE_STRATEGY` of the BNB manager. -/
def HEDGE_STRATEGY : String := "SYSTEM_BNB_RESERVE"

/-- `validate_strategy_name`. -/
def validateStrategyName (name : String) : Except String Unit := do
  ensure (name != HEDGE_STRATEGY) "strategy_name is reserved for BNB reserve management"
  validateRuntimeStrategyName name

end CtaManager.Catalog
