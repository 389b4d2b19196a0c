import CtaManager.Catalog.Symbols
import CtaManager.Library.OrdMap
import CtaManager.Nav.Num

/-! Position strategies of the catalog (`strategy_catalog.rs`). -/

namespace CtaManager.Catalog

open Check

structure TargetPosition (F : Type) where
  /-- Explicit close-to-zero instruction. -/
  clear : Bool
  qty : F
  signal : Int
  deriving DecidableEq

structure PositionStrategy (F : Type) where
  strategyName : String
  targets : OrdMap String (TargetPosition F)
  symbolOrderStrategyOverrides : OrdMap String String
  updatedAtUs : Int

instance {F : Type} [DecidableEq F] : DecidableEq (PositionStrategy F)
  | ⟨n, t, o, u⟩, ⟨n', t', o', u'⟩ =>
    decidable_of_iff (n = n' ∧ t = t' ∧ o = o' ∧ u = u') (by simp)

section

variable {F : Type} [F64 F] [Text.Unicode]

/-- `validate_target_signal`, after `ALLOWED_TARGET_SIGNALS`. -/
def validateTargetSignal (signal : Int) : Except String Unit :=
  ensure ([-2, -1, 0, 1, 2].contains signal) "signal must be one of -2, -1, 0, 1, 2"

/-- One target of `validate_targets`; `cross` says that some target is a leg of a
cross spread. -/
def validateTargetPosition (targets : OrdMap String (TargetPosition F)) (cross : Bool)
    (symbol : String) (target : TargetPosition F) : Except String Unit := do
  validateTarget symbol
  if cross then
    match Text.splitOnce symbol ':' with
    | none => .error "cross spread requires venue-qualified targets for both legs"
    | some (venue, asset) => do
      let other := (if venue == "okex-futures" then "binance-futures" else "okex-futures") ++
        ":" ++ asset
      ensure (targets.contains other) ("cross spread is missing " ++ other)
  ensure (!(target.clear && target.qty != 0))
    ("targets." ++ symbol ++ ": clear requires zero quantity")
  ensure (F64.isFinite target.qty) ("targets." ++ symbol ++ ".qty must be finite")
  (validateTargetSignal target.signal).mapError fun e => "targets." ++ symbol ++ "." ++ e

def validateTargets (targets : OrdMap String (TargetPosition F)) : Except String Unit :=
  let cross := targets.toList.any fun p => p.1.toList.contains ':'
  targets.toList.forM fun (symbol, target) => validateTargetPosition targets cross symbol target

def validateSymbolOrderStrategyOverrides (targets : OrdMap String (TargetPosition F))
    (overrides : OrdMap String String) : Except String Unit :=
  overrides.toList.forM fun (symbol, orderStrategyName) => do
    validateTarget symbol
    ensure (targets.contains symbol)
      ("symbol_order_strategy_overrides." ++ symbol ++ " has no matching target")
    (validateStrategyName orderStrategyName).mapError fun e =>
      "symbol_order_strategy_overrides." ++ symbol ++ "." ++ e

def PositionStrategy.validate (strategy : PositionStrategy F) : Except String Unit := do
  validateStrategyName strategy.strategyName
  validateTargets strategy.targets
  validateSymbolOrderStrategyOverrides strategy.targets strategy.symbolOrderStrategyOverrides

end

end CtaManager.Catalog
