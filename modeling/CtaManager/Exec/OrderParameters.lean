import CtaManager.Library.Check
import CtaManager.Nav.Num

/-! The parameters of an order strategy and their overrides (`order_config.rs`). -/

namespace CtaManager.Exec

open Check

inductive ExecutionAlgorithm where
  | batch
  | pov
  | chase
  | ctaker
  | grid
  deriving DecidableEq

inductive ExecutionFamily where
  | batchExec
  | chaseExec
  deriving DecidableEq

def ExecutionAlgorithm.family : ExecutionAlgorithm → ExecutionFamily
  | .batch | .pov | .ctaker | .grid => .batchExec
  | .chase => .chaseExec

def ExecutionAlgorithm.asStr : ExecutionAlgorithm → String
  | .batch => "batch"
  | .pov => "pov"
  | .chase => "chase"
  | .ctaker => "ctaker"
  | .grid => "grid"

def ExecutionFamily.redisNamespace : ExecutionFamily → String
  | .batchExec => "batch_exec"
  | .chaseExec => "chase_exec"

def ExecutionFamily.opposite : ExecutionFamily → ExecutionFamily
  | .batchExec => .chaseExec
  | .chaseExec => .batchExec

@[simp] theorem ExecutionFamily.opposite_opposite (family : ExecutionFamily) :
    family.opposite.opposite = family := by
  cases family <;> rfl

theorem ExecutionFamily.opposite_ne (family : ExecutionFamily) : family.opposite ≠ family := by
  cases family <;> decide

theorem ExecutionFamily.eq_or_eq_opposite (family other : ExecutionFamily) :
    other = family ∨ other = family.opposite := by
  cases family <;> cases other <;> decide

theorem ExecutionFamily.redisNamespace_inj {family other : ExecutionFamily}
    (h : family.redisNamespace = other.redisNamespace) : family = other := by
  revert h
  cases family <;> cases other <;> decide

/-- `GridSpotParameters` and `GridFuturesParameters`: `none` requotes without limit. -/
structure GridMarketParameters (F : Type) where
  ordersPerBatch : Nat
  makerTimeoutMs : Nat
  volMultiplier : F
  maxMakerRequotes : Option Nat
  deriving DecidableEq

structure GridParameters (F : Type) where
  spot : GridMarketParameters F
  futures : GridMarketParameters F
  deriving DecidableEq

structure PovParameters (F : Type) where
  participationRate : F
  maxBatchUsdt : F
  maxCarryUsdt : F
  volumeStaleMs : Nat
  quoteStaleMs : Nat
  durationMs : Nat
  liquidity : String
  limitPrice : Option F
  deriving DecidableEq

structure ChaseParameters (F : Type) where
  batchFloorUsdt : F
  maxBatch : Nat
  maxOpenBatches : Nat
  makerRecenterTriggerBps : F
  makerAmendCooldownMs : Nat
  makerTimeoutSec : Nat
  targetToleranceUsdt : F
  strategyOrderRateLimitPerMin : Nat
  strategyOrderRateLimit10s : Nat
  deriving DecidableEq

structure OrderParameters (F : Type) where
  algorithm : ExecutionAlgorithm
  pov : PovParameters F
  grid : GridParameters F
  chase : ChaseParameters F
  signalExecutionEnabled : Bool
  singleOrderUsdt : F
  ordersPerBatch : Nat
  maxBatch : Nat
  makerPriceAnchor : String
  tickSpacing : Nat
  batchIntervalMs : Nat
  makerTimeoutMs : Nat
  maxMakerRequotes : Nat
  targetToleranceUsdt : F
  deriving DecidableEq

structure OrderParameterOverrides (F : Type) where
  algorithm : Option ExecutionAlgorithm
  pov : Option (PovParameters F)
  grid : Option (GridParameters F)
  singleOrderUsdt : Option F
  ordersPerBatch : Option Nat
  maxBatch : Option Nat
  makerPriceAnchor : Option String
  tickSpacing : Option Nat
  batchIntervalMs : Option Nat
  makerTimeoutMs : Option Nat
  maxMakerRequotes : Option Nat
  targetToleranceUsdt : Option F
  deriving DecidableEq

structure ChaseParameterOverrides (F : Type) where
  batchFloorUsdt : Option F
  maxBatch : Option Nat
  maxOpenBatches : Option Nat
  makerRecenterTriggerBps : Option F
  makerAmendCooldownMs : Option Nat
  makerTimeoutSec : Option Nat
  targetToleranceUsdt : Option F
  deriving DecidableEq

section

variable {F : Type} [F64 F]

/-- The number is finite and above zero. -/
def ensurePositive (value : F) (e : String) : Except String Unit :=
  ensure (F64.isFinite value && decide (0 < value)) e

/-- The number is finite and not below zero. -/
def ensureNonnegative (value : F) (e : String) : Except String Unit :=
  ensure (F64.isFinite value && !decide (value < 0)) e

/-- One market of `GridParameters::validate`. -/
def GridMarketParameters.validate (market : String) (p : GridMarketParameters F) :
    Except String Unit := do
  ensure (p.ordersPerBatch != 0 && p.makerTimeoutMs != 0)
    ("grid." ++ market ++ " split count and maker duration must be positive")
  ensurePositive p.volMultiplier
    ("grid." ++ market ++ ".vol_multiplier must be finite and positive")
  ensure (p.maxMakerRequotes != some (2 ^ 32 - 1))
    ("grid." ++ market ++
      ".max_maker_requotes must be less than uint32 max; use null for unlimited")

def GridParameters.validate (grid : GridParameters F) : Except String Unit := do
  grid.spot.validate "spot"
  grid.futures.validate "futures"

def PovParameters.validate (pov : PovParameters F) : Except String Unit := do
  ensure (F64.isFinite pov.participationRate && decide (0 < pov.participationRate) &&
    decide (pov.participationRate ≤ 1)) "pov.participation_rate must be in (0, 1]"
  ensurePositive pov.maxBatchUsdt "pov.max_batch_usdt must be finite and greater than zero"
  ensurePositive pov.maxCarryUsdt "pov.max_carry_usdt must be finite and greater than zero"
  ensure (!decide (pov.maxCarryUsdt < pov.maxBatchUsdt))
    "pov.max_carry_usdt must be at least max_batch_usdt"
  ensure (pov.volumeStaleMs != 0 && pov.quoteStaleMs != 0 && pov.durationMs != 0)
    "pov timeouts and duration must be greater than zero"
  ensure (["maker_only", "taker_only", "maker_then_taker"].contains pov.liquidity)
    "pov.liquidity is invalid"
  ensure (pov.limitPrice.all fun price => F64.isFinite price && decide (0 < price))
    "pov.limit_price must be finite and greater than zero"
  ensure (!(pov.limitPrice.isSome && pov.liquidity != "maker_only"))
    "pov.limit_price requires maker_only liquidity"

def ChaseParameters.validate (chase : ChaseParameters F) : Except String Unit := do
  ensurePositive chase.batchFloorUsdt
    "chase.batch_floor_usdt must be finite and greater than zero"
  ensure (chase.maxBatch != 0) "chase.max_batch must be greater than zero"
  ensure (chase.maxOpenBatches != 0 && decide (chase.maxOpenBatches ≤ chase.maxBatch))
    "chase.max_open_batches must be in the range 1..=max_batch"
  ensureNonnegative chase.makerRecenterTriggerBps
    "chase.maker_recenter_trigger_bps must be finite and nonnegative"
  ensure (chase.makerTimeoutSec != 0) "chase.maker_timeout_sec must be greater than zero"
  ensureNonnegative chase.targetToleranceUsdt
    "chase.target_tolerance_usdt must be finite and nonnegative"

def OrderParameters.validate (p : OrderParameters F) : Except String Unit :=
  if p.algorithm = .chase then p.chase.validate
  else do
    ensurePositive p.singleOrderUsdt "single_order_usdt must be finite and greater than zero"
    ensure (p.ordersPerBatch != 0) "orders_per_batch must be greater than zero"
    ensure (p.maxBatch != 0) "max_batch must be greater than zero"
    ensure (["own_best", "opposite_best_plus_one_tick"].contains p.makerPriceAnchor)
      "maker_price_anchor is invalid"
    ensure (p.makerTimeoutMs != 0) "maker_timeout_ms must be greater than zero"
    ensureNonnegative p.targetToleranceUsdt
      "target_tolerance_usdt must be finite and nonnegative"
    if p.algorithm = .pov then p.pov.validate
    p.grid.validate

end

section

variable {F : Type} [DecidableEq F]

/-- The selected value, where it is not the default one. -/
def changed {α : Type} [DecidableEq α] (selected defaults : α) : Option α :=
  if selected ≠ defaults then some selected else none

/-- `OrderParameterOverrides::from_templates`. -/
def OrderParameterOverrides.fromTemplates (defaults selected : OrderParameters F) :
    OrderParameterOverrides F where
  algorithm := changed selected.algorithm defaults.algorithm
  pov := changed selected.pov defaults.pov
  grid :=
    -- a template that is not a grid leaves its grid parameters out
    if selected.algorithm = .grid ∧ (defaults.algorithm ≠ .grid ∨ selected.grid ≠ defaults.grid)
    then some selected.grid else none
  singleOrderUsdt := changed selected.singleOrderUsdt defaults.singleOrderUsdt
  ordersPerBatch := changed selected.ordersPerBatch defaults.ordersPerBatch
  maxBatch := changed selected.maxBatch defaults.maxBatch
  makerPriceAnchor := changed selected.makerPriceAnchor defaults.makerPriceAnchor
  tickSpacing := changed selected.tickSpacing defaults.tickSpacing
  batchIntervalMs := changed selected.batchIntervalMs defaults.batchIntervalMs
  makerTimeoutMs := changed selected.makerTimeoutMs defaults.makerTimeoutMs
  maxMakerRequotes := changed selected.maxMakerRequotes defaults.maxMakerRequotes
  targetToleranceUsdt := changed selected.targetToleranceUsdt defaults.targetToleranceUsdt

/-- `OrderParameterOverrides::is_empty`. -/
def OrderParameterOverrides.isEmpty (o : OrderParameterOverrides F) : Bool :=
  o.algorithm.isNone && o.pov.isNone && o.grid.isNone && o.singleOrderUsdt.isNone &&
    o.ordersPerBatch.isNone && o.maxBatch.isNone && o.makerPriceAnchor.isNone &&
    o.tickSpacing.isNone && o.batchIntervalMs.isNone && o.makerTimeoutMs.isNone &&
    o.maxMakerRequotes.isNone && o.targetToleranceUsdt.isNone

/-- `ChaseParameterOverrides::from_templates`: the rate limits are not overridden. -/
def ChaseParameterOverrides.fromTemplates (defaults selected : ChaseParameters F) :
    ChaseParameterOverrides F where
  batchFloorUsdt := changed selected.batchFloorUsdt defaults.batchFloorUsdt
  maxBatch := changed selected.maxBatch defaults.maxBatch
  maxOpenBatches := changed selected.maxOpenBatches defaults.maxOpenBatches
  makerRecenterTriggerBps :=
    changed selected.makerRecenterTriggerBps defaults.makerRecenterTriggerBps
  makerAmendCooldownMs := changed selected.makerAmendCooldownMs defaults.makerAmendCooldownMs
  makerTimeoutSec := changed selected.makerTimeoutSec defaults.makerTimeoutSec
  targetToleranceUsdt := changed selected.targetToleranceUsdt defaults.targetToleranceUsdt

/-- `ChaseParameterOverrides::is_empty`. -/
def ChaseParameterOverrides.isEmpty (o : ChaseParameterOverrides F) : Bool :=
  o.batchFloorUsdt.isNone && o.maxBatch.isNone && o.maxOpenBatches.isNone &&
    o.makerRecenterTriggerBps.isNone && o.makerAmendCooldownMs.isNone &&
    o.makerTimeoutSec.isNone && o.targetToleranceUsdt.isNone

end

end CtaManager.Exec
