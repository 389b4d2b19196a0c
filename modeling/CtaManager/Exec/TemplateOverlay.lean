import CtaManager.Exec.ConfigJson
import CtaManager.Exec.Snapshot

/-!
The published configuration as Exec reads it (`decode_runtime_config` of `order_config.rs`).

A configuration carries the strategy-wide template and, for each symbol with a template of its own,
the parameters in which that one differs.  Exec lays them over the strategy-wide parameters.
`overlay_reproduces` says that the selected template comes out.
-/

namespace CtaManager.Exec

open Check Json Catalog

section

variable {F : Type} [F64 F]

/-! ## The published documents -/

def StoredQty.toJson : StoredQty F → Json F
  | .number qty => .float qty
  | .command text => .string text
  | .other => .null

def StoredTarget.toFields (qty : StoredQty F) (signal : Option Int) :
    List (String × Option (Json F)) :=
  [("qty", some qty.toJson), ("signal", signal.map Json.integer)]

def StoredTarget.toJson : StoredTarget F → Json F
  | .position qty signal => record (StoredTarget.toFields qty signal)
  | .invalid => .null

def SymbolOverride.toJson : SymbolOverride F → Json F
  | .batch overrides => overrides.toJson
  | .chase overrides => overrides.toJson

/-- The last fields of both stored configurations. -/
def StoredConfig.otherFields (config : StoredConfig F) : List (String × Option (Json F)) :=
  [("symbol_overrides", if config.symbolOverrides.isEmpty then none
      else some (ofMap SymbolOverride.toJson config.symbolOverrides)),
    ("targets", config.targets.map (ofMap StoredTarget.toJson)),
    ("updated_at_us", config.updatedAtUs.map Json.integer)]

def StoredConfig.toJson (config : StoredConfig F) : Json F :=
  match config.parameters with
  | .batch parameters => record (parameters.toFields ++ config.otherFields)
  | .chase parameters => record (parameters.toFields ++ config.otherFields)
  | .foreign document => .string document

/-- The batch fields of `runtime_order_parameters`. -/
def runtimeBatchFields (parameters : OrderParameters F) : List (String × Option (Json F)) :=
  [("algorithm", some parameters.algorithm.toJson),
    ("pov", some parameters.pov.toJson),
    ("single_order_usdt", some (ofF64 parameters.singleOrderUsdt)),
    ("orders_per_batch", some (ofU32 parameters.ordersPerBatch)),
    ("max_batch", some (ofU32 parameters.maxBatch)),
    ("maker_price_anchor", some (.string parameters.makerPriceAnchor)),
    ("tick_spacing", some (ofU32 parameters.tickSpacing)),
    ("batch_interval_ms", some (ofU32 parameters.batchIntervalMs)),
    ("maker_timeout_ms", some (ofU32 parameters.makerTimeoutMs)),
    ("max_maker_requotes", some (ofU32 parameters.maxMakerRequotes)),
    ("target_tolerance_usdt", some (ofF64 parameters.targetToleranceUsdt)),
    ("grid", if parameters.algorithm = .grid then some parameters.grid.toJson else none)]

def runtimeOrderParameters (parameters : OrderParameters F) : Json F :=
  match parameters.algorithm.family with
  | .batchExec => record (runtimeBatchFields parameters)
  | .chaseExec => record parameters.chase.toFields

/-! ## Reading a configuration -/

variable [IntCast F]

/-- `Quantity`. -/
def toQty : Json F → Except String (StoredQty F)
  | .integer n => .ok (.number (n : F))
  | .float x => .ok (.number x)
  | .string s => .ok (.command s)
  | _ => .error "data did not match any variant"

/-- `TargetPositionDe`: a quantity, or an object with one. -/
def StoredTarget.ofJson (value : Json F) : StoredTarget F :=
  let object : Except String (StoredTarget F) := do
    let fields ← value.fields
    denyUnknown ["qty", "signal"] fields
    let qty ← required toQty fields "qty"
    let signal ← optional (toRange (-2 ^ 31) (2 ^ 31)) fields "signal"
    return .position qty signal
  match toQty value, object with
  | .ok qty, _ => .position qty none
  | .error _, .ok target => target
  | .error _, .error _ => .invalid

/-- `TargetPosition::deserialize`. -/
def targetOfJson (value : Json F) : Except String (TargetPosition F) :=
  decodeTarget (.ofJson value)

structure ExecConfigPayload (F : Type) where
  algorithm : ExecutionAlgorithm
  pov : PovParameters F
  grid : GridParameters F
  singleOrderUsdt : F
  ordersPerBatch : Nat
  maxBatch : Nat
  makerPriceAnchor : String
  tickSpacing : Nat
  batchIntervalMs : Nat
  makerTimeoutMs : Nat
  maxMakerRequotes : Nat
  targetToleranceUsdt : F
  targets : OrdMap String (TargetPosition F)
  symbolOverrides : OrdMap String (OrderParameterOverrides F)
  updatedAtUs : Option Int

def ExecConfigPayload.ofJson (value : Json F) : Except String (ExecConfigPayload F) := do
  let fields ← value.fields
  let algorithm ← defaulted ExecutionAlgorithm.ofJson .batch fields "algorithm"
  let pov ← defaulted PovParameters.ofJson .default fields "pov"
  let grid ← defaulted GridParameters.ofJson .default fields "grid"
  let singleOrderUsdt ← required toF64 fields "single_order_usdt"
  let ordersPerBatch ← required toU32 fields "orders_per_batch"
  let maxBatch ← defaulted toU32 20 fields "max_batch"
  let makerPriceAnchor ← required toStr fields "maker_price_anchor"
  let tickSpacing ← required toU32 fields "tick_spacing"
  let batchIntervalMs ← required toU32 fields "batch_interval_ms"
  let makerTimeoutMs ← required toU32 fields "maker_timeout_ms"
  let maxMakerRequotes ← required toU32 fields "max_maker_requotes"
  let targetToleranceUsdt ← required toF64 fields "target_tolerance_usdt"
  let targets ← defaulted (toMap targetOfJson) ∅ fields "targets"
  let symbolOverrides ← defaulted (toMap OrderParameterOverrides.ofJson) ∅ fields "symbol_overrides"
  let updatedAtUs ← optional toI64 fields "updated_at_us"
  return { algorithm, pov, grid, singleOrderUsdt, ordersPerBatch, maxBatch, makerPriceAnchor,
           tickSpacing, batchIntervalMs, makerTimeoutMs, maxMakerRequotes, targetToleranceUsdt,
           targets, symbolOverrides, updatedAtUs }

def ExecConfigPayload.orderParameters (payload : ExecConfigPayload F) : OrderParameters F where
  algorithm := payload.algorithm
  pov := payload.pov
  grid := payload.grid
  chase := .default
  signalExecutionEnabled := true
  singleOrderUsdt := payload.singleOrderUsdt
  ordersPerBatch := payload.ordersPerBatch
  maxBatch := payload.maxBatch
  makerPriceAnchor := payload.makerPriceAnchor
  tickSpacing := payload.tickSpacing
  batchIntervalMs := payload.batchIntervalMs
  makerTimeoutMs := payload.makerTimeoutMs
  maxMakerRequotes := payload.maxMakerRequotes
  targetToleranceUsdt := payload.targetToleranceUsdt

/-- `ChaseExecConfigPayload`: its parameters are those of a template, and its overrides stay
documents. -/
structure ChaseExecConfigPayload (F : Type) where
  orderParameters : ChaseParameters F
  targets : OrdMap String (TargetPosition F)
  symbolOverrides : OrdMap String (Json F)
  updatedAtUs : Option Int

def ChaseExecConfigPayload.ofJson (value : Json F) :
    Except String (ChaseExecConfigPayload F) := do
  let fields ← value.fields
  denyUnknown ["batch_floor_usdt", "max_batch", "max_open_batches", "maker_recenter_trigger_bps",
    "maker_amend_cooldown_ms", "maker_timeout_sec", "target_tolerance_usdt",
    "strategy_order_rate_limit_per_min", "strategy_order_rate_limit_10s", "symbol_overrides",
    "targets", "updated_at_us"] fields
  let batchFloorUsdt ← required toF64 fields "batch_floor_usdt"
  let maxBatch ← required toU32 fields "max_batch"
  let maxOpenBatches ← required toU32 fields "max_open_batches"
  let makerRecenterTriggerBps ← required toF64 fields "maker_recenter_trigger_bps"
  let makerAmendCooldownMs ← required toU32 fields "maker_amend_cooldown_ms"
  let makerTimeoutSec ← required toU32 fields "maker_timeout_sec"
  let targetToleranceUsdt ← required toF64 fields "target_tolerance_usdt"
  let strategyOrderRateLimitPerMin ←
    defaulted toU32 0 fields "strategy_order_rate_limit_per_min"
  let strategyOrderRateLimit10s ← defaulted toU32 0 fields "strategy_order_rate_limit_10s"
  let targets ← defaulted (toMap targetOfJson) ∅ fields "targets"
  let symbolOverrides ← defaulted (toMap Except.ok) ∅ fields "symbol_overrides"
  let updatedAtUs ← optional toI64 fields "updated_at_us"
  return {
    orderParameters :=
      { batchFloorUsdt, maxBatch, maxOpenBatches, makerRecenterTriggerBps, makerAmendCooldownMs,
        makerTimeoutSec, targetToleranceUsdt, strategyOrderRateLimitPerMin,
        strategyOrderRateLimit10s }
    targets, symbolOverrides, updatedAtUs }

structure DecodedRuntimeConfig (F : Type) where
  orderParameters : OrderParameters F
  symbolOverrides : OrdMap String (Json F)
  targets : OrdMap String (TargetPosition F)
  updatedAtUs : Option Int

def decodeRuntimeConfig (value : Json F) (family : ExecutionFamily) :
    Except String (DecodedRuntimeConfig F) :=
  match family with
  | .batchExec => do
    let config ← ExecConfigPayload.ofJson value
    return { orderParameters := config.orderParameters
             symbolOverrides := config.symbolOverrides.map fun _ o => o.toJson
             targets := config.targets
             updatedAtUs := config.updatedAtUs }
  | .chaseExec => do
    let config ← ChaseExecConfigPayload.ofJson value
    return { orderParameters :=
               { OrderParameters.default with
                 algorithm := .chase
                 chase := config.orderParameters }
             symbolOverrides := config.symbolOverrides
             targets := config.targets
             updatedAtUs := config.updatedAtUs }

/-! ## The overlay -/

omit [F64 F] [IntCast F] in
/-- `OrderParameterOverrides::apply_to`. -/
def OrderParameterOverrides.applyTo (o : OrderParameterOverrides F)
    (defaults : OrderParameters F) : OrderParameters F where
  signalExecutionEnabled := defaults.signalExecutionEnabled
  algorithm := o.algorithm.getD defaults.algorithm
  pov := o.pov.getD defaults.pov
  grid := o.grid.getD defaults.grid
  chase := defaults.chase
  singleOrderUsdt := o.singleOrderUsdt.getD defaults.singleOrderUsdt
  ordersPerBatch := o.ordersPerBatch.getD defaults.ordersPerBatch
  maxBatch := o.maxBatch.getD defaults.maxBatch
  makerPriceAnchor := o.makerPriceAnchor.getD defaults.makerPriceAnchor
  tickSpacing := o.tickSpacing.getD defaults.tickSpacing
  batchIntervalMs := o.batchIntervalMs.getD defaults.batchIntervalMs
  makerTimeoutMs := o.makerTimeoutMs.getD defaults.makerTimeoutMs
  maxMakerRequotes := o.maxMakerRequotes.getD defaults.maxMakerRequotes
  targetToleranceUsdt := o.targetToleranceUsdt.getD defaults.targetToleranceUsdt

/-- The overlay of the chase family, which is Exec's: a field that is present replaces the
strategy-wide one, and the rate limits have no field. -/
def ChaseParameterOverrides.applyTo (o : ChaseParameterOverrides F)
    (defaults : ChaseParameters F) : ChaseParameters F :=
  { defaults with
    batchFloorUsdt := o.batchFloorUsdt.getD defaults.batchFloorUsdt
    maxBatch := o.maxBatch.getD defaults.maxBatch
    maxOpenBatches := o.maxOpenBatches.getD defaults.maxOpenBatches
    makerRecenterTriggerBps := o.makerRecenterTriggerBps.getD defaults.makerRecenterTriggerBps
    makerAmendCooldownMs := o.makerAmendCooldownMs.getD defaults.makerAmendCooldownMs
    makerTimeoutSec := o.makerTimeoutSec.getD defaults.makerTimeoutSec
    targetToleranceUsdt := o.targetToleranceUsdt.getD defaults.targetToleranceUsdt }

/-- What Exec executes for a symbol: the strategy-wide parameters under the override, if the
symbol has one. -/
def overlay (family : ExecutionFamily) (base : OrderParameters F) (override : Option (Json F)) :
    Except String (OrderParameters F) :=
  match override, family with
  | none, _ => .ok base
  | some value, .batchExec => do
    let o ← OrderParameterOverrides.ofJson value
    return o.applyTo base
  | some value, .chaseExec => do
    let o ← ChaseParameterOverrides.ofJson value
    return { base with chase := o.applyTo base.chase }

/-! ## The parameters that travel -/

/-- The parameters of the batch family.  Grid parameters count where the selected algorithm is
the grid. -/
structure BatchAgrees (p selected : OrderParameters F) : Prop where
  pov : p.pov = selected.pov
  grid : selected.algorithm = .grid → p.grid = selected.grid
  singleOrderUsdt : p.singleOrderUsdt = selected.singleOrderUsdt
  ordersPerBatch : p.ordersPerBatch = selected.ordersPerBatch
  maxBatch : p.maxBatch = selected.maxBatch
  makerPriceAnchor : p.makerPriceAnchor = selected.makerPriceAnchor
  tickSpacing : p.tickSpacing = selected.tickSpacing
  batchIntervalMs : p.batchIntervalMs = selected.batchIntervalMs
  makerTimeoutMs : p.makerTimeoutMs = selected.makerTimeoutMs
  maxMakerRequotes : p.maxMakerRequotes = selected.maxMakerRequotes
  targetToleranceUsdt : p.targetToleranceUsdt = selected.targetToleranceUsdt

/-- The parameters of the chase family without the rate limits. -/
structure ChaseAgrees (p selected : ChaseParameters F) : Prop where
  batchFloorUsdt : p.batchFloorUsdt = selected.batchFloorUsdt
  maxBatch : p.maxBatch = selected.maxBatch
  maxOpenBatches : p.maxOpenBatches = selected.maxOpenBatches
  makerRecenterTriggerBps : p.makerRecenterTriggerBps = selected.makerRecenterTriggerBps
  makerAmendCooldownMs : p.makerAmendCooldownMs = selected.makerAmendCooldownMs
  makerTimeoutSec : p.makerTimeoutSec = selected.makerTimeoutSec
  targetToleranceUsdt : p.targetToleranceUsdt = selected.targetToleranceUsdt

/-- The selected algorithm, with the selected value of every parameter that travels. -/
def Agrees (p selected : OrderParameters F) : Prop :=
  p.algorithm = selected.algorithm ∧
    match selected.algorithm.family with
    | .batchExec => BatchAgrees p selected
    | .chaseExec => ChaseAgrees p.chase selected.chase

variable [DecidableEq F]

/-- The override of one symbol, left out where it is empty. -/
def symbolOverride (defaults selected : OrderParameters F) : Option (SymbolOverride F) :=
  match defaults.algorithm.family with
  | .batchExec =>
    let value := OrderParameterOverrides.fromTemplates defaults selected
    if value.isEmpty then none else some (.batch value)
  | .chaseExec =>
    let value := ChaseParameterOverrides.fromTemplates defaults.chase selected.chase
    if value.isEmpty then none else some (.chase value)

omit [F64 F] [IntCast F] [DecidableEq F] in
theorem changed_eq_none {α : Type} [DecidableEq α] {selected defaults : α} :
    changed selected defaults = none ↔ defaults = selected := by
  unfold changed
  by_cases h : selected = defaults
  · rw [if_neg (not_not_intro h)]
    exact ⟨fun _ => h.symm, fun _ => rfl⟩
  · rw [if_pos h]
    exact ⟨fun hn => (nomatch hn), fun heq => absurd heq.symm h⟩

omit [F64 F] [IntCast F] [DecidableEq F] in
@[simp] theorem getD_changed {α : Type} [DecidableEq α] (selected defaults : α) :
    (changed selected defaults).getD defaults = selected := by
  unfold changed
  by_cases h : selected = defaults
  · rw [if_neg (not_not_intro h)]
    exact h.symm
  · rw [if_pos h]
    rfl

omit [F64 F] [IntCast F] in
/-- The override of a batch template is empty where nothing that travels differs. -/
theorem isEmpty_fromTemplates {defaults selected : OrderParameters F} :
    (OrderParameterOverrides.fromTemplates defaults selected).isEmpty = true ↔
      defaults.algorithm = selected.algorithm ∧ BatchAgrees defaults selected := by
  unfold OrderParameterOverrides.isEmpty OrderParameterOverrides.fromTemplates
  simp only [Bool.and_eq_true, Option.isNone_iff_eq_none, changed_eq_none]
  constructor
  · rintro ⟨⟨⟨⟨⟨⟨⟨⟨⟨⟨⟨halgorithm, hpov⟩, hgrid⟩, hsingle⟩, horders⟩, hmax⟩, hanchor⟩, htick⟩,
      hinterval⟩, htimeout⟩, hrequotes⟩, htolerance⟩
    refine ⟨halgorithm, hpov, fun hselected => ?_, hsingle, horders, hmax, hanchor, htick,
      hinterval, htimeout, hrequotes, htolerance⟩
    by_contra hne
    rw [if_pos ⟨hselected, Or.inr fun heq => hne heq.symm⟩] at hgrid
    cases hgrid
  · rintro ⟨halgorithm, h⟩
    refine ⟨⟨⟨⟨⟨⟨⟨⟨⟨⟨⟨halgorithm, h.pov⟩, if_neg ?_⟩, h.singleOrderUsdt⟩, h.ordersPerBatch⟩,
      h.maxBatch⟩, h.makerPriceAnchor⟩, h.tickSpacing⟩, h.batchIntervalMs⟩, h.makerTimeoutMs⟩,
      h.maxMakerRequotes⟩, h.targetToleranceUsdt⟩
    rintro ⟨hselected, hdefaults | hne⟩
    · exact hdefaults (halgorithm.trans hselected)
    · exact hne (h.grid hselected).symm

omit [F64 F] [IntCast F] in
theorem isEmpty_fromTemplates_chase {defaults selected : ChaseParameters F} :
    (ChaseParameterOverrides.fromTemplates defaults selected).isEmpty = true ↔
      ChaseAgrees defaults selected := by
  unfold ChaseParameterOverrides.isEmpty ChaseParameterOverrides.fromTemplates
  simp only [Bool.and_eq_true, Option.isNone_iff_eq_none, changed_eq_none]
  constructor
  · rintro ⟨⟨⟨⟨⟨⟨hfloor, hmax⟩, hopen⟩, hbps⟩, hcooldown⟩, htimeout⟩, htolerance⟩
    exact ⟨hfloor, hmax, hopen, hbps, hcooldown, htimeout, htolerance⟩
  · intro h
    exact ⟨⟨⟨⟨⟨⟨h.batchFloorUsdt, h.maxBatch⟩, h.maxOpenBatches⟩, h.makerRecenterTriggerBps⟩,
      h.makerAmendCooldownMs⟩, h.makerTimeoutSec⟩, h.targetToleranceUsdt⟩

/-- The chase family has one algorithm. -/
theorem eq_chase {algorithm : ExecutionAlgorithm} (h : algorithm.family = .chaseExec) :
    algorithm = .chase := by
  cases algorithm with
  | chase => rfl
  | batch => cases h
  | pov => cases h
  | ctaker => cases h
  | grid => cases h

omit [F64 F] [IntCast F] in
/-- A symbol has no override exactly where its template agrees with the strategy-wide one. -/
theorem symbolOverride_eq_none {defaults selected : OrderParameters F}
    (hfamily : selected.algorithm.family = defaults.algorithm.family) :
    symbolOverride defaults selected = none ↔ Agrees defaults selected := by
  unfold symbolOverride Agrees
  rw [hfamily]
  cases hf : defaults.algorithm.family with
  | batchExec =>
    dsimp only
    rw [← isEmpty_fromTemplates]
    split
    · next h => exact ⟨fun _ => h, fun _ => rfl⟩
    · next h => exact ⟨fun hn => (nomatch hn), fun he => absurd he h⟩
  | chaseExec =>
    have halgorithm : defaults.algorithm = selected.algorithm :=
      (eq_chase hf).trans (eq_chase (hfamily.trans hf)).symm
    dsimp only
    rw [← isEmpty_fromTemplates_chase, and_iff_right halgorithm]
    split
    · next h => exact ⟨fun _ => h, fun _ => rfl⟩
    · next h => exact ⟨fun hn => (nomatch hn), fun he => absurd he h⟩

omit [F64 F] [IntCast F] [DecidableEq F] in
theorem Agrees.trans {p defaults selected : OrderParameters F} (h : Agrees p defaults)
    (h' : Agrees defaults selected) : Agrees p selected := by
  obtain ⟨halgorithm, h⟩ := h
  obtain ⟨halgorithm', h'⟩ := h'
  refine ⟨halgorithm.trans halgorithm', ?_⟩
  rw [halgorithm'] at h
  cases hf : selected.algorithm.family with
  | batchExec =>
    rw [hf] at h h'
    exact ⟨h.pov.trans h'.pov, fun hg => (h.grid (halgorithm'.trans hg)).trans (h'.grid hg),
      h.singleOrderUsdt.trans h'.singleOrderUsdt, h.ordersPerBatch.trans h'.ordersPerBatch,
      h.maxBatch.trans h'.maxBatch, h.makerPriceAnchor.trans h'.makerPriceAnchor,
      h.tickSpacing.trans h'.tickSpacing, h.batchIntervalMs.trans h'.batchIntervalMs,
      h.makerTimeoutMs.trans h'.makerTimeoutMs, h.maxMakerRequotes.trans h'.maxMakerRequotes,
      h.targetToleranceUsdt.trans h'.targetToleranceUsdt⟩
  | chaseExec =>
    rw [hf] at h h'
    exact ⟨h.batchFloorUsdt.trans h'.batchFloorUsdt, h.maxBatch.trans h'.maxBatch,
      h.maxOpenBatches.trans h'.maxOpenBatches,
      h.makerRecenterTriggerBps.trans h'.makerRecenterTriggerBps,
      h.makerAmendCooldownMs.trans h'.makerAmendCooldownMs,
      h.makerTimeoutSec.trans h'.makerTimeoutSec,
      h.targetToleranceUsdt.trans h'.targetToleranceUsdt⟩

omit [F64 F] [IntCast F] in
/-- The override over parameters that agree with the strategy-wide template. -/
theorem applyTo_fromTemplates {base defaults selected : OrderParameters F}
    (halgorithm : base.algorithm = defaults.algorithm) (h : BatchAgrees base defaults) :
    ((OrderParameterOverrides.fromTemplates defaults selected).applyTo base).algorithm =
        selected.algorithm ∧
      BatchAgrees ((OrderParameterOverrides.fromTemplates defaults selected).applyTo base)
        selected := by
  unfold OrderParameterOverrides.applyTo OrderParameterOverrides.fromTemplates
  refine ⟨?_, ?_, fun hselected => ?_, ?_, ?_, ?_, ?_, ?_, ?_, ?_, ?_, ?_⟩
  · show (changed _ _).getD base.algorithm = _
    rw [halgorithm, getD_changed]
  · show (changed _ _).getD base.pov = _
    rw [h.pov, getD_changed]
  · show (if _ then _ else _ : Option (GridParameters F)).getD base.grid = _
    split
    · rfl
    · next hkept =>
      -- the template is a grid as well, with the same parameters
      rw [not_and, not_or, not_not, not_not] at hkept
      obtain ⟨hdefaults, hsame⟩ := hkept hselected
      exact (h.grid hdefaults).trans hsame.symm
  · show (changed _ _).getD base.singleOrderUsdt = _
    rw [h.singleOrderUsdt, getD_changed]
  · show (changed _ _).getD base.ordersPerBatch = _
    rw [h.ordersPerBatch, getD_changed]
  · show (changed _ _).getD base.maxBatch = _
    rw [h.maxBatch, getD_changed]
  · show (changed _ _).getD base.makerPriceAnchor = _
    rw [h.makerPriceAnchor, getD_changed]
  · show (changed _ _).getD base.tickSpacing = _
    rw [h.tickSpacing, getD_changed]
  · show (changed _ _).getD base.batchIntervalMs = _
    rw [h.batchIntervalMs, getD_changed]
  · show (changed _ _).getD base.makerTimeoutMs = _
    rw [h.makerTimeoutMs, getD_changed]
  · show (changed _ _).getD base.maxMakerRequotes = _
    rw [h.maxMakerRequotes, getD_changed]
  · show (changed _ _).getD base.targetToleranceUsdt = _
    rw [h.targetToleranceUsdt, getD_changed]

omit [F64 F] [IntCast F] in
theorem applyTo_fromTemplates_chase {base defaults selected : ChaseParameters F}
    (h : ChaseAgrees base defaults) :
    ChaseAgrees ((ChaseParameterOverrides.fromTemplates defaults selected).applyTo base)
      selected := by
  unfold ChaseParameterOverrides.applyTo ChaseParameterOverrides.fromTemplates
  refine ⟨?_, ?_, ?_, ?_, ?_, ?_, ?_⟩
  · show (changed _ _).getD base.batchFloorUsdt = _
    rw [h.batchFloorUsdt, getD_changed]
  · show (changed _ _).getD base.maxBatch = _
    rw [h.maxBatch, getD_changed]
  · show (changed _ _).getD base.maxOpenBatches = _
    rw [h.maxOpenBatches, getD_changed]
  · show (changed _ _).getD base.makerRecenterTriggerBps = _
    rw [h.makerRecenterTriggerBps, getD_changed]
  · show (changed _ _).getD base.makerAmendCooldownMs = _
    rw [h.makerAmendCooldownMs, getD_changed]
  · show (changed _ _).getD base.makerTimeoutSec = _
    rw [h.makerTimeoutSec, getD_changed]
  · show (changed _ _).getD base.targetToleranceUsdt = _
    rw [h.targetToleranceUsdt, getD_changed]

/-- The override of a symbol, over parameters that agree with the strategy-wide template, gives
the selected one. -/
theorem overlay_symbolOverride {base defaults selected : OrderParameters F}
    (hselected : selected.Encodable)
    (hfamily : selected.algorithm.family = defaults.algorithm.family) (h : Agrees base defaults) :
    ∃ effective, overlay defaults.algorithm.family base
      ((symbolOverride defaults selected).map SymbolOverride.toJson) = .ok effective ∧
        Agrees effective selected := by
  cases hoverride : symbolOverride defaults selected with
  | none => exact ⟨base, rfl, h.trans ((symbolOverride_eq_none hfamily).1 hoverride)⟩
  | some override =>
    obtain ⟨halgorithm, h⟩ := h
    unfold symbolOverride at hoverride
    unfold Agrees
    rw [hfamily]
    cases hf : defaults.algorithm.family with
    | batchExec =>
      rw [hf] at h hoverride
      dsimp only at h hoverride
      split at hoverride
      · cases hoverride
      · cases hoverride
        refine ⟨_, ?_, applyTo_fromTemplates halgorithm h⟩
        show (do let o ← OrderParameterOverrides.ofJson _; return o.applyTo base) = _
        exact bind_eq_ok.2 ⟨_, OrderParameterOverrides.ofJson_toJson hselected, rfl⟩
    | chaseExec =>
      rw [hf] at h hoverride
      dsimp only at h hoverride
      split at hoverride
      · cases hoverride
      · cases hoverride
        refine ⟨{ base with chase := (ChaseParameterOverrides.fromTemplates defaults.chase
          selected.chase).applyTo base.chase }, ?_, ?_, applyTo_fromTemplates_chase h⟩
        · show (do
            let o ← ChaseParameterOverrides.ofJson _
            return { base with chase := o.applyTo base.chase }) = _
          exact bind_eq_ok.2 ⟨_, ChaseParameterOverrides.ofJson_toJson hselected.chase, rfl⟩
        · exact halgorithm.trans ((eq_chase hf).trans (eq_chase (hfamily.trans hf)).symm)

/-! ## The decoded configuration -/

omit [DecidableEq F] in
/-- A document with the batch fields of a template. -/
theorem ExecConfigPayload.ofJson_record {fields : List (String × Option (Json F))}
    (hnodup : (fields.map Prod.fst).Nodup) {order : OrderParameters F} (horder : order.Encodable)
    (hfields : ∀ field ∈ runtimeBatchFields order, field ∈ fields)
    {targets : OrdMap String (TargetPosition F)}
    {symbolOverrides : OrdMap String (OrderParameterOverrides F)} {updatedAtUs : Option Int}
    (htargets : defaulted (toMap targetOfJson) ∅ (present fields) "targets" = .ok targets)
    (hoverrides : defaulted (toMap OrderParameterOverrides.ofJson) ∅ (present fields)
      "symbol_overrides" = .ok symbolOverrides)
    (hupdated : optional toI64 (present fields) "updated_at_us" = .ok updatedAtUs) :
    ∃ payload, ExecConfigPayload.ofJson (record fields) = .ok payload ∧
      payload.orderParameters.algorithm = order.algorithm ∧
      BatchAgrees payload.orderParameters order ∧ payload.targets = targets ∧
      payload.symbolOverrides = symbolOverrides ∧ payload.updatedAtUs = updatedAtUs := by
  have hmember : ∀ i (field : String × Option (Json F)),
      (runtimeBatchFields order)[i]? = some field → field ∈ fields :=
    fun i field h => hfields field (List.mem_of_getElem? h)
  have hgrid : defaulted GridParameters.ofJson .default (present fields) "grid" =
      .ok (if order.algorithm = .grid then order.grid else .default) := by
    rw [defaulted_of_mem hnodup (hmember 11 _ rfl)]
    by_cases hg : order.algorithm = .grid
    · rw [if_pos hg, if_pos hg, Option.elim_some, GridParameters.ofJson_toJson horder.grid]
    · rw [if_neg hg, if_neg hg, Option.elim_none]
  refine ⟨{ algorithm := order.algorithm, pov := order.pov,
            grid := if order.algorithm = .grid then order.grid else .default,
            singleOrderUsdt := order.singleOrderUsdt, ordersPerBatch := order.ordersPerBatch,
            maxBatch := order.maxBatch, makerPriceAnchor := order.makerPriceAnchor,
            tickSpacing := order.tickSpacing, batchIntervalMs := order.batchIntervalMs,
            makerTimeoutMs := order.makerTimeoutMs, maxMakerRequotes := order.maxMakerRequotes,
            targetToleranceUsdt := order.targetToleranceUsdt, targets, symbolOverrides,
            updatedAtUs }, ?_, rfl, ?_, rfl, rfl, rfl⟩
  · unfold ExecConfigPayload.ofJson
    rw [fields_record, ok_bind,
      defaulted_of_mem hnodup (hmember 0 _ rfl), Option.elim_some,
      ExecutionAlgorithm.ofJson_toJson, ok_bind,
      defaulted_of_mem hnodup (hmember 1 _ rfl), Option.elim_some,
      PovParameters.ofJson_toJson horder.pov, ok_bind, hgrid, ok_bind,
      required_of_mem hnodup (hmember 2 _ rfl), toF64_ofF64 (horder.own.number _ (by simp)), ok_bind,
      required_of_mem hnodup (hmember 3 _ rfl), toU32_ofU32 (horder.own.word _ (by simp)), ok_bind,
      defaulted_of_mem hnodup (hmember 4 _ rfl), Option.elim_some,
      toU32_ofU32 (horder.own.word _ (by simp)), ok_bind,
      required_of_mem hnodup (hmember 5 _ rfl), toStr, ok_bind,
      required_of_mem hnodup (hmember 6 _ rfl), toU32_ofU32 (horder.own.word _ (by simp)), ok_bind,
      required_of_mem hnodup (hmember 7 _ rfl), toU32_ofU32 (horder.own.word _ (by simp)), ok_bind,
      required_of_mem hnodup (hmember 8 _ rfl), toU32_ofU32 (horder.own.word _ (by simp)), ok_bind,
      required_of_mem hnodup (hmember 9 _ rfl), toU32_ofU32 (horder.own.word _ (by simp)), ok_bind,
      required_of_mem hnodup (hmember 10 _ rfl), toF64_ofF64 (horder.own.number _ (by simp)),
      ok_bind, htargets, ok_bind, hoverrides, ok_bind, hupdated, ok_bind]
    rfl
  · refine ⟨rfl, fun hg => if_pos hg, rfl, rfl, rfl, rfl, rfl, rfl, rfl, rfl, rfl⟩

omit [DecidableEq F] in
/-- A document with the fields of a chase template. -/
theorem ChaseExecConfigPayload.ofJson_record {fields : List (String × Option (Json F))}
    (hnodup : (fields.map Prod.fst).Nodup)
    (hknown : ∀ name ∈ fields.map Prod.fst, name ∈ ["batch_floor_usdt", "max_batch",
      "max_open_batches", "maker_recenter_trigger_bps", "maker_amend_cooldown_ms",
      "maker_timeout_sec", "target_tolerance_usdt", "strategy_order_rate_limit_per_min",
      "strategy_order_rate_limit_10s", "symbol_overrides", "targets", "updated_at_us"])
    {chase : ChaseParameters F} (hchase : chase.Encodable)
    (hfields : ∀ field ∈ chase.toFields, field ∈ fields)
    {targets : OrdMap String (TargetPosition F)} {symbolOverrides : OrdMap String (Json F)}
    {updatedAtUs : Option Int}
    (htargets : defaulted (toMap targetOfJson) ∅ (present fields) "targets" = .ok targets)
    (hoverrides : defaulted (toMap Except.ok) ∅ (present fields) "symbol_overrides" =
      .ok symbolOverrides)
    (hupdated : optional toI64 (present fields) "updated_at_us" = .ok updatedAtUs) :
    ChaseExecConfigPayload.ofJson (record fields) =
      .ok { orderParameters := chase, targets, symbolOverrides, updatedAtUs } := by
  have hmember : ∀ i (field : String × Option (Json F)),
      chase.toFields[i]? = some field → field ∈ fields :=
    fun i field h => hfields field (List.mem_of_getElem? h)
  unfold ChaseExecConfigPayload.ofJson
  rw [fields_record, ok_bind, denyUnknown_present hknown, ok_bind,
    required_of_mem hnodup (hmember 0 _ rfl), toF64_ofF64 (hchase.number _ (by simp)), ok_bind,
    required_of_mem hnodup (hmember 1 _ rfl), toU32_ofU32 (hchase.word _ (by simp)), ok_bind,
    required_of_mem hnodup (hmember 2 _ rfl), toU32_ofU32 (hchase.word _ (by simp)), ok_bind,
    required_of_mem hnodup (hmember 3 _ rfl), toF64_ofF64 (hchase.number _ (by simp)), ok_bind,
    required_of_mem hnodup (hmember 4 _ rfl), toU32_ofU32 (hchase.word _ (by simp)), ok_bind,
    required_of_mem hnodup (hmember 5 _ rfl), toU32_ofU32 (hchase.word _ (by simp)), ok_bind,
    required_of_mem hnodup (hmember 6 _ rfl), toF64_ofF64 (hchase.number _ (by simp)), ok_bind,
    defaulted_of_mem hnodup (hmember 7 _ rfl), Option.elim_some,
    toU32_ofU32 (hchase.word _ (by simp)), ok_bind,
    defaulted_of_mem hnodup (hmember 8 _ rfl), Option.elim_some,
    toU32_ofU32 (hchase.word _ (by simp)), ok_bind,
    htargets, ok_bind, hoverrides, ok_bind, hupdated, ok_bind]
  rfl

omit [DecidableEq F] in
/-- The parameters of `runtime_order_parameters` read back. -/
theorem decodeRuntimeConfig_runtimeOrderParameters {order : OrderParameters F}
    (horder : order.Encodable) :
    ∃ decoded, decodeRuntimeConfig (runtimeOrderParameters order) order.algorithm.family =
      .ok decoded ∧ Agrees decoded.orderParameters order := by
  unfold runtimeOrderParameters Agrees
  cases hf : order.algorithm.family with
  | batchExec =>
    have hnames : (runtimeBatchFields order).map Prod.fst = ["algorithm", "pov",
        "single_order_usdt", "orders_per_batch", "max_batch", "maker_price_anchor", "tick_spacing",
        "batch_interval_ms", "maker_timeout_ms", "max_maker_requotes", "target_tolerance_usdt",
        "grid"] := rfl
    have habsent : ∀ name ∈ ["targets", "symbol_overrides", "updated_at_us"],
        name ∉ (runtimeBatchFields order).map Prod.fst := by
      rw [hnames]
      decide
    obtain ⟨payload, hpayload, halgorithm, hagrees, -⟩ := ExecConfigPayload.ofJson_record
      (by rw [hnames]; decide) horder (fun field h => h)
      (defaulted_absent (habsent "targets" (by decide)) _ _)
      (defaulted_absent (habsent "symbol_overrides" (by decide)) _ _)
      (defaulted_absent (habsent "updated_at_us" (by decide)) _ _)
    exact ⟨_, bind_eq_ok.2 ⟨payload, hpayload, rfl⟩, halgorithm, hagrees⟩
  | chaseExec =>
    have hnames : order.chase.toFields.map Prod.fst = ["batch_floor_usdt", "max_batch",
        "max_open_batches", "maker_recenter_trigger_bps", "maker_amend_cooldown_ms",
        "maker_timeout_sec", "target_tolerance_usdt", "strategy_order_rate_limit_per_min",
        "strategy_order_rate_limit_10s"] := rfl
    have habsent : ∀ name ∈ ["targets", "symbol_overrides", "updated_at_us"],
        name ∉ order.chase.toFields.map Prod.fst := by
      rw [hnames]
      decide
    have hpayload := ChaseExecConfigPayload.ofJson_record
      (by rw [hnames]; decide) (by rw [hnames]; decide) horder.chase (fun field h => h)
      (defaulted_absent (habsent "targets" (by decide)) _ _)
      (defaulted_absent (habsent "symbol_overrides" (by decide)) _ _)
      (defaulted_absent (habsent "updated_at_us" (by decide)) _ _)
    exact ⟨_, bind_eq_ok.2 ⟨_, hpayload, rfl⟩, (eq_chase hf).symm,
      ⟨rfl, rfl, rfl, rfl, rfl, rfl, rfl⟩⟩

omit [DecidableEq F] in
/-- A readable target reads back as it is stored. -/
theorem ofJson_toJson_encodeTarget {target : TargetPosition F} (h : Readable target) :
    StoredTarget.ofJson (encodeTarget target).toJson = encodeTarget target := by
  obtain ⟨hfinite, hsignal⟩ := h
  have hrange : toRange (-2 ^ 31) (2 ^ 31) (Json.integer (F := F) target.signal) =
      .ok target.signal := by
    unfold validateTargetSignal at hsignal
    rw [ensure_eq_ok, List.contains_iff_mem] at hsignal
    have hbounds : -2 ≤ target.signal ∧ target.signal ≤ 2 := by
      simp only [List.mem_cons, List.not_mem_nil, or_false] at hsignal
      omega
    exact toRange_integer (by omega) (by omega)
  have hstored : ∀ qty : StoredQty F, toQty qty.toJson = .ok qty →
      StoredTarget.ofJson (StoredTarget.position qty (some target.signal)).toJson =
        .position qty (some target.signal) := by
    intro qty hqty
    have hnodup : ((StoredTarget.toFields qty (some target.signal)).map Prod.fst).Nodup := by
      show ["qty", "signal"].Nodup
      decide
    have hobject : (do
        let fields ← (record (StoredTarget.toFields qty (some target.signal))).fields
        denyUnknown ["qty", "signal"] fields
        let qty ← required toQty fields "qty"
        let signal ← optional (toRange (-2 ^ 31) (2 ^ 31)) fields "signal"
        return StoredTarget.position qty signal : Except String (StoredTarget F)) =
          .ok (.position qty (some target.signal)) := by
      rw [fields_record, ok_bind, denyUnknown_present (by exact fun _ h => h), ok_bind,
        required_of_mem hnodup List.mem_cons_self, hqty, ok_bind,
        optional_present hnodup 1 rfl fun signal hs => ⟨(nomatch ·), ?_⟩, ok_bind]
      · rfl
      · cases hs
        exact hrange
    unfold StoredTarget.ofJson StoredTarget.toJson
    dsimp only
    rw [hobject]
    rfl
  unfold encodeTarget
  unfold reportedQty at hfinite
  refine hstored _ ?_
  by_cases hc : target.clear = true
  · rw [if_pos hc]
    rfl
  · rw [if_neg hc] at hfinite ⊢
    rw [if_pos hfinite]
    rfl

/-! The fields that both stored configurations have. -/

section

variable {fields : List (String × Option (Json F))} {config : StoredConfig F}
  (hnodup : ((fields ++ config.otherFields).map Prod.fst).Nodup)

include hnodup

omit [DecidableEq F] in
theorem read_targets {targets : OrdMap String (StoredTarget F)}
    (htargets : config.targets = some targets)
    (hread : ∀ (symbol : String) stored, targets[symbol]? = some stored →
      ∃ target, targetOfJson stored.toJson = .ok target) :
    ∃ read, defaulted (toMap targetOfJson) ∅ (present (fields ++ config.otherFields)) "targets" =
      .ok read := by
  have hmem : ("targets", config.targets.map (ofMap StoredTarget.toJson)) ∈
      fields ++ config.otherFields :=
    List.mem_append_right _ (List.mem_of_getElem? (i := 1) rfl)
  rw [defaulted_of_mem hnodup hmem, htargets]
  refine ⟨_, toMap_ofMap (g := fun stored =>
    (targetOfJson stored.toJson).toOption.getD ⟨false, 0, 0⟩) fun symbol stored h => ?_⟩
  obtain ⟨target, htarget⟩ := hread symbol stored h
  rw [htarget]
  rfl

omit [IntCast F] [DecidableEq F] in
theorem read_updatedAtUs {updatedAtUs : Int} (hupdated : config.updatedAtUs = some updatedAtUs)
    (hlow : -2 ^ 63 ≤ updatedAtUs) (hhigh : updatedAtUs < 2 ^ 63) :
    optional toI64 (present (fields ++ config.otherFields)) "updated_at_us" =
      .ok (some updatedAtUs) := by
  have hmem : ("updated_at_us", config.updatedAtUs.map Json.integer) ∈
      fields ++ config.otherFields :=
    List.mem_append_right _ (List.mem_of_getElem? (i := 2) rfl)
  unfold Json.optional
  rw [defaulted_of_mem hnodup hmem, hupdated]
  show (some <$> toI64 (Json.integer updatedAtUs)) = _
  unfold toI64
  rw [toRange_integer hlow hhigh]
  rfl

omit [IntCast F] [DecidableEq F] in
theorem read_symbolOverrides {β : Type} {decode : Json F → Except String β}
    {g : SymbolOverride F → β}
    (hread : ∀ (symbol : String) override, config.symbolOverrides[symbol]? = some override →
      decode override.toJson = .ok (g override)) :
    defaulted (toMap decode) ∅ (present (fields ++ config.otherFields)) "symbol_overrides" =
      .ok (config.symbolOverrides.map fun _ => g) := by
  have hmem : ("symbol_overrides", if config.symbolOverrides.isEmpty then none
      else some (ofMap SymbolOverride.toJson config.symbolOverrides)) ∈
        fields ++ config.otherFields :=
    List.mem_append_right _ (List.mem_of_getElem? (i := 0) rfl)
  rw [defaulted_of_mem hnodup hmem]
  by_cases hempty : config.symbolOverrides.isEmpty = true
  · rw [if_pos hempty, Option.elim_none, Except.ok.injEq]
    refine Std.ExtTreeMap.ext_getElem? fun symbol => ?_
    rw [Std.ExtTreeMap.getElem?_map, Std.ExtTreeMap.getElem?_empty,
      Std.ExtTreeMap.isEmpty_iff.1 hempty, Std.ExtTreeMap.getElem?_empty]
    rfl
  · rw [if_neg hempty, Option.elim_some]
    exact toMap_ofMap hread

end

variable [Text.Unicode]

omit [F64 F] [IntCast F] in
theorem getElem?_storedOverrides (p : Publication F) (venue symbol : String) :
    (p.storedOverrides venue)[symbol]? =
      (ofMarket venue p.symbolOrderParameters)[symbol]?.bind
        (symbolOverride p.orderParameters) := by
  unfold Publication.storedOverrides
  rw [Std.ExtTreeMap.getElem?_filterMap']
  rfl

omit [F64 F] [IntCast F] [Text.Unicode] in
/-- The overrides of a batch publication are batch overrides of its templates. -/
theorem symbolOverride_batch {defaults selected : OrderParameters F}
    (hf : defaults.algorithm.family = .batchExec) {override : SymbolOverride F}
    (h : symbolOverride defaults selected = some override) :
    override = .batch (.fromTemplates defaults selected) := by
  unfold symbolOverride at h
  rw [hf] at h
  dsimp only at h
  split at h
  · cases h
  · cases h
    rfl

omit [IntCast F] [DecidableEq F] [Text.Unicode] in
/-- The stored batch fields are those of `runtime_order_parameters`. -/
theorem storedParameters_batch {order : OrderParameters F}
    (hf : order.algorithm.family = .batchExec) :
    ∃ parameters, storedParameters order = .batch parameters ∧
      parameters.toFields.map Prod.fst = ["algorithm", "pov", "grid", "single_order_usdt",
        "orders_per_batch", "max_batch", "maker_price_anchor", "tick_spacing",
        "batch_interval_ms", "maker_timeout_ms", "max_maker_requotes", "target_tolerance_usdt"] ∧
      ∀ field ∈ runtimeBatchFields order, field ∈ parameters.toFields := by
  unfold storedParameters
  rw [hf]
  refine ⟨_, rfl, rfl, ?_⟩
  by_cases hg : order.algorithm = .grid
  · simp [runtimeBatchFields, StoredBatchParameters.toFields, hg]
  · simp [runtimeBatchFields, StoredBatchParameters.toFields, hg]

/-- The configuration of a publication in one market. -/
def Publication.storedConfig (p : Publication F) (venue : String)
    (targets : OrdMap String (StoredTarget F)) (updatedAtUs : Int) : StoredConfig F where
  parameters := storedParameters p.orderParameters
  symbolOverrides := p.storedOverrides venue
  targets := some targets
  updatedAtUs := some updatedAtUs

/-- What is stored of a publication reads back. -/
theorem decodeRuntimeConfig_stored {p : Publication F} (venue : String)
    (horder : p.orderParameters.Encodable)
    (hsymbols : ∀ (symbol : String) selected,
      (ofMarket venue p.symbolOrderParameters)[symbol]? = some selected → selected.Encodable)
    {targets : OrdMap String (StoredTarget F)}
    (hread : ∀ (symbol : String) stored, targets[symbol]? = some stored →
      ∃ target, targetOfJson stored.toJson = .ok target)
    {updatedAtUs : Int} (hlow : -2 ^ 63 ≤ updatedAtUs) (hhigh : updatedAtUs < 2 ^ 63) :
    ∃ decoded, decodeRuntimeConfig (p.storedConfig venue targets updatedAtUs).toJson p.family =
        .ok decoded ∧
      Agrees decoded.orderParameters p.orderParameters ∧
      ∀ (symbol : String), decoded.symbolOverrides[symbol]? =
        ((p.storedOverrides venue)[symbol]?).map SymbolOverride.toJson := by
  have hfamily : p.family = p.orderParameters.algorithm.family := rfl
  unfold Agrees
  cases hf : p.orderParameters.algorithm.family with
  | batchExec =>
    obtain ⟨parameters, hstored, hnames, hfields⟩ := storedParameters_batch hf
    have hparameters : (p.storedConfig venue targets updatedAtUs).toJson = record
        (parameters.toFields ++ (p.storedConfig venue targets updatedAtUs).otherFields) := by
      have hbatch : (p.storedConfig venue targets updatedAtUs).parameters = .batch parameters :=
        hstored
      unfold StoredConfig.toJson
      rw [hbatch]
    have hnodup : ((parameters.toFields ++
        (p.storedConfig venue targets updatedAtUs).otherFields).map Prod.fst).Nodup := by
      rw [List.map_append, hnames]
      show (_ ++ ["symbol_overrides", "targets", "updated_at_us"]).Nodup
      decide
    obtain ⟨read, hread⟩ := read_targets hnodup rfl hread
    -- every override is one of a template of the publication
    have hoverride : ∀ (symbol : String) override, (p.storedOverrides venue)[symbol]? = some override →
        ∃ selected, selected.Encodable ∧
          override = .batch (.fromTemplates p.orderParameters selected) := by
      intro symbol override h
      rw [getElem?_storedOverrides] at h
      obtain ⟨selected, hselected, h⟩ := Option.bind_eq_some_iff.1 h
      exact ⟨selected, hsymbols symbol selected hselected, symbolOverride_batch hf h⟩
    let overrides : SymbolOverride F → OrderParameterOverrides F
      | .batch o => o
      | .chase _ => .fromTemplates p.orderParameters p.orderParameters
    obtain ⟨payload, hpayload, halgorithm, hagrees, -, hsymbol, -⟩ :=
      ExecConfigPayload.ofJson_record hnodup horder
        (fun field h => List.mem_append_left _ (hfields field h)) hread
        (read_symbolOverrides hnodup (g := overrides) fun symbol override h => by
          obtain ⟨selected, hselected, rfl⟩ := hoverride symbol override h
          exact OrderParameterOverrides.ofJson_toJson hselected)
        (read_updatedAtUs hnodup rfl hlow hhigh)
    rw [hparameters, hfamily, hf]
    refine ⟨_, bind_eq_ok.2 ⟨payload, hpayload, rfl⟩, ⟨halgorithm, hagrees⟩, fun symbol => ?_⟩
    show (payload.symbolOverrides.map fun _ o => o.toJson)[symbol]? = _
    rw [hsymbol, Std.ExtTreeMap.getElem?_map, Std.ExtTreeMap.getElem?_map, Option.map_map]
    show ((p.storedOverrides venue)[symbol]?).map _ = _
    cases hvalue : (p.storedOverrides venue)[symbol]? with
    | none => rfl
    | some override =>
      obtain ⟨selected, -, rfl⟩ := hoverride symbol override hvalue
      rfl
  | chaseExec =>
    have hparameters : (p.storedConfig venue targets updatedAtUs).toJson = record
        (p.orderParameters.chase.toFields ++
          (p.storedConfig venue targets updatedAtUs).otherFields) := by
      have hstored : (p.storedConfig venue targets updatedAtUs).parameters =
          .chase p.orderParameters.chase := by
        show storedParameters p.orderParameters = _
        unfold storedParameters
        rw [hf]
      unfold StoredConfig.toJson
      rw [hstored]
    have hnodup : ((p.orderParameters.chase.toFields ++
        (p.storedConfig venue targets updatedAtUs).otherFields).map Prod.fst).Nodup := by
      show ["batch_floor_usdt", "max_batch", "max_open_batches", "maker_recenter_trigger_bps",
        "maker_amend_cooldown_ms", "maker_timeout_sec", "target_tolerance_usdt",
        "strategy_order_rate_limit_per_min", "strategy_order_rate_limit_10s", "symbol_overrides",
        "targets", "updated_at_us"].Nodup
      decide
    obtain ⟨read, hread⟩ := read_targets hnodup rfl hread
    have hpayload := ChaseExecConfigPayload.ofJson_record hnodup (fun name h => h) horder.chase
      (fun field h => List.mem_append_left _ h) hread
      (read_symbolOverrides hnodup fun symbol override h => rfl)
      (read_updatedAtUs hnodup rfl hlow hhigh)
    rw [hparameters, hfamily, hf]
    refine ⟨_, bind_eq_ok.2 ⟨_, hpayload, rfl⟩,
      ⟨(eq_chase hf).symm, ⟨rfl, rfl, rfl, rfl, rfl, rfl, rfl⟩⟩, fun symbol => ?_⟩
    exact Std.ExtTreeMap.getElem?_map

omit [IntCast F] [Text.Unicode] in
theorem prepareMarket_expected [Text.Unicode] {p : Publication F} {store : Store F}
    {updatedAtUs : Int} {venue : String} {plan : MarketPlan F}
    (h : p.prepareMarket store updatedAtUs venue = .ok plan) :
    ∃ targets, encodeTargets (ofMarket venue p.runtimeTargets) = .ok targets ∧
      plan.confirmation.expected = p.storedConfig venue targets updatedAtUs := by
  obtain ⟨removed, -, h⟩ := bind_eq_ok.1 h
  obtain ⟨-, -, h⟩ := bind_eq_ok.1 h
  obtain ⟨names, -, h⟩ := bind_eq_ok.1 h
  obtain ⟨oppositeNames, -, h⟩ := bind_eq_ok.1 h
  obtain ⟨switchNames, -, h⟩ := bind_eq_ok.1 h
  obtain ⟨reusable, -, h⟩ := bind_eq_ok.1 h
  obtain ⟨-, -, h⟩ := bind_eq_ok.1 h
  obtain ⟨targets, htargets, h⟩ := bind_eq_ok.1 h
  cases h
  exact ⟨targets, htargets, rfl⟩

omit [DecidableEq F] in
/-- The stored targets of a publication with readable targets read back. -/
theorem exists_targetOfJson {p : Publication F} {venue : String}
    (hreadable : ∀ (symbol : String) target, p.targets[symbol]? = some target → Readable target)
    {targets : OrdMap String (StoredTarget F)}
    (htargets : encodeTargets (ofMarket venue p.runtimeTargets) = .ok targets) {symbol : String}
    {stored : StoredTarget F} (h : targets[symbol]? = some stored) :
    ∃ target, targetOfJson stored.toJson = .ok target := by
  rw [encodeTargets_eq_ok htargets] at h
  obtain ⟨target, htarget, rfl⟩ := Option.map_eq_some_iff.1 h
  rw [getElem?_ofMarket] at htarget
  split at htarget
  · have hread := readable_runtimeTargets hreadable htarget
    unfold targetOfJson
    rw [ofJson_toJson_encodeTarget hread]
    exact decodeTarget_of_readable hread
  · cases htarget

/-! ## The selected template comes out -/

/-- The strategy-wide parameters, read by Exec from either document and under the override of a
symbol, agree with the template the symbol selects.  The override is left out exactly where
nothing that travels differs. -/
theorem overlay_reproduces {defaults selected : OrderParameters F} (hdefaults : defaults.Encodable)
    (hselected : selected.Encodable)
    (hfamily : selected.algorithm.family = defaults.algorithm.family) :
    (∃ decoded effective,
      decodeRuntimeConfig (runtimeOrderParameters defaults) defaults.algorithm.family =
        .ok decoded ∧
      overlay defaults.algorithm.family decoded.orderParameters
        ((symbolOverride defaults selected).map SymbolOverride.toJson) = .ok effective ∧
      Agrees effective selected) ∧
    (∀ (p : Publication F) (store : Store F) (updatedAtUs : Int) (venue symbol : String) plan,
      p.orderParameters = defaults →
      (ofMarket venue p.symbolOrderParameters)[symbol]? = some selected →
      (∀ (other : String) template, (ofMarket venue p.symbolOrderParameters)[other]? =
        some template → template.Encodable) →
      (∀ (other : String) target, p.targets[other]? = some target → Readable target) →
      -2 ^ 63 ≤ updatedAtUs → updatedAtUs < 2 ^ 63 →
      p.prepareMarket store updatedAtUs venue = .ok plan →
      ∃ decoded effective,
        decodeRuntimeConfig plan.confirmation.expected.toJson p.family = .ok decoded ∧
        overlay p.family decoded.orderParameters decoded.symbolOverrides[symbol]? =
          .ok effective ∧
        Agrees effective selected ∧
        (decoded.symbolOverrides[symbol]? = none ↔ Agrees defaults selected)) ∧
    (symbolOverride defaults selected = none ↔ Agrees defaults selected) := by
  refine ⟨?_, ?_, symbolOverride_eq_none hfamily⟩
  · obtain ⟨decoded, hdecoded, hbase⟩ := decodeRuntimeConfig_runtimeOrderParameters hdefaults
    obtain ⟨effective, hoverlay, hagrees⟩ := overlay_symbolOverride hselected hfamily hbase
    exact ⟨decoded, effective, hdecoded, hoverlay, hagrees⟩
  · rintro p store updatedAtUs venue symbol plan rfl hsymbol htemplates hreadable hlow hhigh hplan
    obtain ⟨targets, htargets, hexpected⟩ := prepareMarket_expected hplan
    obtain ⟨decoded, hdecoded, hbase, hoverrides⟩ := decodeRuntimeConfig_stored venue hdefaults
      htemplates (fun other stored h => exists_targetOfJson hreadable htargets h) hlow hhigh
    obtain ⟨effective, hoverlay, hagrees⟩ := overlay_symbolOverride hselected hfamily hbase
    have hoverride : decoded.symbolOverrides[symbol]? =
        (symbolOverride p.orderParameters selected).map SymbolOverride.toJson := by
      rw [hoverrides, getElem?_storedOverrides, hsymbol]
      rfl
    refine ⟨decoded, effective, ?_, ?_, hagrees, ?_⟩
    · rw [hexpected]
      exact hdecoded
    · rw [hoverride]
      exact hoverlay
    · rw [hoverride, Option.map_eq_none_iff]
      exact symbolOverride_eq_none hfamily

end

/-! A batch strategy with one symbol on the grid. -/

attribute [local instance] Text.Unicode.ascii

def batchTemplate : OrderParameters ℚ where
  algorithm := .batch
  pov := ⟨1 / 10, 300, 600, 5000, 1000, 3600000, "maker_then_taker", none⟩
  grid := ⟨⟨3, 1000, 1, some 2⟩, ⟨3, 2000, 1, none⟩⟩
  chase := ⟨100, 4, 2, 5, 1000, 120, 10, 0, 0⟩
  signalExecutionEnabled := true
  singleOrderUsdt := 100
  ordersPerBatch := 3
  maxBatch := 20
  makerPriceAnchor := "own_best"
  tickSpacing := 1
  batchIntervalMs := 500
  makerTimeoutMs := 1000
  maxMakerRequotes := 2
  targetToleranceUsdt := 10

def gridTemplate : OrderParameters ℚ := { batchTemplate with algorithm := .grid, maxBatch := 5 }

theorem encodable_exact {numbers : List ℚ} {words : List Nat} (h : ∀ n ∈ words, n < 2 ^ 32) :
    Encodable numbers words := ⟨fun _ _ => rfl, h⟩

theorem batchTemplate_encodable : batchTemplate.Encodable where
  pov := encodable_exact (by decide)
  grid := ⟨encodable_exact (by decide), encodable_exact (by decide)⟩
  chase := encodable_exact (by decide)
  own := encodable_exact (by decide)

theorem gridTemplate_encodable : gridTemplate.Encodable where
  pov := batchTemplate_encodable.pov
  grid := batchTemplate_encodable.grid
  chase := batchTemplate_encodable.chase
  own := encodable_exact (by decide)

def gridPublication : Publication ℚ where
  source := ⟨"model", "binance-futures", .ok ∅⟩
  strategyName := "alpha"
  orderParameters := batchTemplate
  symbolOrderParameters := (∅ : OrdMap String (OrderParameters ℚ)).insert "BTCUSDT" gridTemplate
  targets := (∅ : OrdMap String (TargetPosition ℚ)).insert "BTCUSDT" ⟨false, 2, 1⟩

theorem overlay_reproduces_grid :
    batchTemplate.validate = .ok () ∧ gridTemplate.validate = .ok () ∧
      ∃ plan decoded effective,
        gridPublication.prepareMarket (fun _ => none) 5 "binance-futures" = .ok plan ∧
        decodeRuntimeConfig plan.confirmation.expected.toJson .batchExec = .ok decoded ∧
        overlay .batchExec decoded.orderParameters decoded.symbolOverrides["BTCUSDT"]? =
          .ok effective ∧
        Agrees effective gridTemplate ∧ decoded.symbolOverrides["BTCUSDT"]? ≠ none := by
  obtain ⟨plan, hplan, -⟩ := exists_ok_of_any
    (x := gridPublication.prepareMarket (fun _ => none) 5 "binance-futures")
    (P := fun _ => true) (by decide +kernel)
  have hsymbol : (ofMarket "binance-futures" gridPublication.symbolOrderParameters)["BTCUSDT"]? =
      some gridTemplate := by
    decide +kernel
  have htemplates : ∀ (other : String) template, (ofMarket "binance-futures"
      gridPublication.symbolOrderParameters)[other]? = some template → template.Encodable := by
    intro other template h
    rw [getElem?_ofMarket] at h
    split at h
    · unfold gridPublication at h
      dsimp only at h
      rw [OrdMap.getElem?_insert_of_key] at h
      split at h
      · cases h
        exact gridTemplate_encodable
      · rw [Std.ExtTreeMap.getElem?_empty] at h
        cases h
    · cases h
  have htargets : ∀ (other : String) target, gridPublication.targets[other]? = some target →
      Readable target := by
    intro other target h
    unfold gridPublication at h
    dsimp only at h
    rw [OrdMap.getElem?_insert_of_key] at h
    split at h
    · cases h
      exact ⟨rfl, by decide⟩
    · rw [Std.ExtTreeMap.getElem?_empty] at h
      cases h
  obtain ⟨-, hredis, -⟩ :=
    overlay_reproduces batchTemplate_encodable gridTemplate_encodable (by decide)
  obtain ⟨decoded, effective, hdecoded, hoverlay, hagrees, hnone⟩ := hredis gridPublication _ 5
    "binance-futures" "BTCUSDT" plan rfl hsymbol htemplates htargets (by decide) (by decide) hplan
  refine ⟨by decide +kernel, by decide +kernel, plan, decoded, effective, hplan, hdecoded,
    hoverlay, hagrees, fun h => ?_⟩
  exact absurd (hnone.1 h).1 (by decide)

end CtaManager.Exec
