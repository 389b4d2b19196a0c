import CtaManager.Exec.RedisRuntime
import CtaManager.Library.Json

/-!
The JSON of order parameters and of their overrides (`order_config.rs`).

Only the documents are modelled: the text of a document reads back as that document.  A number
that is not finite is written as `null`, and a `u32` is read within its range, so a record reads
back where its numbers are finite and its integers are such words (`Encodable`).
-/

namespace CtaManager.Exec

open Check Json

section

variable {F : Type} [F64 F]

/-! ## Writing -/

def ofF64 (x : F) : Json F := if F64.isFinite x then .float x else .null

def ofU32 (n : Nat) : Json F := .integer n

/-- An option that is not left out. -/
def ofOption {α : Type} (encode : α → Json F) : Option α → Json F
  | none => .null
  | some a => encode a

def ExecutionAlgorithm.toJson (algorithm : ExecutionAlgorithm) : Json F := .string algorithm.asStr

def GridMarketParameters.toFields (p : GridMarketParameters F) : List (String × Option (Json F)) :=
  [("orders_per_batch", some (ofU32 p.ordersPerBatch)),
    ("maker_timeout_ms", some (ofU32 p.makerTimeoutMs)),
    ("vol_multiplier", some (ofF64 p.volMultiplier)),
    ("max_maker_requotes", some (ofOption ofU32 p.maxMakerRequotes))]

def GridMarketParameters.toJson (p : GridMarketParameters F) : Json F := record p.toFields

def GridParameters.toFields (p : GridParameters F) : List (String × Option (Json F)) :=
  [("spot", some p.spot.toJson), ("futures", some p.futures.toJson)]

def GridParameters.toJson (p : GridParameters F) : Json F := record p.toFields

def PovParameters.toFields (p : PovParameters F) : List (String × Option (Json F)) :=
  [("participation_rate", some (ofF64 p.participationRate)),
    ("max_batch_usdt", some (ofF64 p.maxBatchUsdt)),
    ("max_carry_usdt", some (ofF64 p.maxCarryUsdt)),
    ("volume_stale_ms", some (ofU32 p.volumeStaleMs)),
    ("quote_stale_ms", some (ofU32 p.quoteStaleMs)),
    ("duration_ms", some (ofU32 p.durationMs)),
    ("liquidity", some (.string p.liquidity)),
    ("limit_price", some (ofOption ofF64 p.limitPrice))]

def PovParameters.toJson (p : PovParameters F) : Json F := record p.toFields

/-- The fields of `ChaseParameters`. -/
def ChaseParameters.toFields (p : ChaseParameters F) : List (String × Option (Json F)) :=
  [("batch_floor_usdt", some (ofF64 p.batchFloorUsdt)),
    ("max_batch", some (ofU32 p.maxBatch)),
    ("max_open_batches", some (ofU32 p.maxOpenBatches)),
    ("maker_recenter_trigger_bps", some (ofF64 p.makerRecenterTriggerBps)),
    ("maker_amend_cooldown_ms", some (ofU32 p.makerAmendCooldownMs)),
    ("maker_timeout_sec", some (ofU32 p.makerTimeoutSec)),
    ("target_tolerance_usdt", some (ofF64 p.targetToleranceUsdt)),
    ("strategy_order_rate_limit_per_min", some (ofU32 p.strategyOrderRateLimitPerMin)),
    ("strategy_order_rate_limit_10s", some (ofU32 p.strategyOrderRateLimit10s))]

/-- The parameters of a `StoredBatchExecConfig`, and those of `runtime_order_parameters`. -/
def StoredBatchParameters.toFields (p : StoredBatchParameters F) : List (String × Option (Json F)) :=
  [("algorithm", some p.algorithm.toJson),
    ("pov", some p.pov.toJson),
    ("grid", p.grid.map GridParameters.toJson),
    ("single_order_usdt", some (ofF64 p.singleOrderUsdt)),
    ("orders_per_batch", some (ofU32 p.ordersPerBatch)),
    ("max_batch", some (ofU32 p.maxBatch)),
    ("maker_price_anchor", some (.string p.makerPriceAnchor)),
    ("tick_spacing", some (ofU32 p.tickSpacing)),
    ("batch_interval_ms", some (ofU32 p.batchIntervalMs)),
    ("maker_timeout_ms", some (ofU32 p.makerTimeoutMs)),
    ("max_maker_requotes", some (ofU32 p.maxMakerRequotes)),
    ("target_tolerance_usdt", some (ofF64 p.targetToleranceUsdt))]

def OrderParameterOverrides.toFields (o : OrderParameterOverrides F) : List (String × Option (Json F)) :=
  [("algorithm", o.algorithm.map ExecutionAlgorithm.toJson),
    ("pov", o.pov.map PovParameters.toJson),
    ("grid", o.grid.map GridParameters.toJson),
    ("single_order_usdt", o.singleOrderUsdt.map ofF64),
    ("orders_per_batch", o.ordersPerBatch.map ofU32),
    ("max_batch", o.maxBatch.map ofU32),
    ("maker_price_anchor", o.makerPriceAnchor.map Json.string),
    ("tick_spacing", o.tickSpacing.map ofU32),
    ("batch_interval_ms", o.batchIntervalMs.map ofU32),
    ("maker_timeout_ms", o.makerTimeoutMs.map ofU32),
    ("max_maker_requotes", o.maxMakerRequotes.map ofU32),
    ("target_tolerance_usdt", o.targetToleranceUsdt.map ofF64)]

def OrderParameterOverrides.toJson (o : OrderParameterOverrides F) : Json F := record o.toFields

def ChaseParameterOverrides.toFields (o : ChaseParameterOverrides F) : List (String × Option (Json F)) :=
  [("batch_floor_usdt", o.batchFloorUsdt.map ofF64),
    ("max_batch", o.maxBatch.map ofU32),
    ("max_open_batches", o.maxOpenBatches.map ofU32),
    ("maker_recenter_trigger_bps", o.makerRecenterTriggerBps.map ofF64),
    ("maker_amend_cooldown_ms", o.makerAmendCooldownMs.map ofU32),
    ("maker_timeout_sec", o.makerTimeoutSec.map ofU32),
    ("target_tolerance_usdt", o.targetToleranceUsdt.map ofF64)]

def ChaseParameterOverrides.toJson (o : ChaseParameterOverrides F) : Json F := record o.toFields

/-! ## Reading -/

variable [IntCast F]

def toF64 : Json F → Except String F
  | .integer n => .ok (n : F)
  | .float x => .ok x
  | _ => .error "invalid type: expected f64"

def ExecutionAlgorithm.ofJson (value : Json F) : Except String ExecutionAlgorithm := do
  let text ← value.toStr
  match text with
  | "batch" => return .batch
  | "pov" => return .pov
  | "chase" => return .chase
  | "ctaker" => return .ctaker
  | "grid" => return .grid
  | _ => .error "unknown variant"

/-- `GridSpotParameters::default` and `GridFuturesParameters::default`. -/
def GridMarketParameters.default (maxMakerRequotes : Option Nat) : GridMarketParameters F :=
  ⟨3, 1000, 1, maxMakerRequotes⟩

def GridParameters.default : GridParameters F := ⟨.default (some 2), .default none⟩

def PovParameters.default : PovParameters F where
  participationRate := 1 / ((10 : Int) : F)
  maxBatchUsdt := ((300 : Int) : F)
  maxCarryUsdt := ((600 : Int) : F)
  volumeStaleMs := 5000
  quoteStaleMs := 1000
  durationMs := 3600000
  liquidity := "maker_then_taker"
  limitPrice := none

def ChaseParameters.default : ChaseParameters F where
  batchFloorUsdt := ((100 : Int) : F)
  maxBatch := 4
  maxOpenBatches := 2
  makerRecenterTriggerBps := ((5 : Int) : F)
  makerAmendCooldownMs := 1000
  makerTimeoutSec := 120
  targetToleranceUsdt := ((10 : Int) : F)
  strategyOrderRateLimitPerMin := 0
  strategyOrderRateLimit10s := 0

def OrderParameters.default : OrderParameters F where
  algorithm := .batch
  pov := .default
  grid := .default
  chase := .default
  signalExecutionEnabled := true
  singleOrderUsdt := ((100 : Int) : F)
  ordersPerBatch := 3
  maxBatch := 20
  makerPriceAnchor := "own_best"
  tickSpacing := 1
  batchIntervalMs := 500
  makerTimeoutMs := 1000
  maxMakerRequotes := 2
  targetToleranceUsdt := ((10 : Int) : F)

/-- One market, with the requotes it has by default. -/
def GridMarketParameters.ofJson (dflt : GridMarketParameters F) (value : Json F) :
    Except String (GridMarketParameters F) := do
  let fields ← value.fields
  denyUnknown ["orders_per_batch", "maker_timeout_ms", "vol_multiplier", "max_maker_requotes"] fields
  let ordersPerBatch ← defaulted toU32 dflt.ordersPerBatch fields "orders_per_batch"
  let makerTimeoutMs ← defaulted toU32 dflt.makerTimeoutMs fields "maker_timeout_ms"
  let volMultiplier ← defaulted toF64 dflt.volMultiplier fields "vol_multiplier"
  let maxMakerRequotes ←
    defaulted (nullable toU32) dflt.maxMakerRequotes fields "max_maker_requotes"
  return { ordersPerBatch, makerTimeoutMs, volMultiplier, maxMakerRequotes }

def GridParameters.ofJson (value : Json F) : Except String (GridParameters F) := do
  let dflt : GridParameters F := .default
  let fields ← value.fields
  denyUnknown ["spot", "futures"] fields
  let spot ← defaulted (GridMarketParameters.ofJson dflt.spot) dflt.spot fields "spot"
  let futures ← defaulted (GridMarketParameters.ofJson dflt.futures) dflt.futures fields "futures"
  return { spot, futures }

def PovParameters.ofJson (value : Json F) : Except String (PovParameters F) := do
  let dflt : PovParameters F := .default
  let fields ← value.fields
  denyUnknown ["participation_rate", "max_batch_usdt", "max_carry_usdt", "volume_stale_ms",
    "quote_stale_ms", "duration_ms", "liquidity", "limit_price"] fields
  let participationRate ← defaulted toF64 dflt.participationRate fields "participation_rate"
  let maxBatchUsdt ← defaulted toF64 dflt.maxBatchUsdt fields "max_batch_usdt"
  let maxCarryUsdt ← defaulted toF64 dflt.maxCarryUsdt fields "max_carry_usdt"
  let volumeStaleMs ← defaulted toU32 dflt.volumeStaleMs fields "volume_stale_ms"
  let quoteStaleMs ← defaulted toU32 dflt.quoteStaleMs fields "quote_stale_ms"
  let durationMs ← defaulted toU32 dflt.durationMs fields "duration_ms"
  let liquidity ← defaulted toStr dflt.liquidity fields "liquidity"
  let limitPrice ← defaulted (nullable toF64) dflt.limitPrice fields "limit_price"
  return { participationRate, maxBatchUsdt, maxCarryUsdt, volumeStaleMs, quoteStaleMs, durationMs,
           liquidity, limitPrice }

def OrderParameterOverrides.ofJson (value : Json F) :
    Except String (OrderParameterOverrides F) := do
  let fields ← value.fields
  denyUnknown ["algorithm", "pov", "grid", "single_order_usdt", "orders_per_batch", "max_batch",
    "maker_price_anchor", "tick_spacing", "batch_interval_ms", "maker_timeout_ms",
    "max_maker_requotes", "target_tolerance_usdt"] fields
  let algorithm ← optional ExecutionAlgorithm.ofJson fields "algorithm"
  let pov ← optional PovParameters.ofJson fields "pov"
  let grid ← optional GridParameters.ofJson fields "grid"
  let singleOrderUsdt ← optional toF64 fields "single_order_usdt"
  let ordersPerBatch ← optional toU32 fields "orders_per_batch"
  let maxBatch ← optional toU32 fields "max_batch"
  let makerPriceAnchor ← optional toStr fields "maker_price_anchor"
  let tickSpacing ← optional toU32 fields "tick_spacing"
  let batchIntervalMs ← optional toU32 fields "batch_interval_ms"
  let makerTimeoutMs ← optional toU32 fields "maker_timeout_ms"
  let maxMakerRequotes ← optional toU32 fields "max_maker_requotes"
  let targetToleranceUsdt ← optional toF64 fields "target_tolerance_usdt"
  return { algorithm, pov, grid, singleOrderUsdt, ordersPerBatch, maxBatch, makerPriceAnchor,
           tickSpacing, batchIntervalMs, makerTimeoutMs, maxMakerRequotes, targetToleranceUsdt }

def ChaseParameterOverrides.ofJson (value : Json F) :
    Except String (ChaseParameterOverrides F) := do
  let fields ← value.fields
  denyUnknown ["batch_floor_usdt", "max_batch", "max_open_batches", "maker_recenter_trigger_bps",
    "maker_amend_cooldown_ms", "maker_timeout_sec", "target_tolerance_usdt"] fields
  let batchFloorUsdt ← optional toF64 fields "batch_floor_usdt"
  let maxBatch ← optional toU32 fields "max_batch"
  let maxOpenBatches ← optional toU32 fields "max_open_batches"
  let makerRecenterTriggerBps ← optional toF64 fields "maker_recenter_trigger_bps"
  let makerAmendCooldownMs ← optional toU32 fields "maker_amend_cooldown_ms"
  let makerTimeoutSec ← optional toU32 fields "maker_timeout_sec"
  let targetToleranceUsdt ← optional toF64 fields "target_tolerance_usdt"
  return { batchFloorUsdt, maxBatch, maxOpenBatches, makerRecenterTriggerBps,
           makerAmendCooldownMs, makerTimeoutSec, targetToleranceUsdt }

/-! ## Round trips -/

omit [IntCast F] in
theorem ofF64_ne_null {x : F} (h : F64.isFinite x = true) : ofF64 x ≠ .null := by
  unfold ofF64
  rw [if_pos h]
  intro heq
  cases heq

theorem toF64_ofF64 {x : F} (h : F64.isFinite x = true) : toF64 (ofF64 x) = .ok x := by
  unfold ofF64
  rw [if_pos h]
  rfl

omit [F64 F] [IntCast F] in
theorem toU32_ofU32 {n : Nat} (h : n < 2 ^ 32) : toU32 (ofU32 (F := F) n) = .ok n :=
  toU32_integer h

omit [F64 F] [IntCast F] in
/-- An option is written as `null` or as its value. -/
theorem nullable_ofOption {α : Type} {encode : α → Json F} {decode : Json F → Except String α}
    {value : Option α}
    (h : ∀ a, value = some a → encode a ≠ .null ∧ decode (encode a) = .ok a) :
    nullable decode (ofOption encode value) = .ok value := by
  cases value with
  | none => rfl
  | some a =>
    obtain ⟨hnull, hread⟩ := h a rfl
    show nullable decode (encode a) = .ok (some a)
    unfold nullable
    split
    · next heq => exact absurd heq hnull
    · rw [hread]
      rfl

omit [F64 F] [IntCast F] in
theorem ExecutionAlgorithm.ofJson_toJson (algorithm : ExecutionAlgorithm) :
    ExecutionAlgorithm.ofJson (F := F) algorithm.toJson = .ok algorithm := by
  cases algorithm <;> rfl

/-- The numbers of a record can be written, and its integers are words. -/
structure Encodable (numbers : List F) (words : List Nat) : Prop where
  number : ∀ x ∈ numbers, F64.isFinite x = true
  word : ∀ n ∈ words, n < 2 ^ 32

def GridMarketParameters.Encodable (p : GridMarketParameters F) : Prop :=
  Exec.Encodable [p.volMultiplier]
    (p.ordersPerBatch :: p.makerTimeoutMs :: p.maxMakerRequotes.toList)

def GridParameters.Encodable (p : GridParameters F) : Prop :=
  p.spot.Encodable ∧ p.futures.Encodable

def PovParameters.Encodable (p : PovParameters F) : Prop :=
  Exec.Encodable (p.participationRate :: p.maxBatchUsdt :: p.maxCarryUsdt :: p.limitPrice.toList)
    [p.volumeStaleMs, p.quoteStaleMs, p.durationMs]

def ChaseParameters.Encodable (p : ChaseParameters F) : Prop :=
  Exec.Encodable [p.batchFloorUsdt, p.makerRecenterTriggerBps, p.targetToleranceUsdt]
    [p.maxBatch, p.maxOpenBatches, p.makerAmendCooldownMs, p.makerTimeoutSec,
      p.strategyOrderRateLimitPerMin, p.strategyOrderRateLimit10s]

theorem GridMarketParameters.ofJson_toJson (dflt : GridMarketParameters F)
    {p : GridMarketParameters F} (h : p.Encodable) :
    GridMarketParameters.ofJson dflt p.toJson = .ok p := by
  have hnodup : (p.toFields.map Prod.fst).Nodup := by
    show ["orders_per_batch", "maker_timeout_ms", "vol_multiplier", "max_maker_requotes"].Nodup
    decide
  have hrequotes : nullable toU32 (ofOption (F := F) ofU32 p.maxMakerRequotes) =
      .ok p.maxMakerRequotes := by
    refine nullable_ofOption fun n hn => ⟨(nomatch ·), toU32_ofU32 (h.word n ?_)⟩
    simp [hn]
  unfold GridMarketParameters.ofJson GridMarketParameters.toJson
  rw [fields_record, ok_bind, denyUnknown_present (by exact fun _ h => h), ok_bind,
    defaulted_some hnodup 0 rfl, toU32_ofU32 (h.word _ (by simp)), ok_bind,
    defaulted_some hnodup 1 rfl, toU32_ofU32 (h.word _ (by simp)), ok_bind,
    defaulted_some hnodup 2 rfl, toF64_ofF64 (h.number _ (by simp)), ok_bind,
    defaulted_some hnodup 3 rfl, hrequotes, ok_bind]
  rfl

theorem GridParameters.ofJson_toJson {p : GridParameters F} (h : p.Encodable) :
    GridParameters.ofJson p.toJson = .ok p := by
  have hnodup : (p.toFields.map Prod.fst).Nodup := by
    show ["spot", "futures"].Nodup
    decide
  unfold GridParameters.ofJson GridParameters.toJson
  dsimp only
  rw [fields_record, ok_bind, denyUnknown_present (by exact fun _ h => h), ok_bind,
    defaulted_some hnodup 0 rfl, GridMarketParameters.ofJson_toJson _ h.1, ok_bind,
    defaulted_some hnodup 1 rfl, GridMarketParameters.ofJson_toJson _ h.2, ok_bind]
  rfl

theorem PovParameters.ofJson_toJson {p : PovParameters F} (h : p.Encodable) :
    PovParameters.ofJson p.toJson = .ok p := by
  have hnodup : (p.toFields.map Prod.fst).Nodup := by
    show ["participation_rate", "max_batch_usdt", "max_carry_usdt", "volume_stale_ms",
      "quote_stale_ms", "duration_ms", "liquidity", "limit_price"].Nodup
    decide
  have hprice : nullable toF64 (ofOption ofF64 p.limitPrice) = .ok p.limitPrice := by
    refine nullable_ofOption fun x hx => ?_
    have hfinite : F64.isFinite x = true := h.number x (by simp [hx])
    exact ⟨ofF64_ne_null hfinite, toF64_ofF64 hfinite⟩
  unfold PovParameters.ofJson PovParameters.toJson
  dsimp only
  rw [fields_record, ok_bind, denyUnknown_present (by exact fun _ h => h), ok_bind,
    defaulted_some hnodup 0 rfl, toF64_ofF64 (h.number _ (by simp)), ok_bind,
    defaulted_some hnodup 1 rfl, toF64_ofF64 (h.number _ (by simp)), ok_bind,
    defaulted_some hnodup 2 rfl, toF64_ofF64 (h.number _ (by simp)), ok_bind,
    defaulted_some hnodup 3 rfl, toU32_ofU32 (h.word _ (by simp)), ok_bind,
    defaulted_some hnodup 4 rfl, toU32_ofU32 (h.word _ (by simp)), ok_bind,
    defaulted_some hnodup 5 rfl, toU32_ofU32 (h.word _ (by simp)), ok_bind,
    defaulted_some hnodup 6 rfl, toStr, ok_bind,
    defaulted_some hnodup 7 rfl, hprice, ok_bind]
  rfl

/-! ## The overrides of a template -/

/-- The template can be written: what the type `u32` and JSON numbers are able to hold. -/
structure OrderParameters.Encodable (p : OrderParameters F) : Prop where
  pov : p.pov.Encodable
  grid : p.grid.Encodable
  chase : p.chase.Encodable
  own : Exec.Encodable [p.singleOrderUsdt, p.targetToleranceUsdt]
    [p.ordersPerBatch, p.maxBatch, p.tickSpacing, p.batchIntervalMs, p.makerTimeoutMs,
      p.maxMakerRequotes]

omit [F64 F] [IntCast F] in
/-- An override is read as it was written. -/
theorem optional_changed {α : Type} [DecidableEq α] {fields : List (String × Option (Json F))}
    (hnodup : (fields.map Prod.fst).Nodup) (i : Nat) {name : String} {encode : α → Json F}
    {selected defaults : α}
    (h : fields[i]? = some (name, (changed selected defaults).map encode))
    {decode : Json F → Except String α} (hnull : encode selected ≠ .null)
    (hdecode : decode (encode selected) = .ok selected) :
    optional decode (present fields) name = .ok (changed selected defaults) := by
  refine optional_present hnodup i h fun a ha => ?_
  unfold changed at ha
  split at ha
  · cases ha
    exact ⟨hnull, hdecode⟩
  · cases ha

variable [DecidableEq F]

theorem ChaseParameterOverrides.ofJson_toJson {defaults selected : ChaseParameters F}
    (h : selected.Encodable) :
    ChaseParameterOverrides.ofJson (ChaseParameterOverrides.fromTemplates defaults selected).toJson =
      .ok (ChaseParameterOverrides.fromTemplates defaults selected) := by
  have hnodup : ((ChaseParameterOverrides.fromTemplates defaults selected).toFields.map
      Prod.fst).Nodup := by
    show ["batch_floor_usdt", "max_batch", "max_open_batches", "maker_recenter_trigger_bps",
      "maker_amend_cooldown_ms", "maker_timeout_sec", "target_tolerance_usdt"].Nodup
    decide
  have hnumber : ∀ x ∈ [selected.batchFloorUsdt, selected.makerRecenterTriggerBps,
      selected.targetToleranceUsdt], ofF64 x ≠ .null ∧ toF64 (ofF64 x) = .ok x :=
    fun x hx => ⟨ofF64_ne_null (h.number x hx), toF64_ofF64 (h.number x hx)⟩
  obtain ⟨hfloor, hbps, htolerance⟩ := by simpa using hnumber
  unfold ChaseParameterOverrides.ofJson ChaseParameterOverrides.toJson
  rw [fields_record, ok_bind, denyUnknown_present (by exact fun _ h => h), ok_bind,
    optional_changed hnodup 0 rfl hfloor.1 hfloor.2, ok_bind,
    optional_changed hnodup 1 rfl (nomatch ·) (toU32_ofU32 (h.word _ (by simp))), ok_bind,
    optional_changed hnodup 2 rfl (nomatch ·) (toU32_ofU32 (h.word _ (by simp))), ok_bind,
    optional_changed hnodup 3 rfl hbps.1 hbps.2, ok_bind,
    optional_changed hnodup 4 rfl (nomatch ·) (toU32_ofU32 (h.word _ (by simp))), ok_bind,
    optional_changed hnodup 5 rfl (nomatch ·) (toU32_ofU32 (h.word _ (by simp))), ok_bind,
    optional_changed hnodup 6 rfl htolerance.1 htolerance.2, ok_bind]
  rfl

theorem OrderParameterOverrides.ofJson_toJson {defaults selected : OrderParameters F}
    (h : selected.Encodable) :
    OrderParameterOverrides.ofJson (OrderParameterOverrides.fromTemplates defaults selected).toJson =
      .ok (OrderParameterOverrides.fromTemplates defaults selected) := by
  have hnodup : ((OrderParameterOverrides.fromTemplates defaults selected).toFields.map
      Prod.fst).Nodup := by
    show ["algorithm", "pov", "grid", "single_order_usdt", "orders_per_batch", "max_batch",
      "maker_price_anchor", "tick_spacing", "batch_interval_ms", "maker_timeout_ms",
      "max_maker_requotes", "target_tolerance_usdt"].Nodup
    decide
  have hnumber : ∀ x ∈ [selected.singleOrderUsdt, selected.targetToleranceUsdt],
      ofF64 x ≠ .null ∧ toF64 (ofF64 x) = .ok x :=
    fun x hx => ⟨ofF64_ne_null (h.own.number x hx), toF64_ofF64 (h.own.number x hx)⟩
  obtain ⟨hsingle, htolerance⟩ := by simpa using hnumber
  -- the grid parameters that are written are the selected ones
  have hgrid : optional GridParameters.ofJson
      (present (OrderParameterOverrides.fromTemplates defaults selected).toFields) "grid" =
        .ok (OrderParameterOverrides.fromTemplates defaults selected).grid := by
    refine optional_present hnodup 2 rfl fun grid hg => ?_
    unfold OrderParameterOverrides.fromTemplates at hg
    dsimp only at hg
    split at hg
    · cases hg
      exact ⟨(nomatch ·), GridParameters.ofJson_toJson h.grid⟩
    · cases hg
  unfold OrderParameterOverrides.ofJson OrderParameterOverrides.toJson
  rw [fields_record, ok_bind, denyUnknown_present (by exact fun _ h => h), ok_bind,
    optional_changed hnodup 0 rfl (nomatch ·) (ExecutionAlgorithm.ofJson_toJson _), ok_bind,
    optional_changed hnodup 1 rfl (nomatch ·) (PovParameters.ofJson_toJson h.pov), ok_bind,
    hgrid, ok_bind,
    optional_changed hnodup 3 rfl hsingle.1 hsingle.2, ok_bind,
    optional_changed hnodup 4 rfl (nomatch ·) (toU32_ofU32 (h.own.word _ (by simp))), ok_bind,
    optional_changed hnodup 5 rfl (nomatch ·) (toU32_ofU32 (h.own.word _ (by simp))), ok_bind,
    optional_changed hnodup 6 rfl (nomatch ·) rfl, ok_bind,
    optional_changed hnodup 7 rfl (nomatch ·) (toU32_ofU32 (h.own.word _ (by simp))), ok_bind,
    optional_changed hnodup 8 rfl (nomatch ·) (toU32_ofU32 (h.own.word _ (by simp))), ok_bind,
    optional_changed hnodup 9 rfl (nomatch ·) (toU32_ofU32 (h.own.word _ (by simp))), ok_bind,
    optional_changed hnodup 10 rfl (nomatch ·) (toU32_ofU32 (h.own.word _ (by simp))), ok_bind,
    optional_changed hnodup 11 rfl htolerance.1 htolerance.2, ok_bind]
  rfl

end

end CtaManager.Exec
