import CtaManager.Catalog.PositionStrategy
import CtaManager.Exec.Routing
import CtaManager.Library.KeyValue

/-!
The publication of strategies to Exec through Redis (`redis_runtime.rs`).

A call reads the store, collects its writes in one pipeline and commits it with
`MULTI`/`EXEC`; what it read is not watched.  `Publication.prepare` and
`prepareRemoval` are the calls up to the commit.  A stored value is what its text
parses to: a list of names, a configuration, an algorithm switch, or a text that is
none of them.
-/

namespace CtaManager.Exec

open Check Catalog

/-- The keys of one market of a source. -/
structure Market where
  sourceId : String
  venue : String
  deriving DecidableEq

inductive Key where
  | config (market : Market) (family : ExecutionFamily) (strategyName : String)
  | strategyNames (market : Market) (family : ExecutionFamily)
  | removedStrategyNames (market : Market) (family : ExecutionFamily)
  | switchNames (market : Market)
  | switch (market : Market) (strategyName : String)
  deriving DecidableEq

def Key.market : Key → Market
  | .config market _ _ | .strategyNames market _ | .removedStrategyNames market _
  | .switchNames market | .switch market _ => market

/-- The last two parts of a key. -/
def Key.leaf : Key → String × String
  | .config _ family name => (family.redisNamespace, name)
  | .strategyNames _ family => (family.redisNamespace, "strategy_names")
  | .removedStrategyNames _ family => (family.redisNamespace, "removed_strategy_names")
  | .switchNames _ => ("exec_switch", "strategy_names")
  | .switch _ name => ("exec_switch", name)

/-- The text of a key. -/
def Key.text (key : Key) : String :=
  key.market.sourceId ++ ":" ++ key.market.venue ++ ":" ++ key.leaf.1 ++ ":" ++ key.leaf.2

/-- The parts of a key are separated by colons, and a strategy has no reserved name. -/
def Key.Valid (key : Key) : Prop :=
  ':' ∉ key.market.sourceId.toList ∧ ':' ∉ key.market.venue.toList ∧
    match key with
    | .config _ _ name | .switch _ name =>
      name ≠ "strategy_names" ∧ name ≠ "removed_strategy_names"
    | _ => True

theorem colon_cut_inj {a a' b b' : List Char} (ha : ':' ∉ a) (ha' : ':' ∉ a')
    (h : a ++ ':' :: b = a' ++ ':' :: b') : a = a' ∧ b = b' := by
  induction a generalizing a' with
  | nil =>
    cases a' with
    | nil =>
      rw [List.nil_append, List.nil_append, List.cons.injEq] at h
      exact ⟨rfl, h.2⟩
    | cons c a' =>
      rw [List.nil_append, List.cons_append, List.cons.injEq] at h
      exact absurd (h.1 ▸ List.mem_cons_self) ha'
  | cons c a ih =>
    cases a' with
    | nil =>
      rw [List.nil_append, List.cons_append, List.cons.injEq] at h
      exact absurd (h.1 ▸ List.mem_cons_self) ha
    | cons c' a' =>
      rw [List.cons_append, List.cons_append, List.cons.injEq] at h
      rw [List.mem_cons, not_or] at ha ha'
      obtain ⟨rfl, rfl⟩ := ih ha.2 ha'.2 h.2
      exact ⟨by rw [h.1], rfl⟩

/-- Keys with the same text are the same key. -/
theorem Key.text_inj {key key' : Key} (hv : key.Valid) (hv' : key'.Valid)
    (h : key.text = key'.text) : key = key' := by
  have hns : ∀ k : Key, ':' ∉ k.leaf.1.toList := by
    intro k
    cases k with
    | config _ family _ => cases family <;> simp [Key.leaf, ExecutionFamily.redisNamespace]
    | strategyNames _ family => cases family <;> simp [Key.leaf, ExecutionFamily.redisNamespace]
    | removedStrategyNames _ family => cases family <;> simp [Key.leaf, ExecutionFamily.redisNamespace]
    | switchNames _ => simp [Key.leaf]
    | switch _ _ => simp [Key.leaf]
  have htext := congrArg String.toList h
  simp only [Key.text, String.toList_append, List.append_assoc] at htext
  obtain ⟨hid, htext⟩ := colon_cut_inj hv.1 hv'.1 htext
  obtain ⟨hvenue, htext⟩ := colon_cut_inj hv.2.1 hv'.2.1 htext
  obtain ⟨hspace, hname⟩ := colon_cut_inj (hns key) (hns key') htext
  have hmarket : key.market = key'.market := by
    have hid := String.toList_inj.1 hid
    have hvenue := String.toList_inj.1 hvenue
    generalize key.market = m at hid hvenue ⊢
    generalize key'.market = m' at hid hvenue ⊢
    cases m
    cases m'
    cases hid
    cases hvenue
    rfl
  have hleaf : key.leaf = key'.leaf :=
    Prod.ext (String.toList_inj.1 hspace) (String.toList_inj.1 hname)
  have hfamily : ∀ f : ExecutionFamily, f.redisNamespace ≠ "exec_switch" := by
    intro f
    cases f <;> decide
  clear h htext hid hvenue hspace hname hns
  obtain ⟨-, -, hv⟩ := hv
  obtain ⟨-, -, hv'⟩ := hv'
  cases key <;> cases key' <;>
    simp_all [Key.market, Key.leaf] <;> grind [ExecutionFamily.redisNamespace_inj]
/-- A JSON quantity: a number, a string, or something else (`null` is the text of a
number that is not finite). -/
inductive StoredQty (F : Type) where
  | number (qty : F)
  | command (text : String)
  | other
  deriving DecidableEq

/-- The JSON of a target; a bare quantity reads as one without a signal. -/
inductive StoredTarget (F : Type) where
  | position (qty : StoredQty F) (signal : Option Int)
  | invalid
  deriving DecidableEq

/-- The parameters of a `StoredBatchExecConfig`. -/
structure StoredBatchParameters (F : Type) where
  algorithm : ExecutionAlgorithm
  pov : PovParameters F
  grid : Option (GridParameters F)
  singleOrderUsdt : F
  ordersPerBatch : Nat
  maxBatch : Nat
  makerPriceAnchor : String
  tickSpacing : Nat
  batchIntervalMs : Nat
  makerTimeoutMs : Nat
  maxMakerRequotes : Nat
  targetToleranceUsdt : F
  deriving DecidableEq

/-- The parameters of a configuration; a `StoredChaseExecConfig` has those of its
template.  `foreign` is a document of another writer. -/
inductive StoredParameters (F : Type) where
  | batch (parameters : StoredBatchParameters F)
  | chase (parameters : ChaseParameters F)
  | foreign (document : String)
  deriving DecidableEq

inductive SymbolOverride (F : Type) where
  | batch (overrides : OrderParameterOverrides F)
  | chase (overrides : ChaseParameterOverrides F)
  deriving DecidableEq

/-- A JSON document under a configuration key: its `targets` object and the integer in
its `updated_at_us`, if it has them. -/
structure StoredConfig (F : Type) where
  parameters : StoredParameters F
  symbolOverrides : OrdMap String (SymbolOverride F)
  targets : Option (OrdMap String (StoredTarget F))
  updatedAtUs : Option Int

instance {F : Type} [DecidableEq F] : DecidableEq (StoredConfig F)
  | ⟨p, o, t, u⟩, ⟨p', o', t', u'⟩ =>
    decidable_of_iff (p = p' ∧ o = o' ∧ t = t' ∧ u = u') (by simp)

structure StoredExecAlgorithmSwitch (F : Type) where
  fromFamily : String
  toFamily : String
  state : String
  requestedAtUs : Int
  updatedAtUs : Int
  positions : OrdMap String F
  inverseNotionals : OrdMap String F

inductive Value (F : Type) where
  | names (names : List String)
  | config (config : StoredConfig F)
  | switch (switch : StoredExecAlgorithmSwitch F)
  | text (text : String)

abbrev Store (F : Type) := KeyValue.Store Key (Value F)

section

variable {F : Type}

/-- `decode_strategy_names`: valid names without duplicates, sorted. -/
def decodeStrategyNames (raw : Option (Value F)) (label : String) :
    Except String (List String) :=
  match raw with
  | none => .ok []
  | some (.names names) => do
    names.forM validateRuntimeStrategyName
    ensure (decide names.Nodup) (label ++ " contains duplicate names")
    return names.insertionSort (· ≤ ·)
  | some _ => .error (label ++ " is not valid JSON")

/-- `load_stored_config`: any JSON document. -/
def loadStoredConfig : Option (Value F) → Except String (Option (StoredConfig F))
  | none => .ok none
  | some (.config config) => .ok (some config)
  | some (.names _) => .ok (some ⟨.foreign "names", ∅, none, none⟩)
  | some (.switch switch) => .ok (some ⟨.foreign "switch", ∅, none, some switch.updatedAtUs⟩)
  | some (.text _) => .error "Redis value is not valid JSON"

/-- `i64::MAX`. -/
def i64Max : Int := 2 ^ 63 - 1

/-- `next_updated_at_us`, at the time `nowUs`. -/
def nextUpdatedAtUs (nowUs : Int) (current : Option Int) : Int :=
  match current.filter fun value => decide (0 < value) with
  | some current => max nowUs (min i64Max (current + 1))
  | none => max nowUs 1

/-- The arguments of `publish_strategy_inner`. -/
structure Publication (F : Type) where
  source : SourceConfig
  strategyName : String
  orderParameters : OrderParameters F
  symbolOrderParameters : OrdMap String (OrderParameters F)
  targets : OrdMap String (TargetPosition F)

def Publication.family (p : Publication F) : ExecutionFamily := p.orderParameters.algorithm.family

def Publication.market (p : Publication F) (venue : String) : Market := ⟨p.source.id, venue⟩

/-- `filter_runtime_target_signals`. -/
def Publication.runtimeTargets (p : Publication F) : OrdMap String (TargetPosition F) :=
  p.targets.map fun symbol target =>
    if ((p.symbolOrderParameters[symbol]?).getD p.orderParameters).signalExecutionEnabled then target
    else { target with signal := 0 }

section

variable [Text.Unicode]

/-- The entries of a map that belong to the market of `venue`. -/
def ofMarket {V : Type} (venue : String) (values : OrdMap String V) : OrdMap String V :=
  values.filter fun symbol _ => (symbolMarket venue symbol).toOption == some venue

end

variable [F64 F]

/-- `TargetPosition::serialize`: serde writes a number that is not finite as `null`. -/
def encodeTarget (target : TargetPosition F) : StoredTarget F :=
  .position
    (if target.clear then .command "clear"
    else if F64.isFinite target.qty then .number target.qty else .other)
    (some target.signal)

/-- The serialization of the targets: it fails at a clear target with a quantity. -/
def encodeTargets (targets : OrdMap String (TargetPosition F)) :
    Except String (OrdMap String (StoredTarget F)) := do
  ensure (targets.toList.all fun (_, target) => !(target.clear && target.qty != 0))
    "failed to encode Exec Redis payload"
  return targets.map fun _ target => encodeTarget target

/-- `TargetPosition::new`. -/
def TargetPosition.new (qty : F) (signal : Int) : Except String (TargetPosition F) := do
  ensure (F64.isFinite qty) "qty must be finite"
  validateTargetSignal signal
  return { clear := false, qty, signal }

/-- `TargetPosition::deserialize`. -/
def decodeTarget : StoredTarget F → Except String (TargetPosition F)
  | .position (.number qty) signal => TargetPosition.new qty (signal.getD 0)
  | .position (.command command) signal =>
    if command = "clear" then do
      let target ← TargetPosition.new 0 (signal.getD 0)
      return { target with clear := true }
    else .error "qty must be a number or clear"
  | .position .other _ | .invalid => .error "data did not match any variant"

end

section

variable {F : Type} [F64 F] [DecidableEq F] [Text.Unicode]

def EXEC_VENUES : List String :=
  ["binance-futures", "binance-coin-futures", "okex-futures", "bybit-futures", "bitget-futures"]

def checkOverride (order : OrderParameters F) (symbol : String) (selected : OrderParameters F) :
    Except String Unit := do
  validateExecSymbol symbol
  selected.validate
  ensure (selected.algorithm.family == order.algorithm.family)
    ("symbol " ++ symbol ++ " selects " ++ selected.algorithm.asStr ++ " but the binding uses " ++
      order.algorithm.asStr ++ "; symbol overrides must stay in one execution family")

/-- The checks of `publish_strategy_inner` before it takes the connection; the markets of
the source. -/
def Publication.check (p : Publication F) : Except String (List String) := do
  validateRuntimeStrategyName p.strategyName
  p.orderParameters.validate
  validateGridAccount p.source p.orderParameters p.symbolOrderParameters
  p.symbolOrderParameters.toList.forM fun (symbol, selected) =>
    checkOverride p.orderParameters symbol selected
  ensure (EXEC_VENUES.contains p.source.venue)
    ("source " ++ p.source.id ++ " has an unsupported Exec venue")
  ensure (!(["strategy_names", "removed_strategy_names", "SYSTEM_POSITION_CLOSE"].contains
    p.strategyName)) "strategy_name is reserved"
  let venues ← markets p.source
  (p.targets.keys ++ p.symbolOrderParameters.keys).forM fun symbol => do
    let market ← symbolMarket p.source.venue symbol
    ensure (venues.contains market) ("source " ++ p.source.id ++ " does not support " ++ market)
  return venues

/-- The greatest version among the configurations of the markets. -/
def Publication.previousVersion (p : Publication F) (store : Store F) (venues : List String) :
    Except String (Option Int) :=
  venues.foldlM (fun previous venue => do
    let current ← loadStoredConfig (store (.config (p.market venue) p.family p.strategyName))
    return Option.merge max previous (current.bind StoredConfig.updatedAtUs)) none

/-- The symbol overrides of one market that differ from the base template. -/
def Publication.storedOverrides (p : Publication F) (venue : String) :
    OrdMap String (SymbolOverride F) :=
  (ofMarket venue p.symbolOrderParameters).filterMap fun _ selected =>
    match p.family with
    | .batchExec =>
      let value := OrderParameterOverrides.fromTemplates p.orderParameters selected
      if value.isEmpty then none else some (.batch value)
    | .chaseExec =>
      let value := ChaseParameterOverrides.fromTemplates p.orderParameters.chase selected.chase
      if value.isEmpty then none else some (.chase value)

def storedParameters (order : OrderParameters F) : StoredParameters F :=
  match order.algorithm.family with
  | .batchExec =>
    .batch
      { algorithm := order.algorithm
        pov := order.pov
        grid := if order.algorithm = .grid then some order.grid else none
        singleOrderUsdt := order.singleOrderUsdt
        ordersPerBatch := order.ordersPerBatch
        maxBatch := order.maxBatch
        makerPriceAnchor := order.makerPriceAnchor
        tickSpacing := order.tickSpacing
        batchIntervalMs := order.batchIntervalMs
        makerTimeoutMs := order.makerTimeoutMs
        maxMakerRequotes := order.maxMakerRequotes
        targetToleranceUsdt := order.targetToleranceUsdt }
  | .chaseExec => .chase order.chase

/-- What a publication reads back after the commit. -/
structure Confirmation (F : Type) where
  configKey : Key
  indexKey : Key
  switchKey : Key
  switching : Bool
  expected : StoredConfig F

/-- The writes of one market. -/
structure MarketPlan (F : Type) where
  pipe : List (Key × Value F)
  confirmation : Confirmation F

/-- The check of a switch record: `true` when it is completed and may be used again. -/
def reusableCompletedSwitch (family : ExecutionFamily) (strategyName : String)
    (raw : Option (Value F)) : Except String Bool :=
  match raw with
  | none => .ok false
  | some (.switch existing) => do
    ensure (existing.state == "completed" ||
        (existing.fromFamily == family.opposite.redisNamespace &&
          existing.toFamily == family.redisNamespace))
      ("algorithm switch already in progress for " ++ strategyName ++ ": " ++
        existing.fromFamily ++ " -> " ++ existing.toFamily ++ " (" ++ existing.state ++ ")")
    return existing.state == "completed"
  | some _ => .error "Exec algorithm switch is invalid JSON"

/-- The loop body of `publish_strategy_inner` for one market. -/
def Publication.prepareMarket (p : Publication F) (store : Store F) (updatedAtUs : Int)
    (venue : String) : Except String (MarketPlan F) := do
  let market := p.market venue
  let name := p.strategyName
  let removed ← decodeStrategyNames (store (.removedStrategyNames market p.family))
    "removed strategy index"
  ensure (!removed.contains name) ("strategy removal already requested: " ++ name)
  let names ← decodeStrategyNames (store (.strategyNames market p.family)) "strategy index"
  let oppositeNames ← decodeStrategyNames (store (.strategyNames market p.family.opposite))
    "opposite execution-family strategy index"
  let switching := oppositeNames.contains name
  let switchNames ← decodeStrategyNames (store (.switchNames market))
    "Exec algorithm switch index"
  let reusable ← reusableCompletedSwitch p.family name (store (.switch market name))
  ensure (!(switching && names.contains name))
    ("strategy " ++ name ++ " is active in both execution families; resolve the duplicate " ++
      "ownership before switching")
  let targets ← encodeTargets (ofMarket venue p.runtimeTargets)
  let expected : StoredConfig F :=
    { parameters := storedParameters p.orderParameters, symbolOverrides := p.storedOverrides venue
      targets := some targets, updatedAtUs := some updatedAtUs }
  let config := (Key.config market p.family name, Value.config expected)
  let ownership : List (Key × Value F) :=
    if switching && ((store (.switch market name)).isNone || reusable) then
      let switchNames := if switchNames.contains name then switchNames
        else (switchNames ++ [name]).insertionSort (· ≤ ·)
      [(.switchNames market, .names switchNames),
        (.switch market name, .switch
          { fromFamily := p.family.opposite.redisNamespace, toFamily := p.family.redisNamespace
            state := "requested", requestedAtUs := updatedAtUs, updatedAtUs, positions := ∅
            inverseNotionals := ∅ })]
    else if !switching && !names.contains name then
      [(.strategyNames market p.family, .names ((names ++ [name]).insertionSort (· ≤ ·)).dedup)]
    else []
  return { pipe := config :: ownership
           confirmation := ⟨.config market p.family name, .strategyNames market p.family,
             .switch market name, switching, expected⟩ }

/-- What a call has read and wants to write. -/
structure Prepared (F : Type) where
  pipe : List (Key × Value F)
  confirmations : List (Confirmation F)
  /-- the version and the symbol overrides of the view a publication returns -/
  updatedAtUs : Int
  symbolOverrides : OrdMap String (SymbolOverride F)

/-- `publish_strategy_inner` up to the commit, at the time `nowUs`. -/
def Publication.prepare (p : Publication F) (nowUs : Int) (store : Store F) :
    Except String (Prepared F) := do
  let venues ← p.check
  let previous ← p.previousVersion store venues
  let updatedAtUs := nextUpdatedAtUs nowUs previous
  let plans ← venues.mapM (p.prepareMarket store updatedAtUs)
  return { pipe := plans.flatMap MarketPlan.pipe
           confirmations := plans.map MarketPlan.confirmation
           updatedAtUs
           symbolOverrides := plans.foldl (fun merged plan =>
             plan.confirmation.expected.symbolOverrides.toList.foldl
               (fun merged (symbol, value) => merged.insert symbol value) merged) ∅ }

/-- One market of `request_strategy_removal`. -/
def removalWrites (store : Store F) (market : Market) (name : String) (family : ExecutionFamily) :
    Except String (List (Key × Value F)) := do
  let names ← decodeStrategyNames (store (.strategyNames market family)) "strategy index"
  let removed ← decodeStrategyNames (store (.removedStrategyNames market family))
    "removed strategy index"
  let removed := if removed.contains name then removed
    else (removed ++ [name]).insertionSort (· ≤ ·)
  return [(.strategyNames market family, .names (names.filter (· != name))),
    (.removedStrategyNames market family, .names removed)]

def HEDGE_SYMBOL : String := "BNBUSDC"

/-- `validate_cta_targets`; `reserved` are the sources of the BNB manager. -/
def validateCtaTargets (reserved : OrdSet String) (p : Publication F) : Except String Unit :=
  ensure (!reserved.contains p.source.id || (p.targets[HEDGE_SYMBOL]?).all fun t => t.qty == 0)
    ("BNBUSDC is reserved for BNB reserve management on source " ++ p.source.id ++
      "; ordinary CTA targets are forbidden")

/-- The check of `publish_bnb_hedge`. -/
def validBnbHedge (targets : OrdMap String (TargetPosition F)) : Bool :=
  decide (1 ≤ targets.size ∧ targets.size ≤ 2) && targets.contains HEDGE_SYMBOL &&
    targets.toList.all fun (symbol, t) =>
      ((symbol == HEDGE_SYMBOL && decide (t.qty ≤ 0)) || (symbol == "BNBUSDT" && t.qty == 0)) &&
        F64.isFinite t.qty && t.signal == 0

inductive Call (F : Type) where
  | publishStrategy (bnbReserved : OrdSet String) (publication : Publication F)
  | publishBnbHedge (source : SourceConfig) (parameters : OrderParameters F)
      (targets : OrdMap String (TargetPosition F))
  | requestStrategyRemoval (source : SourceConfig) (strategyName : String)
      (family : ExecutionFamily)

/-- What a call publishes. -/
def Call.publication : Call F → Option (Publication F)
  | .publishStrategy _ publication => some publication
  | .publishBnbHedge source parameters targets =>
    some ⟨source, HEDGE_STRATEGY, parameters, ∅, targets⟩
  | .requestStrategyRemoval _ _ _ => none

/-- A call up to its commit: it reads the store and fails, or has its writes ready. -/
def Call.prepare (call : Call F) (nowUs : Int) (store : Store F) : Except String (Prepared F) :=
  match call with
  | .publishStrategy bnbReserved p => do
    validateStrategyName p.strategyName
    validateCtaTargets bnbReserved p
    p.prepare nowUs store
  | .publishBnbHedge source parameters targets => do
    ensure (validBnbHedge targets) "invalid BNB reserve target"
    Publication.prepare ⟨source, HEDGE_STRATEGY, parameters, ∅, targets⟩ nowUs store
  | .requestStrategyRemoval source name family => do
    validateStrategyName name
    let venues ← markets source
    let writes ← venues.mapM fun venue => removalWrites store ⟨source.id, venue⟩ name family
    return { pipe := writes.flatten, confirmations := [], updatedAtUs := 0, symbolOverrides := ∅ }

/-- One confirmation after the commit. -/
def Confirmation.confirm (c : Confirmation F) (name : String) (store : Store F) :
    Except String Unit := do
  match ← loadStoredConfig (store c.configKey) with
  | none => .error ("Redis write was not readable after save: " ++ name)
  | some stored =>
    ensure (decide (stored = c.expected))
      ("Redis write confirmation mismatched payload: " ++ name)
  let confirmedNames ← decodeStrategyNames (store c.indexKey) "strategy index"
  ensure (c.switching || confirmedNames.contains name)
    ("Redis write confirmation missing strategy index: " ++ name)
  ensure (!c.switching || (store c.switchKey).isSome)
    ("Redis write confirmation missing algorithm switch: " ++ name)

structure ExecStrategyTargetState (F : Type) where
  family : String
  updatedAtUs : Int
  targets : OrdMap String F

structure ExecTargetSnapshot (F : Type) where
  aggregateTargets : OrdMap String F
  strategies : OrdMap String (ExecStrategyTargetState F)

def decodeExecStrategyTargetState (family strategyName : String) (stored : StoredConfig F) :
    Except String (ExecStrategyTargetState F) :=
  match stored.updatedAtUs.filter fun value => decide (0 < value) with
  | none => .error (family ++ " Redis config has invalid updated_at_us: " ++ strategyName)
  | some updatedAtUs =>
    match stored.targets with
    | none => .error (family ++ " Redis config has invalid targets: " ++ strategyName)
    | some raw => do
      let targets ← raw.toList.mapM fun (symbol, target) => do
        validateExecSymbol symbol
        let parsed ← (decodeTarget target).mapError fun _ =>
          family ++ " Redis config has invalid target quantity: " ++ strategyName ++ "/" ++ symbol
        return (symbol, parsed.qty)
      return { family, updatedAtUs
               targets := targets.foldl (fun targets p => targets.insert p.1 p.2) ∅ }

/-- The configuration of an indexed strategy. -/
def readStrategy (store : Store F) (market : Market) (family : ExecutionFamily)
    (name : String) : Except String (ExecStrategyTargetState F) :=
  match store (.config market family name) with
  | none => .error (family.redisNamespace ++ " strategy config missing in Redis: " ++ name)
  | some raw =>
    match loadStoredConfig (some raw) with
    | .ok (some stored) => decodeExecStrategyTargetState family.redisNamespace name stored
    | _ => .error (family.redisNamespace ++ " Redis config is not valid JSON: " ++ name)

/-- The target of a strategy in one more market. -/
def insertTarget (name : String) (targets : OrdMap String F) (entry : String × F) :
    Except String (OrdMap String F) := do
  ensure (!targets.contains entry.1)
    ("Exec target is duplicated across markets: " ++ name ++ "/" ++ entry.1)
  return targets.insert entry.1 entry.2

/-- The same strategy in another market. -/
def ExecStrategyTargetState.merge (existing strategy : ExecStrategyTargetState F)
    (name : String) : Except String (ExecStrategyTargetState F) := do
  ensure (existing.family == strategy.family)
    ("Exec strategy is indexed by multiple execution families: " ++ name)
  let targets ← strategy.targets.toList.foldlM (insertTarget name) existing.targets
  return { existing with updatedAtUs := min existing.updatedAtUs strategy.updatedAtUs, targets }

/-- A strategy found once more, over what the snapshot has of it. -/
def mergeInto (existing : Option (ExecStrategyTargetState F)) (strategy : ExecStrategyTargetState F)
    (name : String) : Except String (ExecStrategyTargetState F) :=
  match existing with
  | some existing => existing.merge strategy name
  | none => .ok strategy

/-- The loop body of `load_exec_target_snapshot` for one indexed strategy. -/
def loadStrategy (store : Store F) (market : Market) (family : ExecutionFamily)
    (snapshot : ExecTargetSnapshot F) (name : String) : Except String (ExecTargetSnapshot F) := do
  let strategy ← readStrategy store market family name
  let aggregateTargets := strategy.targets.toList.foldl (fun totals (symbol, qty) =>
    totals.upsert symbol fun total => total.getD 0 + qty) snapshot.aggregateTargets
  let merged ← mergeInto snapshot.strategies[name]? strategy name
  return { aggregateTargets, strategies := snapshot.strategies.insert name merged }

/-- One index of `load_exec_target_snapshot`. -/
def loadFamily (store : Store F) (snapshot : ExecTargetSnapshot F)
    (index : Market × ExecutionFamily) : Except String (ExecTargetSnapshot F) := do
  let names ← decodeStrategyNames (store (.strategyNames index.1 index.2)) "strategy index"
  names.foldlM (loadStrategy store index.1 index.2) snapshot

/-- The indexes of a source, in the order they are read. -/
def indexes (source : SourceConfig) (venues : List String) : List (Market × ExecutionFamily) :=
  venues.flatMap fun venue =>
    [(⟨source.id, venue⟩, .batchExec), (⟨source.id, venue⟩, .chaseExec)]

/-- `load_exec_target_snapshot`. -/
def loadExecTargetSnapshot (store : Store F) (source : SourceConfig) :
    Except String (ExecTargetSnapshot F) := do
  let venues ← markets source
  (indexes source venues).foldlM (loadFamily store) ⟨∅, ∅⟩

end

end CtaManager.Exec
