import CtaManager.Candles.Coherence
import CtaManager.Library.Steps

/-!
The candle store over all its symbols (`kline.rs`, `market_data.rs`), and runs of it.

A command is one call, with the time it runs at.  `answers_exact_iff` says which runs
get from every read what the database alone implies: those without a torn scan.
-/

namespace CtaManager.Candles

open Check Catalog Exec Steps

/-- `venue_code`. -/
def venueCode : String → Except String Int
  | "binance-margin" => .ok 0
  | "binance-futures" => .ok 1
  | "okex-margin" => .ok 2
  | "okex-futures" => .ok 3
  | venue => .error ("unsupported public market: " ++ venue)

section

variable [Text.Unicode]

/-- `split_cache_symbol`. -/
def splitCacheSymbol (key : String) : Except String (String × String) := do
  let (venue, symbol) := (Text.splitOnce key ':').getD
    (if isSpotTarget key then "binance-margin" else "binance-futures", key)
  let _ ← venueCode venue
  validateExecSymbol symbol
  ensure (symbol != "") "empty market symbol"
  return (venue, symbol)

/-- `prefix`: the bytes before the opening time in the keys of a symbol. -/
def prefixBytes (symbol : String) : Except String (List UInt8) := do
  ensure (decide (symbol.utf8ByteSize < 256) && (splitCacheSymbol symbol).toOption.isSome)
    "invalid market symbol"
  return UInt8.ofNat symbol.utf8ByteSize :: symbol.toUTF8.toList

end

section

variable {F : Type} [F64 F] [DecidableEq F] [Text.Unicode]

structure KlineStore (F : Type) where
  config : KlineConfig
  symbols : OrdMap String (SymbolStore F)
  /-- `candle_revision` -/
  revision : Nat

/-- What `save_page` leaves in the database: valid candles of market symbols, under their
opening times. -/
structure Database (F : Type) [F64 F] where
  candles : OrdMap String (OrdMap Int (Kline F))
  valid : ∀ (name : String) durable, candles[name]? = some durable →
    ∀ (openTsUs : Int) candle, durable[openTsUs]? = some candle →
      candle.validate = .ok () ∧ candle.openTsUs = openTsUs
  named : ∀ (name : String) durable e, candles[name]? = some durable →
    prefixBytes name = .error e → durable = ∅

omit [DecidableEq F] [Text.Unicode] in
/-- A database of one symbol. -/
theorem valid_single {symbol : String} {minutes : OrdMap Int (Kline F)}
    (h : ∀ (openTsUs : Int) candle, minutes[openTsUs]? = some candle →
      candle.validate = .ok () ∧ candle.openTsUs = openTsUs) (name : String)
    (durable : OrdMap Int (Kline F))
    (hdurable : ((∅ : OrdMap String (OrdMap Int (Kline F))).insert symbol minutes)[name]? =
      some durable) :
    ∀ (openTsUs : Int) candle, durable[openTsUs]? = some candle →
      candle.validate = .ok () ∧ candle.openTsUs = openTsUs := by
  rw [OrdMap.getElem?_insert_of_key] at hdurable
  split at hdurable
  · cases hdurable
    exact h
  · rw [Std.ExtTreeMap.getElem?_empty] at hdurable
    cases hdurable

omit [F64 F] [DecidableEq F] in
theorem named_single {symbol : String} {minutes : OrdMap Int (Kline F)}
    (h : (prefixBytes symbol).toOption.isSome = true) (name : String)
    (durable : OrdMap Int (Kline F)) (e : String)
    (hdurable : ((∅ : OrdMap String (OrdMap Int (Kline F))).insert symbol minutes)[name]? =
      some durable) (he : prefixBytes name = .error e) : durable = ∅ := by
  rw [OrdMap.getElem?_insert_of_key] at hdurable
  split at hdurable
  · next heq =>
    subst heq
    rw [he] at h
    cases h
  · rw [Std.ExtTreeMap.getElem?_empty] at hdurable
    cases hdurable

namespace KlineStore

/-- `from_db`: nothing is in memory yet. -/
def fromDb (config : KlineConfig) (database : Database F) : KlineStore F where
  config := config
  symbols := database.candles.map fun _ durable => ⟨durable, .empty⟩
  revision := 0

/-- A symbol the store has not met has no candles. -/
def symbol (store : KlineStore F) (name : String) : SymbolStore F :=
  (store.symbols[name]?).getD ⟨∅, .empty⟩

def setSymbol (store : KlineStore F) (name : String) (part : SymbolStore F) : KlineStore F :=
  { store with symbols := store.symbols.insert name part }

/-- `read_minutes`. -/
def readMinutes (store : KlineStore F) (name : String) (opens : List Int) (now : Int) :
    KlineStore F × Except String (List (Option (Kline F))) :=
  match prefixBytes name with
  | .error e => (store, .error e)
  | .ok _ =>
    let (part, reply) := Candles.readMinutes store.config (store.symbol name) opens now
    (store.setSymbol name part, reply)

/-- `window_prices`: the symbol is checked once the window is not found in memory. -/
def windowPrices (store : KlineStore F) (name : String) (openTsUs : Int) (model : ExecutionModel)
    (now : Int) : KlineStore F × Except String (Option (MinutePrices F)) :=
  let known := !store.config.windowInside now openTsUs model ||
    (store.symbol name).cache.prices.contains (⟨openTsUs, model⟩ : WindowKey)
  match prefixBytes name, known with
  | .error e, false => (store, .error e)
  | _, _ =>
    let (part, reply) := Candles.windowPrices store.config (store.symbol name) openTsUs model now
    (store.setSymbol name part, reply)

/-- `scan`: the symbol is checked once there is a minute to read. -/
def scan (store : KlineStore F) (name : String) (start stop now : Int) :
    KlineStore F × Except String (List (Kline F)) :=
  match prefixBytes name, decide (scanStop stop now ≤ store.config.scanStart start now) with
  | .error e, false => (store, .error e)
  | _, _ =>
    let (part, reply) := Candles.scan store.config (store.symbol name) start stop now
    (store.setSymbol name part, reply)

/-- The checks of `save_page`, before anything is written. -/
def checkPage (config : KlineConfig) (name : String) (start stop : Int) (candles : List (Kline F))
    (now : Int) : Except String Unit :=
  candles.forM fun candle => do
    candle.validate
    ensure (decide (start ≤ candle.openTsUs) && decide (candle.endTsUs ≤ stop))
      "candle outside cache page range"
    if config.cutoffUs now ≤ candle.openTsUs then do
      let _ ← prefixBytes name
      return ()
    else return ()

/-- `save_page`. -/
def savePage (store : KlineStore F) (name : String) (start stop : Int) (candles : List (Kline F))
    (now : Int) : KlineStore F × Except String Unit :=
  match checkPage store.config name start stop candles now with
  | .error e => (store, .error e)
  | .ok _ =>
    let stored := store.setSymbol name ((store.symbol name).write store.config candles now)
    ({ stored with revision := if candles.isEmpty then stored.revision else stored.revision + 1 },
      .ok ())

/-- The candles of a symbol that `prune` deletes. -/
def removed (config : KlineConfig) (part : SymbolStore F) (now : Int) : Nat :=
  (part.durable.toList.filter fun p => decide (p.1 < config.cutoffUs now)).length

/-- `prune`. -/
def prune (store : KlineStore F) (now : Int) : KlineStore F × Nat :=
  let count := (store.symbols.toList.map fun p => removed store.config p.2 now).sum
  ({ store with
      symbols := store.symbols.map fun _ part => part.prune store.config now
      revision := if 0 < count then store.revision + 1 else store.revision }, count)

omit [F64 F] [DecidableEq F] [Text.Unicode] in
theorem symbol_setSymbol (store : KlineStore F) (name name' : String) (part : SymbolStore F) :
    (store.setSymbol name part).symbol name' = if name = name' then part else store.symbol name' := by
  unfold KlineStore.symbol KlineStore.setSymbol
  rw [OrdMap.getElem?_insert_of_key]
  split
  · rfl
  · rfl

/-! ## What every call keeps -/

/-- Each symbol's memory is coherent, and only market symbols have candles. -/
structure Coherent (store : KlineStore F) : Prop where
  parts : ∀ (name : String) part, store.symbols[name]? = some part → part.Coherent
  named : ∀ (name : String) part e, store.symbols[name]? = some part → prefixBytes name = .error e →
    part.durable = ∅

omit [DecidableEq F] in
theorem mem_fromDb {config : KlineConfig} {database : Database F} {name : String}
    {part : SymbolStore F} (h : (fromDb config database).symbols[name]? = some part) :
    ∃ durable, database.candles[name]? = some durable ∧ part = ⟨durable, .empty⟩ := by
  unfold fromDb at h
  rw [Std.ExtTreeMap.getElem?_map, Option.map_eq_some_iff] at h
  obtain ⟨durable, hdurable, hpart⟩ := h
  exact ⟨durable, hdurable, hpart.symm⟩

omit [DecidableEq F] [Text.Unicode] in
/-- Before anything has been read. -/
theorem coherent_unread {durable : OrdMap Int (Kline F)}
    (h : ∀ (openTsUs : Int) candle, durable[openTsUs]? = some candle →
      candle.validate = .ok () ∧ candle.openTsUs = openTsUs) :
    SymbolStore.Coherent (⟨durable, .empty⟩ : SymbolStore F) := by
  refine ⟨h, fun openTsUs candle h => ?_, fun openTsUs model priced h => ?_⟩
  · have h' : (∅ : OrdMap Int (Kline F))[openTsUs]? = some candle := h
    rw [Std.ExtTreeMap.getElem?_empty] at h'
    cases h'
  · have h' : (∅ : OrdMap WindowKey (MinutePrices F))[(⟨openTsUs, model⟩ : WindowKey)]? =
      some priced := h
    rw [Std.ExtTreeMap.getElem?_empty] at h'
    cases h'

omit [DecidableEq F] in
theorem coherent_fromDb (config : KlineConfig) (database : Database F) :
    (fromDb config database).Coherent := by
  constructor
  · intro name part hpart
    obtain ⟨durable, hdurable, rfl⟩ := mem_fromDb hpart
    exact coherent_unread (database.valid name durable hdurable)
  · intro name part e hpart he
    obtain ⟨durable, hdurable, rfl⟩ := mem_fromDb hpart
    exact database.named name durable e hdurable he

omit [DecidableEq F] in
theorem Coherent.symbol {store : KlineStore F} (h : store.Coherent) (name : String) :
    (store.symbol name).Coherent := by
  unfold KlineStore.symbol
  cases hpart : store.symbols[name]? with
  | none =>
    refine coherent_unread fun openTsUs candle hcandle => ?_
    rw [Std.ExtTreeMap.getElem?_empty] at hcandle
    cases hcandle
  | some part => exact h.parts name part hpart

omit [DecidableEq F] in
theorem Coherent.durable_of_error {store : KlineStore F} (h : store.Coherent) {name e : String}
    (hname : prefixBytes name = .error e) : (store.symbol name).durable = ∅ := by
  unfold KlineStore.symbol
  cases hpart : store.symbols[name]? with
  | none => rfl
  | some part => exact h.named name part e hpart hname

omit [DecidableEq F] in
theorem Coherent.setSymbol {store : KlineStore F} (h : store.Coherent) {name : String}
    {part : SymbolStore F} (hpart : part.Coherent)
    (hnamed : ∀ e, prefixBytes name = .error e → part.durable = ∅) :
    (store.setSymbol name part).Coherent := by
  constructor
  · intro name' part' hpart'
    unfold KlineStore.setSymbol at hpart'
    rw [OrdMap.getElem?_insert_of_key] at hpart'
    split at hpart'
    · cases hpart'
      exact hpart
    · exact h.parts name' part' hpart'
  · intro name' part' e hpart' he
    unfold KlineStore.setSymbol at hpart'
    rw [OrdMap.getElem?_insert_of_key] at hpart'
    split at hpart'
    · next heq =>
      cases hpart'
      subst heq
      exact hnamed e he
    · exact h.named name' part' e hpart' he

omit [DecidableEq F] in
/-- A read leaves the database of its symbol alone. -/
theorem Coherent.setRead {store : KlineStore F} (h : store.Coherent) {name : String}
    {part : SymbolStore F} (hpart : part.Coherent)
    (hdurable : part.durable = (store.symbol name).durable) :
    (store.setSymbol name part).Coherent :=
  h.setSymbol hpart fun _ he => hdurable.trans (h.durable_of_error he)

/-- What `read_minutes` should return. -/
def impliedMinutes (store : KlineStore F) (name : String) (opens : List Int) (now : Int) :
    Except String (List (Option (Kline F))) :=
  (prefixBytes name).map fun _ => opens.map fun minute =>
    if store.config.inside now minute then (store.symbol name).durable[minute]? else none

/-- What `window_prices` should return. -/
def impliedPrices (store : KlineStore F) (name : String) (openTsUs : Int) (model : ExecutionModel)
    (now : Int) : Except String (Option (MinutePrices F)) :=
  if store.config.windowInside now openTsUs model then do
    let _ ← prefixBytes name
    (store.symbol name).pricedWindow store.config openTsUs model now
  else .ok none

/-- What `scan` should return. -/
def impliedCandles (store : KlineStore F) (name : String) (start stop now : Int) :
    Except String (List (Kline F)) :=
  if scanStop stop now ≤ store.config.scanStart start now then .ok []
  else (prefixBytes name).map fun _ => (store.symbol name).storedIn store.config start stop now

theorem readMinutes_exact {store : KlineStore F} (h : store.Coherent) (name : String)
    (opens : List Int) (now : Int) : (store.readMinutes name opens now).1.Coherent ∧
      (store.readMinutes name opens now).2 = store.impliedMinutes name opens now := by
  unfold KlineStore.readMinutes impliedMinutes
  cases hname : prefixBytes name with
  | error e => exact ⟨h, rfl⟩
  | ok _ =>
    obtain ⟨hpart, hdurable, hreply⟩ :=
      readMinutes_spec store.config (h.symbol name) opens now
    exact ⟨h.setRead hpart hdurable, hreply⟩

theorem windowPrices_exact {store : KlineStore F} (h : store.Coherent) (name : String)
    (openTsUs : Int) (model : ExecutionModel) (now : Int) :
    (store.windowPrices name openTsUs model now).1.Coherent ∧
      (store.windowPrices name openTsUs model now).2 =
        store.impliedPrices name openTsUs model now := by
  obtain ⟨hpart, hdurable, hreply⟩ :=
    windowPrices_spec store.config (h.symbol name) openTsUs model now
  unfold KlineStore.windowPrices impliedPrices
  cases hname : prefixBytes name with
  | ok _ =>
    refine ⟨h.setRead hpart hdurable, hreply.trans ?_⟩
    unfold SymbolStore.pricedWindow
    split
    · rfl
    · rfl
  | error e =>
    -- a name that is no market symbol has no candles, and so no priced window in memory
    have hprices : (store.symbol name).cache.prices.contains (⟨openTsUs, model⟩ : WindowKey) =
        false := by
      rw [Std.ExtTreeMap.contains_eq_isSome_getElem?]
      cases hpriced : (store.symbol name).cache.prices[(⟨openTsUs, model⟩ : WindowKey)]? with
      | none => rfl
      | some priced =>
        obtain ⟨candles, hcandles, -⟩ := (h.symbol name).priced openTsUs model priced hpriced
        have hmem : openTsUs ∈ windowOpens openTsUs model := by
          refine mem_windowOpens.2 ⟨0, ?_, ?_⟩
          · cases model <;> decide
          · omega
        obtain ⟨held, hheld⟩ :=
          Option.isSome_iff_exists.1 (OrdMap.isSome_of_mapM_getElem? hcandles openTsUs hmem)
        have hstored := (h.symbol name).memory openTsUs held hheld
        rw [h.durable_of_error hname, Std.ExtTreeMap.getElem?_empty] at hstored
        cases hstored
    rw [hprices, Bool.or_false]
    cases hinside : store.config.windowInside now openTsUs model with
    | true => exact ⟨h, rfl⟩
    | false =>
      refine ⟨h.setRead hpart hdurable, hreply.trans ?_⟩
      unfold SymbolStore.pricedWindow
      rw [hinside]
      rfl

theorem scan_exact_iff {store : KlineStore F} (h : store.Coherent) (name : String)
    (start stop now : Int) : (store.scan name start stop now).1.Coherent ∧
      ((store.scan name start stop now).2 = store.impliedCandles name start stop now ↔
        ¬ (store.symbol name).Torn store.config start stop now) := by
  obtain ⟨hpart, hdurable, hreply⟩ := scan_spec store.config (h.symbol name) start stop now
  unfold KlineStore.scan impliedCandles
  by_cases hempty : scanStop stop now ≤ store.config.scanStart start now
  · rw [if_pos hempty, decide_eq_true hempty]
    have hnil : Candles.scan store.config (store.symbol name) start stop now =
        (store.symbol name, .ok []) := by
      unfold Candles.scan
      rw [if_pos hempty]
    refine ⟨?_, iff_of_true ?_ ?_⟩
    · cases prefixBytes name with
      | error e => exact h.setRead hpart hdurable
      | ok _ => exact h.setRead hpart hdurable
    · rw [hnil]
      cases prefixBytes name with
      | error e => rfl
      | ok _ => rfl
    · exact not_torn_of_empty hempty
  · rw [if_neg hempty, decide_eq_false hempty]
    cases hname : prefixBytes name with
    | error e =>
      refine ⟨h, iff_of_true rfl ?_⟩
      rintro ⟨-, minute, -, hstored⟩
      rw [h.durable_of_error hname, Std.ExtTreeMap.contains_eq_isSome_getElem?,
        Std.ExtTreeMap.getElem?_empty] at hstored
      cases hstored
    | ok _ => exact ⟨h.setRead hpart hdurable, hreply⟩

/-- A scan leaves the database alone. -/
theorem scan_frame {store : KlineStore F} (h : store.Coherent) (name : String)
    (start stop now : Int) : (store.scan name start stop now).1.config = store.config ∧
      ∀ name', ((store.scan name start stop now).1.symbol name').durable =
        (store.symbol name').durable := by
  have hdurable := (scan_spec store.config (h.symbol name) start stop now).2.1
  have hset : ∀ name', ((store.setSymbol name
      (Candles.scan store.config (store.symbol name) start stop now).1).symbol name').durable =
        (store.symbol name').durable := by
    intro name'
    rw [symbol_setSymbol]
    split
    · next heq => rw [hdurable, heq]
    · rfl
  unfold KlineStore.scan
  cases prefixBytes name with
  | ok _ => exact ⟨rfl, hset⟩
  | error e =>
    cases decide (scanStop stop now ≤ store.config.scanStart start now) with
    | true => exact ⟨rfl, hset⟩
    | false => exact ⟨rfl, fun _ => rfl⟩

/-- A scan of whole minutes is never torn. -/
theorem scan_aligned {store : KlineStore F} (h : store.Coherent) {name : String}
    {bytes : List UInt8} (hname : prefixBytes name = .ok bytes) (start : Int) {stop : Int}
    (hstop : MINUTE_US ∣ stop) (now : Int) : (store.scan name start stop now).2 =
      .ok ((store.symbol name).storedIn store.config start stop now) := by
  have hwhole : MINUTE_US ∣ scanStop stop now := by
    unfold scanStop
    rcases min_choice stop (floorMinute now) with hmin | hmin
    · rw [hmin]
      exact hstop
    · rw [hmin]
      exact minute_dvd_floorMinute now
  rw [(scan_exact_iff h name start stop now).2.2 fun htorn => htorn.1 hwhole]
  unfold impliedCandles
  split
  · next hempty => rw [storedIn_of_empty (h.symbol name) hempty]
  · rw [hname]
    rfl

omit [DecidableEq F] in
/-- A page that passes its checks: valid candles, for a market symbol if one is to be kept. -/
theorem checkPage_eq_ok {config : KlineConfig} {name : String} {start stop : Int}
    {candles : List (Kline F)} {now : Int} {u : Unit}
    (h : checkPage config name start stop candles now = .ok u) :
    ∀ candle ∈ candles, candle.validate = .ok () ∧
      (start ≤ candle.openTsUs ∧ candle.endTsUs ≤ stop) ∧
      (config.cutoffUs now ≤ candle.openTsUs → ∃ bytes, prefixBytes name = .ok bytes) := by
  intro candle hcandle
  have hcheck := forM_eq_ok.1 h candle hcandle
  obtain ⟨⟨⟩, hvalid, hcheck⟩ := bind_eq_ok.1 hcheck
  obtain ⟨_, hrange, hcheck⟩ := bind_eq_ok.1 hcheck
  rw [ensure_eq_ok, Bool.and_eq_true, decide_eq_true_eq, decide_eq_true_eq] at hrange
  refine ⟨hvalid, hrange, fun hkept => ?_⟩
  rw [if_pos hkept] at hcheck
  obtain ⟨bytes, hname, -⟩ := bind_eq_ok.1 hcheck
  exact ⟨bytes, hname⟩

theorem Coherent.savePage {store : KlineStore F} (h : store.Coherent) (name : String)
    (start stop : Int) (candles : List (Kline F)) (now : Int) :
    (store.savePage name start stop candles now).1.Coherent := by
  unfold KlineStore.savePage
  cases hcheck : checkPage store.config name start stop candles now with
  | error e => exact h
  | ok u =>
    have hall := checkPage_eq_ok hcheck
    have hset : (store.setSymbol name
        ((store.symbol name).write store.config candles now)).Coherent := by
      refine h.setSymbol ((h.symbol name).write (fun candle hc => (hall candle hc).1) now)
        fun e he => ?_
      have hnone : (candles.filter fun candle =>
          decide (store.config.cutoffUs now ≤ candle.openTsUs)) = [] := by
        refine List.filter_eq_nil_iff.2 fun candle hc hkept => ?_
        obtain ⟨bytes, hname⟩ := (hall candle hc).2.2 (of_decide_eq_true hkept)
        rw [he] at hname
        cases hname
      unfold SymbolStore.write
      rw [hnone]
      exact h.durable_of_error he
    exact ⟨hset.parts, hset.named⟩

omit [DecidableEq F] in
theorem Coherent.prune {store : KlineStore F} (h : store.Coherent) (now : Int) :
    (store.prune now).1.Coherent := by
  have hpruned : ∀ (name : String) part, (store.prune now).1.symbols[name]? = some part →
      ∃ before, store.symbols[name]? = some before ∧ before.prune store.config now = part := by
    intro name part hpart
    unfold KlineStore.prune at hpart
    rw [Std.ExtTreeMap.getElem?_map, Option.map_eq_some_iff] at hpart
    exact hpart
  constructor
  · intro name part hpart
    obtain ⟨before, hbefore, rfl⟩ := hpruned name part hpart
    exact (h.parts name before hbefore).prune now
  · intro name part e hpart he
    obtain ⟨before, hbefore, rfl⟩ := hpruned name part hpart
    unfold SymbolStore.prune
    rw [h.named name before e hbefore he]
    refine Std.ExtTreeMap.ext_getElem? fun openTsUs => ?_
    rw [Std.ExtTreeMap.getElem?_filter', Std.ExtTreeMap.getElem?_empty]
    rfl

end KlineStore

/-! ## Runs -/

inductive Command (F : Type) where
  | savePage (name : String) (start stop : Int) (candles : List (Kline F))
  | readMinutes (name : String) (opens : List Int)
  | scan (name : String) (start stop : Int)
  | windowPrices (name : String) (openTsUs : Int) (model : ExecutionModel)
  | prune

namespace Command

/-- The store after a call at a time. -/
def step (store : KlineStore F) : Command F × Int → KlineStore F
  | (.savePage name start stop candles, now) => (store.savePage name start stop candles now).1
  | (.readMinutes name opens, now) => (store.readMinutes name opens now).1
  | (.scan name start stop, now) => (store.scan name start stop now).1
  | (.windowPrices name openTsUs model, now) => (store.windowPrices name openTsUs model now).1
  | (.prune, now) => (store.prune now).1

/-- The call reads what the database implies; a scan, in ascending order. -/
def Exact (store : KlineStore F) : Command F × Int → Prop
  | (.readMinutes name opens, now) =>
    (store.readMinutes name opens now).2 = store.impliedMinutes name opens now
  | (.scan name start stop, now) =>
    (store.scan name start stop now).2 = store.impliedCandles name start stop now ∧
      ((store.symbol name).storedIn store.config start stop now).Pairwise fun a b =>
        a.openTsUs < b.openTsUs
  | (.windowPrices name openTsUs model, now) =>
    (store.windowPrices name openTsUs model now).2 = store.impliedPrices name openTsUs model now
  | (.savePage .., _) | (.prune, _) => True

/-- The call is a scan that would stop inside a minute, with one stored minute missing
from memory and all others there. -/
def Torn (store : KlineStore F) : Command F × Int → Prop
  | (.scan name start stop, now) => (store.symbol name).Torn store.config start stop now
  | _ => False

theorem coherent_step {store : KlineStore F} (call : Command F × Int) (h : store.Coherent) :
    (step store call).Coherent := by
  obtain ⟨command, now⟩ := call
  cases command with
  | savePage name start stop candles => exact h.savePage name start stop candles now
  | readMinutes name opens => exact (KlineStore.readMinutes_exact h name opens now).1
  | scan name start stop => exact (KlineStore.scan_exact_iff h name start stop now).1
  | windowPrices name openTsUs model =>
    exact (KlineStore.windowPrices_exact h name openTsUs model now).1
  | prune => exact h.prune now

theorem exact_iff {store : KlineStore F} (call : Command F × Int) (h : store.Coherent) :
    Exact store call ↔ ¬ Torn store call := by
  obtain ⟨command, now⟩ := call
  cases command with
  | savePage name start stop candles => exact iff_of_true trivial not_false
  | readMinutes name opens =>
    exact iff_of_true (KlineStore.readMinutes_exact h name opens now).2 not_false
  | scan name start stop =>
    have hscan := (KlineStore.scan_exact_iff h name start stop now).2
    have hsorted := sorted_storedIn store.config (h.symbol name) start stop now
    exact ⟨fun hexact => hscan.1 hexact.1, fun htorn => ⟨hscan.2 htorn, hsorted⟩⟩
  | windowPrices name openTsUs model =>
    exact iff_of_true (KlineStore.windowPrices_exact h name openTsUs model now).2 not_false
  | prune => exact iff_of_true trivial not_false

end Command

/-- Over any run, every read returns what the database implies exactly when no scan is torn. -/
theorem answers_exact_iff (config : KlineConfig) (database : Database F)
    (calls : List (Command F × Int)) :
    Along Command.step Command.Exact (KlineStore.fromDb config database) calls ↔
      Along Command.step (fun store call => ¬ Command.Torn store call)
        (KlineStore.fromDb config database) calls :=
  along_iff (I := KlineStore.Coherent) (fun _ call h => Command.coherent_step call h)
    (fun _ call h => Command.exact_iff call h) (KlineStore.coherent_fromDb config database) calls

end

section Sample

attribute [local instance] Text.Unicode.ascii

def sampleCandle : Kline ℚ := ⟨1000 * MINUTE_US, 1, 1, 1, 1, 1, 1, 1⟩

/-- One candle of one symbol. -/
def sampleDatabase : Database ℚ where
  candles := (∅ : OrdMap String (OrdMap Int (Kline ℚ))).insert "BTCUSDT"
    ((∅ : OrdMap Int (Kline ℚ)).insert sampleCandle.openTsUs sampleCandle)
  valid := by
    intro name durable hdurable openTsUs candle hcandle
    rw [OrdMap.getElem?_insert_of_key] at hdurable
    split at hdurable
    · cases hdurable
      rw [OrdMap.getElem?_insert_of_key] at hcandle
      split at hcandle
      · next heq =>
        cases hcandle
        exact ⟨by decide +kernel, heq⟩
      · rw [Std.ExtTreeMap.getElem?_empty] at hcandle
        cases hcandle
    · rw [Std.ExtTreeMap.getElem?_empty] at hdurable
      cases hdurable
  named := by
    intro name durable e hdurable he
    rw [OrdMap.getElem?_insert_of_key] at hdurable
    split at hdurable
    · next heq =>
      subst heq
      have hname : (prefixBytes "BTCUSDT").toOption.isSome = true := by decide +kernel
      rw [he] at hname
      cases hname
    · rw [Std.ExtTreeMap.getElem?_empty] at hdurable
      cases hdurable

/-- The first scan after a start, from the open of the candle to the middle of its minute,
returns nothing. -/
theorem scan_missesCandle : ¬ ∀ (config : KlineConfig) (database : Database ℚ)
    (calls : List (Command ℚ × Int)), (calls.map Prod.snd).Pairwise (· ≤ ·) →
      Along Command.step Command.Exact (KlineStore.fromDb config database) calls := by
  intro h
  have hexact := (h ⟨true, 30⟩ sampleDatabase
    [(.scan "BTCUSDT" (1000 * MINUTE_US) (1000 * MINUTE_US + 30000000), 1002 * MINUTE_US)]
    (List.pairwise_singleton _ _)).1.1
  revert hexact
  decide +kernel

end Sample

end CtaManager.Candles
