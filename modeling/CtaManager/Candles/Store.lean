import CtaManager.Candles.Candle
import CtaManager.Library.OrdMapRange

/-!
The candle store (`kline.rs`): the durable candles, and for each symbol the candles
and the priced windows in memory.

Each operation takes the time it runs at.  A stored value is the candle it decodes
to; a key is the symbol and the opening time.
-/

namespace CtaManager.Candles

open Check Catalog

/-- The key of a priced window. -/
structure WindowKey where
  openTsUs : Int
  model : ExecutionModel
  deriving DecidableEq

theorem ExecutionModel.index_inj {model model' : ExecutionModel} (h : model.index = model'.index) :
    model = model' := by
  revert h
  cases model <;> cases model' <;> decide

instance : LinearOrder WindowKey :=
  LinearOrder.lift' (fun k => toLex (k.openTsUs, k.model.index)) (by
    rintro ⟨a, b⟩ ⟨c, d⟩ h
    have h' : (a, b.index) = (c, d.index) := h
    rw [Prod.mk.injEq] at h'
    rw [h'.1, ExecutionModel.index_inj h'.2])

theorem WindowKey.le_iff {k l : WindowKey} :
    k ≤ l ↔ k.openTsUs < l.openTsUs ∨ k.openTsUs = l.openTsUs ∧ k.model.index ≤ l.model.index :=
  Prod.Lex.toLex_le_toLex

structure MinuteCache (F : Type) where
  candles : OrdMap Int (Kline F)
  prices : OrdMap WindowKey (MinutePrices F)

def MinuteCache.empty {F : Type} : MinuteCache F := ⟨∅, ∅⟩

/-- The part of the store that belongs to one symbol. -/
structure SymbolStore (F : Type) where
  /-- the column family of the database -/
  durable : OrdMap Int (Kline F)
  cache : MinuteCache F

/-- The windows whose samples may include a minute. -/
def windowsOver (openTsUs : Int) : List WindowKey :=
  (List.range 5).flatMap fun (index : Nat) =>
    ExecutionModel.all.map fun model => ⟨openTsUs - index * MINUTE_US, model⟩

section

variable {F : Type} [DecidableEq F]

/-- `MinuteCache::insert`: a candle that replaces another one drops the prices over it. -/
def MinuteCache.insert (cache : MinuteCache F) (candle : Kline F) : MinuteCache F where
  candles := cache.candles.insert candle.openTsUs candle
  prices :=
    if (cache.candles[candle.openTsUs]?).any fun old => decide (old ≠ candle) then
      (windowsOver candle.openTsUs).foldl (fun prices key => prices.erase key) cache.prices
    else cache.prices

/-- `MinuteCache::prune`. -/
def MinuteCache.prune (cache : MinuteCache F) (cutoff : Int) : MinuteCache F where
  candles := cache.candles.filter fun openTsUs _ => decide (cutoff ≤ openTsUs)
  prices := cache.prices.filter fun key _ => decide (⟨cutoff, .twap5m⟩ ≤ key)

end

/-- What the store is configured with. -/
structure KlineConfig where
  enabled : Bool
  retainDays : Nat

/-- `cutoff_us`. -/
def KlineConfig.cutoffUs (config : KlineConfig) (now : Int) : Int :=
  now - config.retainDays * DAY_US

/-- The minute is inside retention, and closed. -/
def KlineConfig.inside (config : KlineConfig) (now openTsUs : Int) : Bool :=
  decide (config.cutoffUs now ≤ openTsUs) && decide (openTsUs + MINUTE_US ≤ now)

variable {F : Type} [F64 F] [DecidableEq F]

/-- Stored values decoded into memory one after the other; an invalid one ends the read. -/
def decodeInto (cache : MinuteCache F) : List (Kline F) → MinuteCache F × Except String Unit
  | [] => (cache, .ok ())
  | candle :: rest =>
    match candle.validate with
    | .ok _ => decodeInto (cache.insert candle) rest
    | .error e => (cache, .error e)

/-- The wanted minutes that are not in memory, in order. -/
def missingMinutes (config : KlineConfig) (cache : MinuteCache F) (opens : List Int) (now : Int) :
    List Int :=
  ((opens.filter fun openTsUs => config.inside now openTsUs).foldl
    (fun (wanted : OrdSet Int) openTsUs => wanted.insert openTsUs) ∅).toList.filter
      fun openTsUs => !cache.candles.contains openTsUs

/-- `read_minutes`, up to the minutes in memory. -/
def loadMinutes (config : KlineConfig) (store : SymbolStore F) (opens : List Int) (now : Int) :
    SymbolStore F × Except String Unit :=
  let (cache, result) := decodeInto store.cache
    ((missingMinutes config store.cache opens now).filterMap fun openTsUs => store.durable[openTsUs]?)
  ({ store with cache }, result)

/-- `read_minutes`. -/
def readMinutes (config : KlineConfig) (store : SymbolStore F) (opens : List Int) (now : Int) :
    SymbolStore F × Except String (List (Option (Kline F))) :=
  let (store, result) := loadMinutes config store opens now
  (store, result.map fun _ => opens.map fun openTsUs =>
    if config.inside now openTsUs then store.cache.candles[openTsUs]? else none)

/-- The minutes of a window. -/
def windowOpens (openTsUs : Int) (model : ExecutionModel) : List Int :=
  (List.range model.sampleCount).map fun (index : Nat) => openTsUs + index * MINUTE_US

/-- The window starts inside retention, and has closed. -/
def KlineConfig.windowInside (config : KlineConfig) (now openTsUs : Int)
    (model : ExecutionModel) : Bool :=
  decide (config.cutoffUs now ≤ openTsUs) &&
    decide (openTsUs + model.sampleCount * MINUTE_US ≤ now)

/-- `window_prices`. -/
def windowPrices (config : KlineConfig) (store : SymbolStore F) (openTsUs : Int)
    (model : ExecutionModel) (now : Int) :
    SymbolStore F × Except String (Option (MinutePrices F)) :=
  if !config.windowInside now openTsUs model then (store, .ok none)
  else
    match store.cache.prices[(⟨openTsUs, model⟩ : WindowKey)]? with
    | some priced => (store, .ok (some priced))
    | none =>
      match loadMinutes config store (windowOpens openTsUs model) now with
      | (store, .error e) => (store, .error e)
      | (store, .ok _) =>
        match (windowOpens openTsUs model).mapM fun minute => store.cache.candles[minute]? with
        | none => (store, .ok none)
        | some candles =>
          match priceWindow model candles with
          | .error e => (store, .error e)
          | .ok none => (store, .ok none)
          | .ok (some priced) =>
            -- only complete, positive schedules enter the derived cache
            let prices := if priced.averagePrice.isSome
              then store.cache.prices.insert ⟨openTsUs, model⟩ priced else store.cache.prices
            ({ store with cache := { store.cache with prices } }, .ok (some priced))

/-- The candles of a range, in ascending order. -/
def candlesIn (candles : OrdMap Int (Kline F)) (start stop : Int) : List (Kline F) :=
  (candles.toList.filter fun p => decide (start ≤ p.1) && decide (p.1 < stop)).map Prod.snd

/-- `(start..end).step_by(MINUTE_US)`. -/
def minutesIn (start stop : Int) : List Int :=
  (List.range ((stop - start + (MINUTE_US - 1)) / MINUTE_US).toNat).map fun (index : Nat) =>
    start + index * MINUTE_US

/-- Where `scan` starts to read. -/
def KlineConfig.scanStart (config : KlineConfig) (start now : Int) : Int :=
  firstCompleteOpen (max start (config.cutoffUs now))

/-- Where it stops. -/
def scanStop (stop now : Int) : Int := min stop (floorMinute now)

/-- The minutes of a range that are not in memory. -/
def missingIn (cache : MinuteCache F) (start stop : Int) : List Int :=
  (minutesIn start stop).filter fun minute => !cache.candles.contains minute

/-- `scan` between its bounds: from memory, by single reads of few minutes, or by one
range of the database. -/
def scanRange (config : KlineConfig) (store : SymbolStore F) (start stop now : Int) :
    SymbolStore F × Except String (List (Kline F)) :=
  let present := candlesIn store.cache.candles start stop
  if present.length = ((stop - start) / MINUTE_US).toNat then (store, .ok present)
  else
    let missing := missingIn store.cache start stop
    let (store, result) :=
      if missing.length ≤ 64 then loadMinutes config store missing now
      else
        let (cache, result) := decodeInto store.cache
          (candlesIn store.durable (missing.headD start) (missing.getLastD start + MINUTE_US))
        ({ store with cache }, result)
    (store, result.map fun _ => candlesIn store.cache.candles start stop)

/-- `scan`. -/
def scan (config : KlineConfig) (store : SymbolStore F) (start stop now : Int) :
    SymbolStore F × Except String (List (Kline F)) :=
  if scanStop stop now ≤ config.scanStart start now then (store, .ok [])
  else scanRange config store (config.scanStart start now) (scanStop stop now) now

/-- The candles of a page inside retention, written in one batch and then put into memory. -/
def SymbolStore.write (config : KlineConfig) (store : SymbolStore F) (candles : List (Kline F))
    (now : Int) : SymbolStore F :=
  let kept := candles.filter fun candle => decide (config.cutoffUs now ≤ candle.openTsUs)
  { durable := kept.foldl (fun durable candle => durable.insert candle.openTsUs candle) store.durable
    cache := kept.foldl MinuteCache.insert store.cache }

/-- `prune`, on one symbol. -/
def SymbolStore.prune (config : KlineConfig) (store : SymbolStore F) (now : Int) : SymbolStore F where
  durable := store.durable.filter fun openTsUs _ => decide (config.cutoffUs now ≤ openTsUs)
  cache := store.cache.prune (config.cutoffUs now)

end CtaManager.Candles
