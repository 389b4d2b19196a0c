import CtaManager.Exec.Routing

/-! Minute candles and the prices of their windows (`kline.rs`,
`theoretical_execution.rs`). -/

namespace CtaManager.Candles

open Check

def MINUTE_US : Int := 60000000

def DAY_US : Int := 86400000000

/-- `first_complete_open`: the first minute that opens at or after a time. -/
def firstCompleteOpen (receivedAtUs : Int) : Int :=
  (receivedAtUs + (MINUTE_US - 1)) / MINUTE_US * MINUTE_US

/-- `now_us().div_euclid(MINUTE_US) * MINUTE_US`. -/
def floorMinute (nowUs : Int) : Int := nowUs / MINUTE_US * MINUTE_US

theorem minute_dvd_firstCompleteOpen (t : Int) : MINUTE_US ∣ firstCompleteOpen t :=
  Dvd.intro_left _ rfl

theorem minute_dvd_floorMinute (t : Int) : MINUTE_US ∣ floorMinute t := Dvd.intro_left _ rfl

/-- An aligned time is past the rounded one exactly when it is past the time itself. -/
theorem firstCompleteOpen_le_iff {t minute : Int} (h : MINUTE_US ∣ minute) :
    firstCompleteOpen t ≤ minute ↔ t ≤ minute := by
  obtain ⟨n, rfl⟩ := h
  unfold firstCompleteOpen MINUTE_US
  omega

theorem le_firstCompleteOpen (t : Int) : t ≤ firstCompleteOpen t :=
  (firstCompleteOpen_le_iff (minute_dvd_firstCompleteOpen t)).1 (le_refl _)

theorem firstCompleteOpen_mono {t u : Int} (h : t ≤ u) : firstCompleteOpen t ≤ firstCompleteOpen u :=
  (firstCompleteOpen_le_iff (minute_dvd_firstCompleteOpen u)).2 (h.trans (le_firstCompleteOpen u))

theorem lt_floorMinute_iff {now minute : Int} (h : MINUTE_US ∣ minute) :
    minute < floorMinute now ↔ minute + MINUTE_US ≤ now := by
  obtain ⟨n, rfl⟩ := h
  unfold floorMinute MINUTE_US
  omega

theorem firstCompleteOpen_of_dvd {t : Int} (h : MINUTE_US ∣ t) : firstCompleteOpen t = t := by
  obtain ⟨n, rfl⟩ := h
  unfold firstCompleteOpen MINUTE_US
  omega

inductive ExecutionModel where
  | twap5m
  | vwap3m
  | twap3m
  | instantTaker
  deriving DecidableEq

namespace ExecutionModel

/-- The order of the variants. -/
def index : ExecutionModel → Nat
  | twap5m => 0
  | vwap3m => 1
  | twap3m => 2
  | instantTaker => 3

def sampleCount : ExecutionModel → Nat
  | twap5m => 5
  | vwap3m | twap3m => 3
  | instantTaker => 1

theorem sampleCount_le (model : ExecutionModel) : model.sampleCount ≤ 5 := by
  cases model <;> decide

def all : List ExecutionModel := [twap5m, vwap3m, twap3m, instantTaker]

theorem mem_all (model : ExecutionModel) : model ∈ all := by
  cases model <;> decide

end ExecutionModel

structure Kline (F : Type) where
  openTsUs : Int
  open_ : F
  high : F
  low : F
  close : F
  baseVolume : F
  quoteVolume : F
  trades : Nat
  deriving DecidableEq

structure MinutePrices (F : Type) where
  prices : List (Option F)
  quantityWeights : List F
  executionModel : ExecutionModel
  averagePrice : Option F
  zeroVolumeSkippedSampleCount : Nat
  zeroVolumeFallbackSampleCount : Nat
  deriving DecidableEq

variable {F : Type} [F64 F]

def Kline.endTsUs (candle : Kline F) : Int := candle.openTsUs + MINUTE_US

def Kline.vwap (candle : Kline F) : Option F :=
  let price := candle.quoteVolume / candle.baseVolume
  if decide (0 < candle.baseVolume) && decide (0 < candle.quoteVolume) && F64.isFinite price &&
    decide (0 < price) then some price else none

def Kline.validate (candle : Kline F) : Except String Unit := do
  ensure (decide (0 < candle.openTsUs) && candle.openTsUs % MINUTE_US == 0)
    "unaligned candle timestamp"
  ensure ([candle.open_, candle.high, candle.low, candle.close].all isPositive &&
      [candle.baseVolume, candle.quoteVolume].all (fun v => F64.isFinite v && decide (0 ≤ v)) &&
      decide (max candle.open_ candle.close ≤ candle.high) &&
      decide (candle.low ≤ min candle.open_ candle.close) && decide (candle.low ≤ candle.high))
    "invalid candle prices or volume"

theorem Kline.aligned {candle : Kline F} (h : candle.validate = .ok ()) :
    MINUTE_US ∣ candle.openTsUs := by
  obtain ⟨_, h, -⟩ := bind_eq_ok.1 h
  rw [ensure_eq_ok, Bool.and_eq_true, beq_iff_eq] at h
  exact Int.dvd_of_emod_eq_zero h.2

/-- `count as f64`. -/
def ofCount (count : Nat) : F := F64.sum (List.replicate count 1)

/-- A candle without volume has no price of its own. -/
def Kline.isEmpty (candle : Kline F) : Bool := candle.baseVolume == 0 && candle.quoteVolume == 0

/-- The price of one sample: none of its own, or its VWAP; no price at all when that is
not a price. -/
def Kline.samplePrice (candle : Kline F) : Option (Option F) :=
  if candle.isEmpty then some none else candle.vwap.map some

/-- The average price of a window and the weights of its samples. -/
def averageAndWeights (model : ExecutionModel) (prices : List (Option F)) (volumes closes : List F)
    (quoteVolume : F) : Option F × List F :=
  let priced := prices.filterMap id
  let totalVolume := F64.sum volumes
  match model with
  | .instantTaker => (none, [])
  | .twap3m =>
    (if priced.length = 3 then some (F64.sum priced / ofCount 3) else none,
      List.replicate 3 (1 / ofCount 3))
  | .twap5m =>
    (some (F64.sum priced / ofCount priced.length),
      prices.map fun price => if price.isSome then 1 / ofCount priced.length else 0)
  | .vwap3m =>
    (some (if 0 < totalVolume then quoteVolume / totalVolume
      else F64.sum closes / ofCount closes.length),
      volumes.map fun volume => if 0 < totalVolume then volume / totalVolume
        else 1 / ofCount closes.length)

/-- The pricing of the candles of a window in `window_prices`. -/
def priceWindow (model : ExecutionModel) (candles : List (Kline F)) :
    Except String (Option (MinutePrices F)) :=
  if model = .instantTaker then
    .ok (candles.head?.map fun candle =>
      { prices := [some candle.open_], quantityWeights := [1], executionModel := model
        averagePrice := some candle.open_, zeroVolumeSkippedSampleCount := 0
        zeroVolumeFallbackSampleCount := 0 })
  else
    match candles.mapM Kline.samplePrice with
    | none => .ok none
    | some prices => do
      let closes := candles.map Kline.close
      let volumes := candles.map fun candle => if candle.isEmpty then 0 else candle.baseVolume
      let quoteVolume := F64.sum ((candles.filter fun candle => !candle.isEmpty).map
        Kline.quoteVolume)
      let skipped := (candles.filter Kline.isEmpty).length
      let (prices, skipped, fallback) :=
        if skipped = model.sampleCount then (closes.map some, 0, model.sampleCount)
        else if model = .twap3m then
          (List.zipWith (fun price close => some (price.getD close)) prices closes, 0,
            (prices.filter Option.isNone).length)
        else (prices, skipped, 0)
      let (averagePrice, quantityWeights) :=
        averageAndWeights model prices volumes closes quoteVolume
      ensure (averagePrice.all isPositive) "invalid theoretical window VWAP"
      return some { prices, quantityWeights, executionModel := model, averagePrice
                    zeroVolumeSkippedSampleCount := skipped
                    zeroVolumeFallbackSampleCount := fallback }

end CtaManager.Candles
