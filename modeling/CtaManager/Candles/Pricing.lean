import CtaManager.Candles.Market

/-!
How a priced window splits a delta (`MinutePrices` of `kline.rs`).

`quantity delta index` is the part of the delta that one sample trades, and `average` the
price of the whole.  They are computed apart: by the number of priced samples or by volume
weights, with empty minutes left out, priced at their close, or both.  In exact arithmetic
every window that `window_prices` returns with an average has samples that trade the delta at
that average (`windowPrices_splits`).
-/

namespace CtaManager.Candles

open Check Steps

namespace MinutePrices

variable {F : Type} [F64 F]

def pricedSampleCount (self : MinutePrices F) : Nat := (self.prices.filterMap id).length

def average (self : MinutePrices F) : Option F := self.averagePrice

/-- The quantity of one sample of the window. -/
def quantity (self : MinutePrices F) (delta : F) (index : Nat) : F :=
  match self.prices[index]? with
  | some (some _) =>
    match self.executionModel with
    | .twap5m | .twap3m | .instantTaker => delta / ofCount self.pricedSampleCount
    | .vwap3m => delta * self.quantityWeights[index]?.getD 0
  | _ => 0

/-- The price of one sample, where it has one. -/
def price (self : MinutePrices F) (index : Nat) : F := self.prices[index]?.join.getD 0

/-- The samples trade the delta, at the average price. -/
structure Splits (window : MinutePrices ℚ) (average delta : ℚ) : Prop where
  quantity_sum : ((List.range window.prices.length).map (window.quantity delta)).sum = delta
  cost_sum : ((List.range window.prices.length).map fun index =>
    window.quantity delta index * window.price index).sum = delta * average
  priced : ∀ index < window.prices.length, window.quantity delta index ≠ 0 →
    ∃ price, window.prices[index]? = some (some price)
  between : ∃ low high, (window.prices.filterMap id).min? = some low ∧
    (window.prices.filterMap id).max? = some high ∧ low ≤ average ∧ average ≤ high

/-! ## Weights -/

/-- The part of the delta that one sample trades. -/
def weight (window : MinutePrices ℚ) (index : Nat) : ℚ := window.quantity 1 index

/-- The average is the mean of the prices by the weights of their samples. -/
structure Weighs (window : MinutePrices ℚ) (average : ℚ) : Prop where
  nonneg : ∀ index, 0 ≤ window.weight index
  sum_eq : ((List.range window.prices.length).map window.weight).sum = 1
  mean_eq : ((List.range window.prices.length).map fun index =>
    window.weight index * window.price index).sum = average

section

variable {window : MinutePrices ℚ} {average : ℚ}

theorem quantity_eq (window : MinutePrices ℚ) (delta : ℚ) (index : Nat) :
    window.quantity delta index = delta * window.weight index := by
  unfold weight quantity
  split
  · split
    all_goals ring
  · ring

theorem exists_price {delta : ℚ} {index : Nat} (h : window.quantity delta index ≠ 0) :
    ∃ price, window.prices[index]? = some (some price) := by
  unfold quantity at h
  split at h
  · next price hprice => exact ⟨price, hprice⟩
  · exact absurd rfl h

theorem price_mem {index : Nat} (h : window.weight index ≠ 0) :
    some (window.price index) ∈ window.prices := by
  obtain ⟨price, hprice⟩ := exists_price h
  have hvalue : window.price index = price := by
    unfold MinutePrices.price
    rw [hprice]
    rfl
  rw [hvalue]
  exact List.mem_of_getElem? hprice

/-- A lower bound of the prices is one of their mean. -/
theorem Weighs.le_average (h : window.Weighs average) {low : ℚ}
    (hlow : ∀ price, some price ∈ window.prices → low ≤ price) : low ≤ average := by
  have hterm : ∀ index, window.weight index * low ≤ window.weight index * window.price index := by
    intro index
    by_cases hzero : window.weight index = 0
    · rw [hzero, zero_mul, zero_mul]
    · exact mul_le_mul_of_nonneg_left (hlow _ (price_mem hzero)) (h.nonneg index)
  have hsum := List.sum_le_sum (l := List.range window.prices.length) fun index _ => hterm index
  rwa [List.sum_map_mul_right, h.sum_eq, one_mul, h.mean_eq] at hsum

/-- An upper bound of the prices is one of their mean. -/
theorem Weighs.average_le (h : window.Weighs average) {high : ℚ}
    (hhigh : ∀ price, some price ∈ window.prices → price ≤ high) : average ≤ high := by
  have hterm : ∀ index, window.weight index * window.price index ≤ window.weight index * high := by
    intro index
    by_cases hzero : window.weight index = 0
    · rw [hzero, zero_mul, zero_mul]
    · exact mul_le_mul_of_nonneg_left (hhigh _ (price_mem hzero)) (h.nonneg index)
  have hsum := List.sum_le_sum (l := List.range window.prices.length) fun index _ => hterm index
  rwa [List.sum_map_mul_right, h.sum_eq, one_mul, h.mean_eq] at hsum

theorem Weighs.splits (h : window.Weighs average) (delta : ℚ) : window.Splits average delta := by
  have hmem : ∀ price, price ∈ window.prices.filterMap id ↔ some price ∈ window.prices := by
    intro price
    simp
  have hne : window.prices.filterMap id ≠ [] := by
    intro hnil
    -- without a price no sample has a weight
    have hweight : ∀ index, window.weight index = 0 := by
      intro index
      by_contra hzero
      have hin := (hmem _).2 (price_mem hzero)
      rw [hnil] at hin
      cases hin
    have hsum := h.sum_eq
    rw [show window.weight = fun _ => 0 from funext hweight] at hsum
    simp at hsum
  have hquantity : window.quantity delta = fun index => delta * window.weight index :=
    funext (quantity_eq window delta)
  refine ⟨?_, ?_, fun index _ => exists_price, ?_⟩
  · rw [hquantity, List.sum_map_mul_left]
    show delta * ((List.range window.prices.length).map window.weight).sum = delta
    rw [h.sum_eq, mul_one]
  · simp only [hquantity, mul_assoc]
    rw [List.sum_map_mul_left, h.mean_eq]
  · refine ⟨_, _, List.min?_eq_some_min hne, List.max?_eq_some_max hne, ?_, ?_⟩
    · exact h.le_average fun price hprice => List.min_le_of_mem ((hmem price).2 hprice)
    · exact h.average_le fun price hprice => List.le_max_of_mem ((hmem price).2 hprice)

/-! ## Samples -/

theorem map_range_eq {α β : Type} {l : List α} {g : Nat → β} {f : α → β}
    (h : ∀ (index : Nat) a, l[index]? = some a → g index = f a) :
    (List.range l.length).map g = l.map f := by
  refine List.ext_getElem (by simp) fun index hindex _ => ?_
  have hlt : index < l.length := by simpa using hindex
  simp [h index l[index] (List.getElem?_eq_getElem hlt)]

/-- Samples with a price and a weight each. -/
theorem weighs_of_samples {α : Type} (samples : List α) (price : α → Option ℚ) (part : α → ℚ)
    (hprices : window.prices = samples.map price)
    (hweight : ∀ (index : Nat) a, samples[index]? = some a →
      window.weight index = if (price a).isSome then part a else 0)
    (hnonneg : ∀ a ∈ samples, 0 ≤ part a)
    (hsum : (samples.map fun a => if (price a).isSome then part a else 0).sum = 1)
    (hmean : (samples.map fun a => (if (price a).isSome then part a else 0) *
      (price a).getD 0).sum = average) : window.Weighs average := by
  have hlength : window.prices.length = samples.length := by
    rw [hprices, List.length_map]
  constructor
  · intro index
    cases ha : samples[index]? with
    | none =>
      have hnone : window.prices[index]? = none := by
        rw [hprices, List.getElem?_map, ha]
        rfl
      unfold weight quantity
      rw [hnone]
    | some a =>
      rw [hweight index a ha]
      split
      · exact hnonneg a (List.mem_of_getElem? ha)
      · exact le_rfl
  · rw [hlength, map_range_eq hweight, hsum]
  · rw [hlength, ← hmean]
    refine congrArg List.sum (map_range_eq fun index a ha => ?_)
    unfold MinutePrices.price
    rw [hweight index a ha, hprices, List.getElem?_map, ha]
    rfl

theorem ofCount_eq (count : Nat) : (ofCount count : ℚ) = count := by
  unfold ofCount
  rw [Exact.sum_eq, List.sum_replicate, nsmul_eq_mul, mul_one]

theorem sum_equal_parts (prices : List (Option ℚ)) (part : ℚ) :
    (prices.map fun price => if price.isSome then part else 0).sum =
      (prices.filterMap id).length * part := by
  induction prices with
  | nil => simp
  | cons price prices ih =>
    cases price with
    | none => simpa using ih
    | some price =>
      simp only [List.map_cons, List.sum_cons, Option.isSome_some, if_true, ih,
        List.filterMap_cons, id_eq, List.length_cons]
      push_cast
      ring

theorem sum_equal_costs (prices : List (Option ℚ)) (part : ℚ) :
    (prices.map fun price => (if price.isSome then part else 0) * price.getD 0).sum =
      part * (prices.filterMap id).sum := by
  induction prices with
  | nil => simp
  | cons price prices ih =>
    cases price with
    | none => simpa using ih
    | some price =>
      simp only [List.map_cons, List.sum_cons, Option.isSome_some, if_true, ih,
        List.filterMap_cons, id_eq, Option.getD_some]
      ring

/-- The priced samples trade equal parts. -/
theorem weighs_of_equal (hmodel : window.executionModel ≠ .vwap3m)
    (hpriced : window.prices.filterMap id ≠ [])
    (haverage : average = (window.prices.filterMap id).sum / (window.prices.filterMap id).length) :
    window.Weighs average := by
  have hpos : (0 : ℚ) < (window.prices.filterMap id).length := by
    exact_mod_cast List.length_pos_of_ne_nil hpriced
  refine weighs_of_samples window.prices id (fun _ => 1 / (window.prices.filterMap id).length)
    (List.map_id _).symm ?_ ?_ ?_ ?_
  · intro index price hprice
    unfold weight quantity
    rw [hprice]
    cases price with
    | none => rfl
    | some price =>
      have hquantity : (1 : ℚ) / ofCount window.pricedSampleCount =
          1 / (window.prices.filterMap id).length := by
        rw [ofCount_eq]
        rfl
      cases hm : window.executionModel with
      | vwap3m => exact absurd hm hmodel
      | twap5m => exact hquantity
      | twap3m => exact hquantity
      | instantTaker => exact hquantity
  · intro price _
    positivity
  · refine (sum_equal_parts window.prices _).trans ?_
    field_simp
  · refine (sum_equal_costs window.prices _).trans ?_
    rw [haverage]
    ring

end

end MinutePrices

/-! ## The pricing of a window -/

namespace Kline

/-- The price a candle has of its own. -/
def ownPrice (candle : Kline ℚ) : Option ℚ := if candle.isEmpty then none else candle.vwap

/-- The volume that counts. -/
def ownVolume (candle : Kline ℚ) : ℚ := if candle.isEmpty then 0 else candle.baseVolume

theorem vwap_eq_some {candle : Kline ℚ} {price : ℚ} (h : candle.vwap = some price) :
    0 < candle.baseVolume ∧ price = candle.quoteVolume / candle.baseVolume := by
  unfold vwap at h
  simp only at h
  split at h
  · next hpositive =>
    cases h
    simp only [Bool.and_eq_true, decide_eq_true_eq] at hpositive
    exact ⟨hpositive.1.1.1, rfl⟩
  · cases h

theorem mapM_samplePrice {candles : List (Kline ℚ)} {prices : List (Option ℚ)}
    (h : candles.mapM samplePrice = some prices) :
    prices = candles.map ownPrice ∧
      ∀ candle ∈ candles, candle.isEmpty = false → ∃ price, candle.vwap = some price := by
  induction candles generalizing prices with
  | nil =>
    cases h
    exact ⟨rfl, fun candle hcandle => absurd hcandle List.not_mem_nil⟩
  | cons candle candles ih =>
    rw [List.mapM_cons] at h
    obtain ⟨price, hprice, h⟩ := Option.bind_eq_some_iff.1 h
    obtain ⟨more, hmore, h⟩ := Option.bind_eq_some_iff.1 h
    cases h
    obtain ⟨hprices, hvwap⟩ := ih hmore
    rw [List.forall_mem_cons, List.map_cons, ← hprices]
    unfold samplePrice at hprice
    unfold ownPrice
    cases hempty : candle.isEmpty with
    | true =>
      rw [hempty] at hprice
      cases hprice
      exact ⟨rfl, fun h => absurd h Bool.true_eq_false_eq_False, hvwap⟩
    | false =>
      rw [hempty] at hprice
      obtain ⟨own, hown, rfl⟩ := Option.map_eq_some_iff.1 hprice
      exact ⟨by rw [hown]; rfl, fun _ => ⟨own, hown⟩, hvwap⟩

end Kline

open MinutePrices

section

variable {model : ExecutionModel} {candles : List (Kline ℚ)} {window : MinutePrices ℚ}
  {average : ℚ}

/-- The weight of a priced sample under volume weights. -/
theorem weight_of_vwap {index : Nat} {part : ℚ} (price : ℚ) (hmodel : window.executionModel = .vwap3m)
    (hprice : window.prices[index]? = some (some price))
    (hpart : window.quantityWeights[index]? = some part) : window.weight index = part := by
  unfold weight quantity
  rw [hprice, hmodel, hpart]
  exact one_mul part

theorem filterMap_some_ne_nil {closes : List ℚ} (h : closes ≠ []) :
    (closes.map some).filterMap id ≠ [] := by
  cases closes with
  | nil => exact absurd rfl h
  | cons close closes => simp

/-- A window without any volume: every minute has its close. -/
theorem weighs_of_closes {volumes : List ℚ} (hne : candles ≠ [])
    (hmodel : window.executionModel = .vwap3m)
    (hprices : window.prices = (candles.map Kline.close).map some)
    (hweights : window.quantityWeights =
      volumes.map fun _ => 1 / ofCount (candles.map Kline.close).length)
    (hvolumes : volumes.length = candles.length)
    (haverage : average = F64.sum (candles.map Kline.close) /
      ofCount (candles.map Kline.close).length) : window.Weighs average := by
  have hpos : (0 : ℚ) < candles.length := by
    exact_mod_cast List.length_pos_of_ne_nil hne
  rw [ofCount_eq, List.length_map] at haverage hweights
  refine weighs_of_samples candles (fun candle => some candle.close)
    (fun _ => 1 / candles.length) (by rw [hprices, List.map_map]; rfl) ?_ ?_ ?_ ?_
  · intro index candle hcandle
    obtain ⟨volume, hvolume⟩ : ∃ volume, volumes[index]? = some volume := by
      have hlt := (List.getElem?_eq_some_iff.1 hcandle).1
      exact ⟨_, List.getElem?_eq_getElem (by omega)⟩
    refine weight_of_vwap candle.close hmodel ?_ ?_
    · rw [hprices, List.getElem?_map, List.getElem?_map, hcandle]
      rfl
    · rw [hweights, List.getElem?_map, hvolume]
      rfl
  · intro candle _
    positivity
  · simp only [Option.isSome_some, if_true, List.map_const', List.sum_replicate, nsmul_eq_mul]
    field_simp
  · simp only [Option.isSome_some, if_true, Option.getD_some]
    rw [List.sum_map_mul_left, haverage, Exact.sum_eq]
    ring

/-- A window with some volume: every minute weighs its volume. -/
theorem weighs_of_volumes (hmodel : window.executionModel = .vwap3m)
    (hvwap : ∀ candle ∈ candles, candle.isEmpty = false → ∃ price, candle.vwap = some price)
    (htotal : 0 < (candles.map Kline.ownVolume).sum)
    (hprices : window.prices = candles.map Kline.ownPrice)
    (hweights : window.quantityWeights = (candles.map Kline.ownVolume).map fun volume =>
      volume / (candles.map Kline.ownVolume).sum)
    (haverage : average =
      ((candles.filter fun candle => !candle.isEmpty).map Kline.quoteVolume).sum /
        (candles.map Kline.ownVolume).sum) : window.Weighs average := by
  have hvolume : ∀ candle ∈ candles, 0 ≤ candle.ownVolume ∧
      (candle.ownPrice.isSome = false → candle.ownVolume = 0) ∧
      candle.ownVolume * candle.ownPrice.getD 0 =
        if candle.isEmpty then 0 else candle.quoteVolume := by
    intro candle hcandle
    unfold Kline.ownVolume Kline.ownPrice
    cases hempty : candle.isEmpty with
    | true => simp
    | false =>
      obtain ⟨price, hprice⟩ := hvwap candle hcandle hempty
      obtain ⟨hbase, hvalue⟩ := Kline.vwap_eq_some hprice
      simp only [Bool.false_eq_true, if_false, hprice, Option.isSome_some, Option.getD_some]
      refine ⟨hbase.le, fun h => absurd h Bool.true_eq_false_eq_False, ?_⟩
      rw [hvalue]
      field_simp
  have hpart : ∀ candle ∈ candles,
      (if candle.ownPrice.isSome then candle.ownVolume / (candles.map Kline.ownVolume).sum else 0) =
        candle.ownVolume / (candles.map Kline.ownVolume).sum := by
    intro candle hcandle
    split
    · rfl
    · next h => rw [(hvolume candle hcandle).2.1 (by simpa using h), zero_div]
  have hquote : ((candles.filter fun candle => !candle.isEmpty).map Kline.quoteVolume).sum =
      (candles.map fun candle => if candle.isEmpty then 0 else candle.quoteVolume).sum := by
    clear hvwap htotal hprices hweights haverage hvolume hpart
    induction candles with
    | nil => rfl
    | cons candle candles ih =>
      cases hempty : candle.isEmpty with
      | true => simp [hempty, ih]
      | false => simp [hempty, ih]
  refine weighs_of_samples candles Kline.ownPrice
    (fun candle => candle.ownVolume / (candles.map Kline.ownVolume).sum) hprices
    ?_ ?_ ?_ ?_
  · intro index candle hcandle
    split
    · next hsome =>
      obtain ⟨price, hprice⟩ := Option.isSome_iff_exists.1 hsome
      refine weight_of_vwap price hmodel ?_ ?_
      · rw [hprices, List.getElem?_map, hcandle, Option.map_some, hprice]
      · rw [hweights, List.getElem?_map, List.getElem?_map, hcandle]
        rfl
    · next hnone =>
      unfold weight quantity
      rw [hprices, List.getElem?_map, hcandle, Option.map_some]
      cases hprice : candle.ownPrice with
      | none => rfl
      | some price =>
        rw [hprice] at hnone
        exact absurd rfl hnone
  · intro candle hcandle
    exact div_nonneg (hvolume candle hcandle).1 htotal.le
  · rw [List.map_congr_left hpart]
    simp only [div_eq_mul_inv]
    rw [List.sum_map_mul_right]
    exact mul_inv_cancel₀ htotal.ne'
  · have hcost : ∀ candle ∈ candles,
        (if candle.ownPrice.isSome then candle.ownVolume / (candles.map Kline.ownVolume).sum
          else 0) * candle.ownPrice.getD 0 =
        (if candle.isEmpty then 0 else candle.quoteVolume) *
          (candles.map Kline.ownVolume).sum⁻¹ := by
      intro candle hcandle
      rw [hpart candle hcandle, ← (hvolume candle hcandle).2.2]
      ring
    rw [List.map_congr_left hcost, List.sum_map_mul_right, haverage, hquote, div_eq_mul_inv]

theorem exists_traded {count : Nat} (hlength : candles.length = count)
    (h : (candles.filter Kline.isEmpty).length ≠ count) :
    ∃ candle ∈ candles, candle.isEmpty = false := by
  by_contra hnone
  apply h
  have hall : candles.filter Kline.isEmpty = candles := by
    refine List.filter_eq_self.2 fun candle hcandle => ?_
    by_contra hempty
    exact hnone ⟨candle, hcandle, by simpa using hempty⟩
  rw [hall, hlength]

theorem all_empty (hlength : candles.length = model.sampleCount)
    (h : (candles.filter Kline.isEmpty).length = model.sampleCount) :
    ∀ candle ∈ candles, candle.isEmpty = true := by
  have heq : (candles.filter Kline.isEmpty).length = candles.length := by
    rw [h, hlength]
  exact List.length_filter_eq_length_iff.1 heq

theorem ownVolume_sum_pos {candle : Kline ℚ}
    (hvwap : ∀ candle ∈ candles, candle.isEmpty = false → ∃ price, candle.vwap = some price)
    (hcandle : candle ∈ candles) (htraded : candle.isEmpty = false) :
    0 < (candles.map Kline.ownVolume).sum := by
  have hpos : ∀ candle ∈ candles, candle.isEmpty = false → 0 < candle.ownVolume := by
    intro candle hcandle htraded
    obtain ⟨price, hprice⟩ := hvwap candle hcandle htraded
    unfold Kline.ownVolume
    rw [htraded]
    exact (Kline.vwap_eq_some hprice).1
  have hnonneg : ∀ volume ∈ candles.map Kline.ownVolume, 0 ≤ volume := by
    intro volume hvolume
    obtain ⟨other, hother, rfl⟩ := List.mem_map.1 hvolume
    cases hempty : other.isEmpty with
    | true =>
      unfold Kline.ownVolume
      rw [hempty]
      exact le_rfl
    | false => exact (hpos other hother hempty).le
  exact (hpos candle hcandle htraded).trans_le
    (List.single_le_sum hnonneg _ (List.mem_map_of_mem hcandle))

/-- The prices of the samples, with the closes that stand in for missing ones. -/
def sampledPrices (model : ExecutionModel) (candles : List (Kline ℚ)) : List (Option ℚ) :=
  if (candles.filter Kline.isEmpty).length = model.sampleCount then
    (candles.map Kline.close).map some
  else if model = .twap3m then
    List.zipWith (fun price close => some (price.getD close)) (candles.map Kline.ownPrice)
      (candles.map Kline.close)
  else candles.map Kline.ownPrice

/-- What `priceWindow` puts together. -/
structure Assembled (model : ExecutionModel) (candles : List (Kline ℚ))
    (window : MinutePrices ℚ) : Prop where
  model_eq : window.executionModel = model
  prices_eq : window.prices = sampledPrices model candles
  average_eq : window.averagePrice = (averageAndWeights model (sampledPrices model candles)
    (candles.map Kline.ownVolume) (candles.map Kline.close)
    ((candles.filter fun candle => !candle.isEmpty).map Kline.quoteVolume).sum).1
  weights_eq : window.quantityWeights = (averageAndWeights model (sampledPrices model candles)
    (candles.map Kline.ownVolume) (candles.map Kline.close)
    ((candles.filter fun candle => !candle.isEmpty).map Kline.quoteVolume).sum).2
  vwap : ∀ candle ∈ candles, candle.isEmpty = false → ∃ price, candle.vwap = some price

theorem priceWindow_assembled (hmodel : model ≠ .instantTaker)
    (h : priceWindow model candles = .ok (some window)) : Assembled model candles window := by
  unfold priceWindow at h
  rw [if_neg hmodel] at h
  cases hprices : candles.mapM Kline.samplePrice with
  | none =>
    rw [hprices] at h
    cases h
  | some prices =>
    obtain ⟨rfl, hvwap⟩ := Kline.mapM_samplePrice hprices
    rw [hprices] at h
    have hsampled : ∃ skipped fallback,
        (if (candles.filter Kline.isEmpty).length = model.sampleCount then
          ((candles.map Kline.close).map some, 0, model.sampleCount)
        else if model = .twap3m then
          (List.zipWith (fun price close => some (price.getD close)) (candles.map Kline.ownPrice)
            (candles.map Kline.close), 0,
            ((candles.map Kline.ownPrice).filter Option.isNone).length)
        else (candles.map Kline.ownPrice, (candles.filter Kline.isEmpty).length, 0)) =
          (sampledPrices model candles, skipped, fallback) := by
      unfold sampledPrices
      split
      · exact ⟨_, _, rfl⟩
      · split
        · exact ⟨_, _, rfl⟩
        · exact ⟨_, _, rfl⟩
    obtain ⟨skipped, fallback, hsampled⟩ := hsampled
    simp only [hsampled, Exact.sum_eq] at h
    obtain ⟨u, -, hpure⟩ := bind_eq_ok.1 h
    rw [pure_eq_ok, Except.ok.injEq, Option.some.injEq] at hpure
    subst hpure
    exact ⟨rfl, rfl, rfl, rfl, hvwap⟩

/-- The TWAP models. -/
theorem Assembled.weighs_twap (hwindow : Assembled model candles window)
    (htwap : model = .twap5m ∨ model = .twap3m) (hpriced : window.prices.filterMap id ≠ [])
    (haverage : window.averagePrice = some average) : window.Weighs average := by
  have hnot : window.executionModel ≠ .vwap3m := by
    rw [hwindow.model_eq]
    rintro rfl
    rcases htwap with h | h
    · cases h
    · cases h
  refine weighs_of_equal hnot hpriced ?_
  rw [hwindow.average_eq, ← hwindow.prices_eq] at haverage
  unfold averageAndWeights at haverage
  rcases htwap with rfl | rfl
  · cases haverage
    rw [Exact.sum_eq, ofCount_eq]
  · simp only at haverage
    split at haverage
    · next hthree =>
      cases haverage
      rw [Exact.sum_eq, ofCount_eq, hthree]
    · cases haverage

/-- A priced window is one whose samples trade at its average. -/
theorem priceWindow_weighs (hlength : candles.length = model.sampleCount)
    (h : priceWindow model candles = .ok (some window)) (haverage : window.average = some average) :
    window.Weighs average := by
  have hne : candles ≠ [] := by
    rintro rfl
    cases model <;> cases hlength
  have hcloses : candles.map Kline.close ≠ [] := by simpa using hne
  by_cases hinstant : model = .instantTaker
  · subst hinstant
    unfold priceWindow at h
    rw [if_pos rfl, Except.ok.injEq] at h
    obtain ⟨candle, -, rfl⟩ := Option.map_eq_some_iff.1 h
    cases haverage
    refine weighs_of_equal (fun h => by cases h) (by simp) ?_
    simp
  have hwindow := priceWindow_assembled hinstant h
  have haverage : window.averagePrice = some average := haverage
  by_cases hempty : (candles.filter Kline.isEmpty).length = model.sampleCount
  · -- no minute has volume
    have hprices := hwindow.prices_eq
    unfold sampledPrices at hprices
    rw [if_pos hempty] at hprices
    have hvolumes : (candles.map Kline.ownVolume).sum = 0 := by
      refine List.sum_eq_zero fun volume hvolume => ?_
      obtain ⟨candle, hcandle, rfl⟩ := List.mem_map.1 hvolume
      unfold Kline.ownVolume
      rw [all_empty hlength hempty candle hcandle]
      rfl
    cases model with
    | instantTaker => exact absurd rfl hinstant
    | vwap3m =>
      have hweights := hwindow.weights_eq
      rw [hwindow.average_eq] at haverage
      simp only [averageAndWeights, Exact.sum_eq, hvolumes, lt_irrefl, if_false,
        Option.some.injEq] at haverage hweights
      refine weighs_of_closes hne hwindow.model_eq hprices hweights (List.length_map ..) ?_
      rw [← haverage, Exact.sum_eq]
    | twap5m =>
      refine hwindow.weighs_twap (Or.inl rfl) ?_ haverage
      rw [hprices]
      exact filterMap_some_ne_nil hcloses
    | twap3m =>
      refine hwindow.weighs_twap (Or.inr rfl) ?_ haverage
      rw [hprices]
      exact filterMap_some_ne_nil hcloses
  · obtain ⟨candle, hcandle, htraded⟩ := exists_traded hlength hempty
    obtain ⟨price, hprice⟩ := hwindow.vwap candle hcandle htraded
    have hown : candle.ownPrice = some price := by
      unfold Kline.ownPrice
      rw [htraded, hprice]
      rfl
    have hprices := hwindow.prices_eq
    unfold sampledPrices at hprices
    rw [if_neg hempty] at hprices
    cases model with
    | instantTaker => exact absurd rfl hinstant
    | vwap3m =>
      have hbase := (Kline.vwap_eq_some hprice).1
      have htotal : 0 < (candles.map Kline.ownVolume).sum :=
        ownVolume_sum_pos hwindow.vwap hcandle htraded
      have hweights := hwindow.weights_eq
      rw [hwindow.average_eq] at haverage
      simp only [averageAndWeights, Exact.sum_eq, htotal, if_true, Option.some.injEq]
        at haverage hweights
      exact weighs_of_volumes hwindow.model_eq hwindow.vwap htotal hprices hweights haverage.symm
    | twap5m =>
      refine hwindow.weighs_twap (Or.inl rfl) ?_ haverage
      rw [hprices, if_neg (by decide)]
      refine List.ne_nil_of_mem (a := price) ?_
      rw [List.mem_filterMap]
      exact ⟨some price, List.mem_map.2 ⟨candle, hcandle, hown⟩, rfl⟩
    | twap3m =>
      refine hwindow.weighs_twap (Or.inr rfl) ?_ haverage
      -- three priced minutes, or no average
      intro hnil
      rw [hwindow.average_eq, ← hwindow.prices_eq] at haverage
      simp only [averageAndWeights, hnil] at haverage
      cases haverage

end

/-! ## Every window -/

theorem length_of_mapM {α β : Type} {f : α → Option β} {l : List α} {l' : List β}
    (h : l.mapM f = some l') : l'.length = l.length := by
  induction l generalizing l' with
  | nil =>
    cases h
    rfl
  | cons a l ih =>
    rw [List.mapM_cons] at h
    obtain ⟨b, -, h⟩ := Option.bind_eq_some_iff.1 h
    obtain ⟨rest, hrest, h⟩ := Option.bind_eq_some_iff.1 h
    cases h
    rw [List.length_cons, List.length_cons, ih hrest]

/-- Whatever was stored and read before, a window that `window_prices` returns with an
average splits every delta into samples that trade it at that average. -/
theorem windowPrices_splits [Text.Unicode] (config : KlineConfig) (database : Database ℚ)
    (calls : List (Command ℚ × Int)) (name : String) (openTsUs : Int)
    (model : ExecutionModel) (now : Int) {window : MinutePrices ℚ} {average : ℚ}
    (h : ((run Command.step (KlineStore.fromDb config database) calls).windowPrices name
      openTsUs model now).2 = .ok (some window))
    (haverage : window.average = some average) (delta : ℚ) : window.Splits average delta := by
  have hcoherent : (run Command.step (KlineStore.fromDb config database) calls).Coherent :=
    Steps.invariant (fun _ call hstore => Command.coherent_step call hstore)
      (KlineStore.coherent_fromDb config database) calls
  rw [(KlineStore.windowPrices_exact hcoherent name openTsUs model now).2] at h
  unfold KlineStore.impliedPrices at h
  split at h
  · next hinside =>
    obtain ⟨u, -, h⟩ := bind_eq_ok.1 h
    unfold SymbolStore.pricedWindow at h
    rw [if_pos hinside] at h
    split at h
    · cases h
    · next candles hcandles =>
      have hlength : candles.length = model.sampleCount := by
        rw [length_of_mapM hcandles]
        unfold windowOpens
        rw [List.length_map, List.length_range]
      exact (priceWindow_weighs hlength h haverage).splits delta
  · cases h

section Sample

attribute [local instance] Text.Unicode.ascii

/-- The second of three minutes is empty. -/
def sampleMinutes : OrdMap Int (Kline ℚ) :=
  (((∅ : OrdMap Int (Kline ℚ)).insert (1000 * MINUTE_US)
    ⟨1000 * MINUTE_US, 10, 10, 10, 10, 2, 20, 1⟩).insert (1001 * MINUTE_US)
    ⟨1001 * MINUTE_US, 10, 10, 10, 10, 0, 0, 0⟩).insert (1002 * MINUTE_US)
    ⟨1002 * MINUTE_US, 13, 13, 13, 13, 1, 13, 1⟩

theorem sampleMinutes_valid : ∀ (openTsUs : Int) candle, sampleMinutes[openTsUs]? = some candle →
    candle.validate = .ok () ∧ candle.openTsUs = openTsUs := by
  intro openTsUs candle hcandle
  have hall : (sampleMinutes.toList.all fun p =>
      decide (p.2.validate = .ok ()) && decide (p.2.openTsUs = p.1)) = true := by
    decide +kernel
  have hmem := List.all_eq_true.1 hall _ (OrdMap.mem_toList.2 hcandle)
  simpa using hmem

theorem sampleSymbol_named : (prefixBytes "BTCUSDT").toOption.isSome = true := by decide +kernel

def sampleHistory : Database ℚ where
  candles := (∅ : OrdMap String (OrdMap Int (Kline ℚ))).insert "BTCUSDT" sampleMinutes
  valid := valid_single sampleMinutes_valid
  named := named_single sampleSymbol_named

/-- Two minutes at their own price, the empty one at its close. -/
def sampleWindow : MinutePrices ℚ where
  prices := [some 10, some 10, some 13]
  quantityWeights := [1 / 3, 1 / 3, 1 / 3]
  executionModel := .twap3m
  averagePrice := some 11
  zeroVolumeSkippedSampleCount := 0
  zeroVolumeFallbackSampleCount := 1

theorem windowPrices_splits_threeMinutes : sampleWindow.Splits 11 (-6) :=
  windowPrices_splits ⟨true, 30⟩ sampleHistory [] "BTCUSDT" (1000 * MINUTE_US) .twap3m
    (1003 * MINUTE_US) (by decide +kernel) rfl (-6)

end Sample

end CtaManager.Candles
