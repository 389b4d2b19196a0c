import CtaManager.Candles.Store

/-!
The memory of the candle store and its database.

`Coherent` is what every operation keeps: stored candles are valid, the candles in
memory are the stored ones, and a priced window in memory is priced from candles in
memory.  From it, each way to read returns what the database alone implies; a scan whose
end is not on a minute is the exception (`Torn`).
-/

namespace CtaManager.Candles

open Check

variable {F : Type} [F64 F] [DecidableEq F]

/-- Every priced window is the pricing of candles in memory. -/
def MinuteCache.Priced (cache : MinuteCache F) : Prop :=
  ∀ openTsUs model priced, cache.prices[(⟨openTsUs, model⟩ : WindowKey)]? = some priced →
    ∃ candles, ((windowOpens openTsUs model).mapM fun minute => cache.candles[minute]?) =
        some candles ∧
      priceWindow model candles = .ok (some priced)

structure SymbolStore.Coherent (store : SymbolStore F) : Prop where
  valid : ∀ (openTsUs : Int) candle, store.durable[openTsUs]? = some candle →
    candle.validate = .ok () ∧ candle.openTsUs = openTsUs
  memory : ∀ (openTsUs : Int) candle, store.cache.candles[openTsUs]? = some candle →
    store.durable[openTsUs]? = some candle
  priced : store.cache.Priced

omit [F64 F] in
theorem mem_windowOpens {openTsUs minute : Int} {model : ExecutionModel} :
    minute ∈ windowOpens openTsUs model ↔
      ∃ index < model.sampleCount, minute = openTsUs + (index : Nat) * MINUTE_US := by
  unfold windowOpens
  rw [List.mem_map]
  constructor
  · rintro ⟨index, hindex, rfl⟩
    exact ⟨index, List.mem_range.1 hindex, rfl⟩
  · rintro ⟨index, hindex, rfl⟩
    exact ⟨index, List.mem_range.2 hindex, rfl⟩

/-- The windows over a minute are all windows that have it among their samples. -/
theorem mem_windowsOver {openTsUs minute : Int} {model : ExecutionModel}
    (h : minute ∈ windowOpens openTsUs model) : ⟨openTsUs, model⟩ ∈ windowsOver minute := by
  obtain ⟨index, hindex, rfl⟩ := mem_windowOpens.1 h
  refine List.mem_flatMap.2 ⟨index, ?_, List.mem_map.2 ⟨model, model.mem_all, ?_⟩⟩
  · have := model.sampleCount_le
    exact List.mem_range.2 (by omega)
  · rw [Int.add_sub_cancel]

theorem getElem?_foldl_erase {V : Type} (keys : List WindowKey) (m : OrdMap WindowKey V)
    (key : WindowKey) :
    (keys.foldl (fun m key => m.erase key) m)[key]? = if key ∈ keys then none else m[key]? := by
  induction keys generalizing m with
  | nil => simp
  | cons k keys ih =>
    rw [List.foldl_cons, ih, Std.ExtTreeMap.getElem?_erase]
    by_cases hk : key = k
    · simp [hk]
    · have hcmp : compare k key ≠ .eq := fun h => hk (compare_eq_iff_eq.1 h).symm
      simp [hk, hcmp]

/-- A minute that turns up in memory, or is replaced there. -/
theorem MinuteCache.Priced.insert {cache : MinuteCache F} (h : cache.Priced) (candle : Kline F) :
    (cache.insert candle).Priced := by
  intro openTsUs model priced hpriced
  have hkept : cache.prices[(⟨openTsUs, model⟩ : WindowKey)]? = some priced ∧
      (candle.openTsUs ∈ windowOpens openTsUs model →
        ∀ old, cache.candles[candle.openTsUs]? = some old → old = candle) := by
    unfold MinuteCache.insert at hpriced
    dsimp only at hpriced
    split at hpriced
    · rw [getElem?_foldl_erase] at hpriced
      split at hpriced
      · cases hpriced
      · next hover =>
        exact ⟨hpriced, fun hmem => absurd (mem_windowsOver hmem) hover⟩
    · next hsame =>
      refine ⟨hpriced, fun _ old hold => ?_⟩
      by_contra hne
      rw [hold] at hsame
      simp [hne] at hsame
  obtain ⟨hkept, hsame⟩ := hkept
  obtain ⟨candles, hcandles, hprice⟩ := h openTsUs model priced hkept
  refine ⟨candles, ?_, hprice⟩
  rw [← hcandles]
  refine OrdMap.mapM_getElem?_congr fun minute hminute => ?_
  show (cache.candles.insert candle.openTsUs candle)[minute]? = cache.candles[minute]?
  rw [OrdMap.getElem?_insert_of_key]
  split
  · next heq =>
    subst heq
    -- the window was complete, so the minute was there, and it was this candle
    have hsome := OrdMap.isSome_of_mapM_getElem? hcandles _ hminute
    obtain ⟨old, hold⟩ := Option.isSome_iff_exists.1 hsome
    rw [hold, hsame hminute old hold]
  · rfl

omit [F64 F] in
theorem MinuteCache.getElem?_insert (cache : MinuteCache F) (candle : Kline F) (minute : Int) :
    (cache.insert candle).candles[minute]? =
      if candle.openTsUs = minute then some candle else cache.candles[minute]? :=
  OrdMap.getElem?_insert_of_key _ _ _ _

/-- A candle written to the database and to memory. -/
theorem SymbolStore.Coherent.writeOne {store : SymbolStore F} (h : store.Coherent)
    {candle : Kline F} (hvalid : candle.validate = .ok ()) :
    SymbolStore.Coherent
      ⟨store.durable.insert candle.openTsUs candle, store.cache.insert candle⟩ := by
  refine ⟨fun openTsUs stored hstored => ?_, fun openTsUs held hheld => ?_, h.priced.insert candle⟩
  · rw [OrdMap.getElem?_insert_of_key] at hstored
    split at hstored
    · next heq =>
      cases hstored
      exact ⟨hvalid, heq⟩
    · exact h.valid openTsUs stored hstored
  · have hheld' : (store.cache.insert candle).candles[openTsUs]? = some held := hheld
    show (store.durable.insert candle.openTsUs candle)[openTsUs]? = some held
    rw [MinuteCache.getElem?_insert] at hheld'
    rw [OrdMap.getElem?_insert_of_key]
    split at hheld'
    · next heq =>
      rw [if_pos heq]
      exact hheld'
    · next hne =>
      rw [if_neg hne]
      exact h.memory openTsUs held hheld'

/-- A stored candle that is read into memory. -/
theorem SymbolStore.Coherent.read {store : SymbolStore F} (h : store.Coherent)
    {candle : Kline F} (hstored : store.durable[candle.openTsUs]? = some candle) :
    SymbolStore.Coherent { store with cache := store.cache.insert candle } := by
  refine ⟨h.valid, fun openTsUs held hheld => ?_, h.priced.insert candle⟩
  have hheld' : (store.cache.insert candle).candles[openTsUs]? = some held := hheld
  rw [MinuteCache.getElem?_insert] at hheld'
  split at hheld'
  · next heq =>
    cases hheld'
    exact heq ▸ hstored
  · exact h.memory openTsUs held hheld'

/-- Stored candles read into memory: they are there, and nothing else has changed. -/
theorem decodeInto_spec {store : SymbolStore F} (h : store.Coherent) {candles : List (Kline F)}
    (hstored : ∀ candle ∈ candles, store.durable[candle.openTsUs]? = some candle) :
    ∃ cache, decodeInto store.cache candles = (cache, .ok ()) ∧
      SymbolStore.Coherent { store with cache } ∧
      (∀ (minute : Int) held, store.cache.candles[minute]? = some held →
        cache.candles[minute]? = some held) ∧
      ∀ candle ∈ candles, cache.candles[candle.openTsUs]? = some candle := by
  induction candles generalizing store with
  | nil => exact ⟨store.cache, rfl, h, fun _ _ hheld => hheld, fun _ hc => absurd hc List.not_mem_nil⟩
  | cons candle rest ih =>
    have hfirst := hstored candle List.mem_cons_self
    have hvalid := (h.valid _ _ hfirst).1
    have hkeep : ∀ (minute : Int) held, store.cache.candles[minute]? = some held →
        (store.cache.insert candle).candles[minute]? = some held := by
      intro minute held hheld
      rw [MinuteCache.getElem?_insert]
      split
      · next heq =>
        subst heq
        rw [← hfirst]
        exact h.memory _ _ hheld
      · exact hheld
    obtain ⟨cache, hdecode, hcoherent, hmemory, hall⟩ := ih (h.read hfirst)
      (fun c hc => hstored c (List.mem_cons_of_mem _ hc))
    refine ⟨cache, ?_, hcoherent, fun minute held hheld => hmemory _ _ (hkeep _ _ hheld),
      fun c hc => ?_⟩
    · unfold decodeInto
      rw [hvalid]
      exact hdecode
    · rcases List.mem_cons.1 hc with rfl | hc
      · refine hmemory _ _ ?_
        rw [MinuteCache.getElem?_insert, if_pos rfl]
      · exact hall c hc

omit [F64 F] [DecidableEq F] in
theorem mem_missingMinutes {config : KlineConfig} {cache : MinuteCache F} {opens : List Int}
    {now minute : Int} : minute ∈ missingMinutes config cache opens now ↔
      (minute ∈ opens ∧ config.inside now minute = true) ∧ cache.candles[minute]? = none := by
  unfold missingMinutes
  rw [List.mem_filter, Std.ExtTreeSet.mem_toList, OrdMap.mem_foldl_insert fun openTsUs => openTsUs,
    Std.ExtTreeMap.contains_eq_isSome_getElem?]
  cases cache.candles[minute]? with
  | none => simp
  | some held => simp

/-- What a read brings into memory. -/
theorem loadMinutes_spec (config : KlineConfig) {store : SymbolStore F} (h : store.Coherent)
    (opens : List Int) (now : Int) :
    ∃ cache, loadMinutes config store opens now = ({ store with cache }, .ok ()) ∧
      SymbolStore.Coherent { store with cache } ∧
      (∀ (minute : Int) held, store.cache.candles[minute]? = some held →
        cache.candles[minute]? = some held) ∧
      ∀ minute ∈ opens, config.inside now minute = true →
        cache.candles[minute]? = store.durable[minute]? := by
  have hstored : ∀ candle ∈ (missingMinutes config store.cache opens now).filterMap
      (fun openTsUs => store.durable[openTsUs]?),
      store.durable[candle.openTsUs]? = some candle := by
    intro candle hcandle
    obtain ⟨minute, -, hstored⟩ := List.mem_filterMap.1 hcandle
    rw [(h.valid minute candle hstored).2]
    exact hstored
  obtain ⟨cache, hdecode, hcoherent, hmemory, hall⟩ := decodeInto_spec h hstored
  refine ⟨cache, ?_, hcoherent, hmemory, fun minute hminute hinside => ?_⟩
  · unfold loadMinutes
    rw [hdecode]
  · cases hheld : store.cache.candles[minute]? with
    | some held => rw [hmemory _ _ hheld, h.memory _ _ hheld]
    | none =>
      cases hstored : store.durable[minute]? with
      | none =>
        cases hc : cache.candles[minute]? with
        | none => rfl
        | some held =>
          have := hcoherent.memory minute held hc
          rw [← this]
          exact hstored
      | some candle =>
        have hopen := (h.valid minute candle hstored).2
        have hmem := hall candle (List.mem_filterMap.2
          ⟨minute, mem_missingMinutes.2 ⟨⟨hminute, hinside⟩, hheld⟩, hstored⟩)
        rw [hopen] at hmem
        exact hmem

theorem SymbolStore.Coherent.write {config : KlineConfig} {store : SymbolStore F}
    (h : store.Coherent) {candles : List (Kline F)}
    (hvalid : ∀ candle ∈ candles, candle.validate = .ok ()) (now : Int) :
    (store.write config candles now).Coherent := by
  have hkept : ∀ candle ∈ candles.filter fun candle => decide (config.cutoffUs now ≤ candle.openTsUs),
      candle.validate = .ok () := fun candle hc => hvalid candle (List.mem_of_mem_filter hc)
  unfold SymbolStore.write
  generalize candles.filter (fun candle => decide (config.cutoffUs now ≤ candle.openTsUs)) = kept
    at hkept
  dsimp only
  induction kept generalizing store with
  | nil => exact h
  | cons candle kept ih =>
    exact ih (h.writeOne (hkept candle List.mem_cons_self))
      fun c hc => hkept c (List.mem_cons_of_mem _ hc)

omit [DecidableEq F] in
/-- Pruning keeps the windows whose minutes all stay. -/
theorem SymbolStore.Coherent.prune {config : KlineConfig} {store : SymbolStore F}
    (h : store.Coherent) (now : Int) : (store.prune config now).Coherent := by
  refine ⟨fun openTsUs candle hcandle => ?_, fun openTsUs held hheld => ?_,
    fun openTsUs model priced hpriced => ?_⟩
  · have hcandle' : (store.durable.filter fun openTsUs _ =>
      decide (config.cutoffUs now ≤ openTsUs))[openTsUs]? = some candle := hcandle
    rw [OrdMap.getElem?_filter_eq_some] at hcandle'
    exact h.valid openTsUs candle hcandle'.1
  · have hheld' : (store.cache.candles.filter fun openTsUs _ =>
      decide (config.cutoffUs now ≤ openTsUs))[openTsUs]? = some held := hheld
    rw [OrdMap.getElem?_filter_eq_some] at hheld'
    show (store.durable.filter fun openTsUs _ =>
      decide (config.cutoffUs now ≤ openTsUs))[openTsUs]? = some held
    rw [OrdMap.getElem?_filter_eq_some]
    exact ⟨h.memory openTsUs held hheld'.1, hheld'.2⟩
  · have hpriced' : (store.cache.prices.filter fun key _ =>
      decide ((⟨config.cutoffUs now, .twap5m⟩ : WindowKey) ≤ key))[(⟨openTsUs, model⟩ : WindowKey)]? =
        some priced := hpriced
    rw [OrdMap.getElem?_filter_eq_some, decide_eq_true_eq, WindowKey.le_iff] at hpriced'
    obtain ⟨hpriced', hcutoff⟩ := hpriced'
    have hle : config.cutoffUs now ≤ openTsUs := by
      rcases hcutoff with hlt | ⟨heq, -⟩
      · exact hlt.le
      · exact heq.le
    obtain ⟨candles, hcandles, hprice⟩ := h.priced openTsUs model priced hpriced'
    refine ⟨candles, ?_, hprice⟩
    rw [← hcandles]
    refine OrdMap.mapM_getElem?_congr fun minute hminute => ?_
    show (store.cache.candles.filter fun openTsUs _ =>
      decide (config.cutoffUs now ≤ openTsUs))[minute]? = store.cache.candles[minute]?
    obtain ⟨index, -, rfl⟩ := mem_windowOpens.1 hminute
    have hstays : config.cutoffUs now ≤ openTsUs + (index : Nat) * MINUTE_US := by
      unfold MINUTE_US
      omega
    rw [Std.ExtTreeMap.getElem?_filter', decide_eq_true hstays]
    cases store.cache.candles[openTsUs + (index : Nat) * MINUTE_US]? with
    | none => rfl
    | some held => rfl

/-! ## What each read returns -/

/-- `read_minutes` returns the stored candles of the minutes inside retention and closed. -/
theorem readMinutes_spec (config : KlineConfig) {store : SymbolStore F} (h : store.Coherent)
    (opens : List Int) (now : Int) :
    (readMinutes config store opens now).1.Coherent ∧
      (readMinutes config store opens now).1.durable = store.durable ∧
      (readMinutes config store opens now).2 = .ok (opens.map fun minute =>
        if config.inside now minute then store.durable[minute]? else none) := by
  obtain ⟨cache, hload, hcoherent, -, hall⟩ := loadMinutes_spec config h opens now
  unfold readMinutes
  rw [hload]
  refine ⟨hcoherent, rfl, ?_⟩
  show Except.ok _ = Except.ok _
  rw [Except.ok.injEq]
  refine List.map_congr_left fun minute hminute => ?_
  split
  · next hinside => exact hall minute hminute hinside
  · rfl

/-- What a window costs, priced from the stored candles. -/
def SymbolStore.pricedWindow (config : KlineConfig) (store : SymbolStore F) (openTsUs : Int)
    (model : ExecutionModel) (now : Int) : Except String (Option (MinutePrices F)) :=
  if config.windowInside now openTsUs model then
    match (windowOpens openTsUs model).mapM fun minute => store.durable[minute]? with
    | none => .ok none
    | some candles => priceWindow model candles
  else .ok none

omit [F64 F] [DecidableEq F] in
theorem KlineConfig.inside_of_windowInside {config : KlineConfig} {now openTsUs : Int}
    {model : ExecutionModel} (h : config.windowInside now openTsUs model = true) {minute : Int}
    (hm : minute ∈ windowOpens openTsUs model) : config.inside now minute = true := by
  obtain ⟨index, hindex, rfl⟩ := mem_windowOpens.1 hm
  unfold KlineConfig.windowInside at h
  unfold KlineConfig.inside MINUTE_US at *
  rw [Bool.and_eq_true, decide_eq_true_eq, decide_eq_true_eq] at *
  have : (index : Int) + 1 ≤ model.sampleCount := by omega
  constructor
  · omega
  · omega

/-- `window_prices` returns what pricing the stored candles from scratch returns. -/
theorem windowPrices_spec (config : KlineConfig) {store : SymbolStore F} (h : store.Coherent)
    (openTsUs : Int) (model : ExecutionModel) (now : Int) :
    (windowPrices config store openTsUs model now).1.Coherent ∧
      (windowPrices config store openTsUs model now).1.durable = store.durable ∧
      (windowPrices config store openTsUs model now).2 =
        store.pricedWindow config openTsUs model now := by
  unfold windowPrices SymbolStore.pricedWindow
  cases hinside : config.windowInside now openTsUs model with
  | false => exact ⟨h, rfl, rfl⟩
  | true =>
    rw [Bool.not_true, if_neg Bool.false_ne_true, if_pos rfl]
    cases hpriced : store.cache.prices[(⟨openTsUs, model⟩ : WindowKey)]? with
    | some priced =>
      refine ⟨h, rfl, ?_⟩
      obtain ⟨candles, hcandles, hprice⟩ := h.priced openTsUs model priced hpriced
      have hsame : ((windowOpens openTsUs model).mapM fun minute => store.durable[minute]?) =
          some candles := by
        rw [← hcandles]
        refine OrdMap.mapM_getElem?_congr fun minute hminute => ?_
        obtain ⟨held, hheld⟩ :=
          Option.isSome_iff_exists.1 (OrdMap.isSome_of_mapM_getElem? hcandles minute hminute)
        rw [hheld, h.memory minute held hheld]
      rw [hsame]
      exact hprice.symm
    | none =>
      obtain ⟨cache, hload, hcoherent, -, hall⟩ :=
        loadMinutes_spec config h (windowOpens openTsUs model) now
      have hsame : ((windowOpens openTsUs model).mapM fun minute => cache.candles[minute]?) =
          (windowOpens openTsUs model).mapM fun minute => store.durable[minute]? :=
        OrdMap.mapM_getElem?_congr fun minute hminute =>
          hall minute hminute (config.inside_of_windowInside hinside hminute)
      rw [hload]
      dsimp only
      rw [hsame]
      cases hcandles : (windowOpens openTsUs model).mapM fun minute => store.durable[minute]? with
      | none => exact ⟨hcoherent, rfl, rfl⟩
      | some candles =>
        dsimp only
        rw [hcandles] at hsame
        cases hprice : priceWindow model candles with
        | error e => exact ⟨hcoherent, rfl, rfl⟩
        | ok result =>
          cases result with
          | none => exact ⟨hcoherent, rfl, rfl⟩
          | some priced =>
            refine ⟨⟨hcoherent.valid, hcoherent.memory, ?_⟩, rfl, rfl⟩
            intro openTsUs' model' priced' hpriced'
            by_cases hkey : (⟨openTsUs, model⟩ : WindowKey) = ⟨openTsUs', model'⟩
            · cases hkey
              dsimp only at hpriced'
              split at hpriced'
              · rw [OrdMap.getElem?_insert_of_key, if_pos rfl] at hpriced'
                cases hpriced'
                exact ⟨candles, hsame, hprice⟩
              · exact hcoherent.priced openTsUs model priced' hpriced'
            · refine hcoherent.priced openTsUs' model' priced' ?_
              dsimp only at hpriced'
              split at hpriced'
              · rw [OrdMap.getElem?_insert_of_key, if_neg hkey] at hpriced'
                exact hpriced'
              · exact hpriced'

/-! ## Scans -/

/-- The stored candles of a range inside retention and closed, in ascending order. -/
def SymbolStore.storedIn (config : KlineConfig) (store : SymbolStore F) (start stop now : Int) :
    List (Kline F) :=
  (store.durable.toList.filter fun p =>
    decide (start ≤ p.1) && decide (p.1 < stop) && config.inside now p.1).map Prod.snd

omit [DecidableEq F] in
theorem sorted_storedIn (config : KlineConfig) {store : SymbolStore F} (h : store.Coherent)
    (start stop now : Int) : (store.storedIn config start stop now).Pairwise fun a b =>
      a.openTsUs < b.openTsUs := by
  unfold SymbolStore.storedIn
  have hsorted : store.durable.toList.Pairwise fun a b => a.1 < b.1 :=
    OrdMap.sorted_keys_toList store.durable
  refine List.pairwise_map.2 ((hsorted.filter _).imp_of_mem fun {a b} ha hb hlt => ?_)
  have hvalid : ∀ p ∈ store.durable.toList.filter (fun p =>
      decide (start ≤ p.1) && decide (p.1 < stop) && config.inside now p.1), p.2.openTsUs = p.1 :=
    fun p hp => (h.valid p.1 p.2 (OrdMap.mem_toList.1 (List.mem_of_mem_filter hp))).2
  rw [hvalid a ha, hvalid b hb]
  exact hlt

omit [DecidableEq F] in
theorem SymbolStore.Coherent.aligned {store : SymbolStore F} (h : store.Coherent) {minute : Int}
    {candle : Kline F} (hstored : store.durable[minute]? = some candle) : MINUTE_US ∣ minute := by
  obtain ⟨hvalid, hopen⟩ := h.valid minute candle hstored
  exact hopen ▸ Kline.aligned hvalid

omit [DecidableEq F] in
/-- Between its bounds, a scan asks for exactly the requested minutes. -/
theorem storedIn_eq {config : KlineConfig} {store : SymbolStore F} (h : store.Coherent)
    (start stop now : Int) : store.storedIn config start stop now =
      candlesIn store.durable (config.scanStart start now) (scanStop stop now) := by
  unfold SymbolStore.storedIn candlesIn
  congr 1
  refine List.filter_congr fun p hp => ?_
  have hdvd := h.aligned (OrdMap.mem_toList.1 hp)
  have hstart : config.scanStart start now ≤ p.1 ↔ start ≤ p.1 ∧ config.cutoffUs now ≤ p.1 := by
    unfold KlineConfig.scanStart
    rw [firstCompleteOpen_le_iff hdvd, max_le_iff]
  have hstop : p.1 < scanStop stop now ↔ p.1 < stop ∧ p.1 + MINUTE_US ≤ now := by
    unfold scanStop
    rw [lt_min_iff, lt_floorMinute_iff hdvd]
  rw [Bool.eq_iff_iff]
  simp only [KlineConfig.inside, Bool.and_eq_true, decide_eq_true_eq, hstart, hstop]
  tauto

theorem mem_minutesIn {start stop minute : Int} (hstart : MINUTE_US ∣ start) :
    minute ∈ minutesIn start stop ↔ MINUTE_US ∣ minute ∧ start ≤ minute ∧ minute < stop := by
  obtain ⟨n, rfl⟩ := hstart
  unfold minutesIn
  rw [List.mem_map]
  constructor
  · rintro ⟨index, hindex, rfl⟩
    rw [List.mem_range] at hindex
    refine ⟨⟨n + index, by ring⟩, ?_, ?_⟩
    · unfold MINUTE_US
      omega
    · unfold MINUTE_US at *
      omega
  · rintro ⟨⟨m, rfl⟩, hle, hlt⟩
    refine ⟨(m - n).toNat, ?_, ?_⟩
    · rw [List.mem_range]
      unfold MINUTE_US at *
      omega
    · unfold MINUTE_US at *
      omega

theorem sorted_minutesIn (start stop : Int) : (minutesIn start stop).Pairwise (· < ·) := by
  unfold minutesIn
  refine List.pairwise_map.2 (List.pairwise_lt_range.imp fun {a b} hab => ?_)
  unfold MINUTE_US
  omega

omit [DecidableEq F] in
/-- The minutes of an aligned range, in memory and not. -/
theorem length_candlesIn {store : SymbolStore F} (h : store.Coherent) {start : Int}
    (hstart : MINUTE_US ∣ start) (stop : Int) :
    (candlesIn store.cache.candles start stop).length +
      (missingIn store.cache start stop).length = (minutesIn start stop).length := by
  have hpresent : ((minutesIn start stop).filter fun minute =>
      store.cache.candles.contains minute).length =
        (candlesIn store.cache.candles start stop).length := by
    unfold candlesIn
    rw [List.length_map, ← List.length_map (f := Prod.fst)]
    refine List.Perm.length_eq ((List.perm_ext_iff_of_nodup ?_ ?_).2 fun minute => ?_)
    · exact ((sorted_minutesIn start stop).imp fun hab => ne_of_lt hab).filter _
    · exact (OrdMap.nodup_keys_toList store.cache.candles).sublist (List.filter_sublist.map _)
    · rw [List.mem_filter, mem_minutesIn hstart, List.mem_map,
        Std.ExtTreeMap.contains_eq_isSome_getElem?]
      constructor
      · rintro ⟨⟨-, hle, hlt⟩, hsome⟩
        obtain ⟨candle, hcandle⟩ := Option.isSome_iff_exists.1 hsome
        refine ⟨(minute, candle), List.mem_filter.2 ⟨OrdMap.mem_toList.2 hcandle, ?_⟩, rfl⟩
        simp [hle, hlt]
      · rintro ⟨p, hp, rfl⟩
        obtain ⟨hp, hrange⟩ := List.mem_filter.1 hp
        have hcandle := OrdMap.mem_toList.1 hp
        simp only [Bool.and_eq_true, decide_eq_true_eq] at hrange
        refine ⟨⟨h.aligned (h.memory _ _ hcandle), hrange⟩, ?_⟩
        rw [hcandle]
        rfl
  rw [← hpresent]
  exact (List.length_eq_length_filter_add _).symm

omit [F64 F] [DecidableEq F] in
theorem mem_missingIn {cache : MinuteCache F} {start stop minute : Int}
    (hstart : MINUTE_US ∣ start) : minute ∈ missingIn cache start stop ↔
      (MINUTE_US ∣ minute ∧ start ≤ minute ∧ minute < stop) ∧ cache.candles[minute]? = none := by
  unfold missingIn
  rw [List.mem_filter, mem_minutesIn hstart, Std.ExtTreeMap.contains_eq_isSome_getElem?]
  cases cache.candles[minute]? with
  | none => simp
  | some held => simp

omit [F64 F] [DecidableEq F] in
theorem candlesIn_congr {candles candles' : OrdMap Int (Kline F)} {start stop : Int}
    (h : ∀ minute : Int, start ≤ minute → minute < stop → candles[minute]? = candles'[minute]?) :
    candlesIn candles start stop = candlesIn candles' start stop := by
  unfold candlesIn
  congr 1
  refine OrdMap.filter_toList_congr (p := fun k => decide (start ≤ k) && decide (k < stop))
    fun minute hminute => ?_
  rw [Bool.and_eq_true, decide_eq_true_eq, decide_eq_true_eq] at hminute
  exact h minute hminute.1 hminute.2

omit [F64 F] [DecidableEq F] in
theorem mem_candlesIn {candles : OrdMap Int (Kline F)} {start stop : Int} {candle : Kline F} :
    candle ∈ candlesIn candles start stop ↔
      ∃ minute : Int, candles[minute]? = some candle ∧ start ≤ minute ∧ minute < stop := by
  unfold candlesIn
  rw [List.mem_map]
  constructor
  · rintro ⟨p, hp, rfl⟩
    obtain ⟨hp, hrange⟩ := List.mem_filter.1 hp
    simp only [Bool.and_eq_true, decide_eq_true_eq] at hrange
    exact ⟨p.1, OrdMap.mem_toList.1 hp, hrange⟩
  · rintro ⟨minute, hcandle, hle, hlt⟩
    refine ⟨(minute, candle), List.mem_filter.2 ⟨OrdMap.mem_toList.2 hcandle, ?_⟩, rfl⟩
    simp [hle, hlt]

theorem between_of_sorted {l : List Int} (hl : l.Pairwise (· < ·)) {k : Int} (hk : k ∈ l) (d : Int) :
    l.headD d ≤ k ∧ k ≤ l.getLastD d := by
  cases l with
  | nil => exact absurd hk List.not_mem_nil
  | cons a l =>
    constructor
    · rcases List.mem_cons.1 hk with rfl | hk
      · exact le_refl _
      · exact ((List.pairwise_cons.1 hl).1 k hk).le
    · have hne : a :: l ≠ [] := List.cons_ne_nil _ _
      have hlast : (a :: l).getLastD d = (a :: l).getLast hne := by
        rw [List.getLastD_eq_getLast?, List.getLast?_eq_some_getLast hne, Option.getD_some]
      rw [hlast]
      have hsplit := List.dropLast_append_getLast hne
      rw [← hsplit] at hk hl
      rcases List.mem_append.1 hk with hk | hk
      · exact ((List.pairwise_append.1 hl).2.2 k hk _ (List.mem_singleton_self _)).le
      · exact (List.mem_singleton.1 hk).le

omit [DecidableEq F] in
/-- When every stored minute that was missing is in memory, memory has the whole range. -/
theorem candlesIn_of_load {store : SymbolStore F} {cache : MinuteCache F}
    (h : SymbolStore.Coherent { store with cache }) {start stop : Int} (hstart : MINUTE_US ∣ start)
    (hmemory : ∀ (minute : Int) held, store.cache.candles[minute]? = some held →
      cache.candles[minute]? = some held)
    (hmissing : ∀ minute ∈ missingIn store.cache start stop, ∀ candle,
      store.durable[minute]? = some candle → cache.candles[minute]? = some candle) :
    candlesIn cache.candles start stop = candlesIn store.durable start stop := by
  refine candlesIn_congr fun minute hle hlt => ?_
  cases hc : cache.candles[minute]? with
  | some held => exact (h.memory minute held hc).symm
  | none =>
    cases hd : store.durable[minute]? with
    | none => rfl
    | some candle =>
      cases hs : store.cache.candles[minute]? with
      | some held =>
        rw [hmemory minute held hs] at hc
        cases hc
      | none =>
        have hdvd : MINUTE_US ∣ minute := SymbolStore.Coherent.aligned h hd
        have hload := hmissing minute
          ((mem_missingIn hstart).2 ⟨⟨hdvd, hle, hlt⟩, hs⟩) candle hd
        rw [hc] at hload
        exact hload

/-- A scan that would stop inside a minute, with one stored minute missing from memory and
all others there. -/
def SymbolStore.Torn (config : KlineConfig) (store : SymbolStore F) (start stop now : Int) : Prop :=
  ¬ MINUTE_US ∣ scanStop stop now ∧ ∃ minute,
    missingIn store.cache (config.scanStart start now) (scanStop stop now) = [minute] ∧
      store.durable.contains minute = true

omit [F64 F] [DecidableEq F] in
theorem not_torn_of_empty {config : KlineConfig} {store : SymbolStore F} {start stop now : Int}
    (h : scanStop stop now ≤ config.scanStart start now) : ¬ store.Torn config start stop now := by
  rintro ⟨-, minute, hmissing, -⟩
  have hmem : minute ∈ missingIn store.cache (config.scanStart start now) (scanStop stop now) := by
    rw [hmissing]
    exact List.mem_singleton_self minute
  have hstart : MINUTE_US ∣ config.scanStart start now := minute_dvd_firstCompleteOpen _
  obtain ⟨⟨-, hle, hlt⟩, -⟩ := (mem_missingIn hstart).1 hmem
  omega

/-- The minutes of an aligned start: one more than whole minutes when the end is not aligned. -/
theorem length_minutesIn {start stop : Int} (hstart : MINUTE_US ∣ start) (hlt : start < stop) :
    (minutesIn start stop).length = ((stop - start) / MINUTE_US).toNat +
      if MINUTE_US ∣ stop then 0 else 1 := by
  obtain ⟨n, rfl⟩ := hstart
  unfold minutesIn
  rw [List.length_map, List.length_range]
  split
  · next hdvd =>
    obtain ⟨m, rfl⟩ := hdvd
    unfold MINUTE_US at *
    omega
  · next hdvd =>
    rw [Int.dvd_iff_emod_eq_zero] at hdvd
    unfold MINUTE_US at *
    omega

omit [DecidableEq F] in
theorem SymbolStore.Coherent.stored_of_mem_candlesIn {store : SymbolStore F} (h : store.Coherent)
    (start stop : Int) : ∀ candle ∈ candlesIn store.durable start stop,
      store.durable[candle.openTsUs]? = some candle := by
  intro candle hcandle
  obtain ⟨minute, hstored, -⟩ := mem_candlesIn.1 hcandle
  rw [(h.valid minute candle hstored).2]
  exact hstored

theorem scanRange_spec (config : KlineConfig) {store : SymbolStore F} (h : store.Coherent)
    {start stop now : Int} (hlt : config.scanStart start now < scanStop stop now) :
    let result := scanRange config store (config.scanStart start now) (scanStop stop now) now
    result.1.Coherent ∧ result.1.durable = store.durable ∧
      (result.2 = .ok (store.storedIn config start stop now) ↔ ¬ store.Torn config start stop now) := by
  have hstart : MINUTE_US ∣ config.scanStart start now := minute_dvd_firstCompleteOpen _
  rw [storedIn_eq h]
  unfold SymbolStore.Torn
  have hcount := length_candlesIn h hstart (scanStop stop now)
  rw [length_minutesIn hstart hlt] at hcount
  unfold scanRange
  dsimp only
  split
  · next hfull =>
    refine ⟨h, rfl, ?_⟩
    -- memory passes for complete: no minute is missing, or the last one of a torn range
    rw [Except.ok.injEq]
    constructor
    · rintro heq ⟨-, minute, hmissing, hstored⟩
      rw [Std.ExtTreeMap.contains_eq_isSome_getElem?] at hstored
      obtain ⟨candle, hcandle⟩ := Option.isSome_iff_exists.1 hstored
      have hmem : minute ∈ missingIn store.cache (config.scanStart start now) (scanStop stop now) := by
        rw [hmissing]
        exact List.mem_singleton_self minute
      obtain ⟨⟨-, hle, hstop⟩, hnone⟩ := (mem_missingIn hstart).1 hmem
      have hin := mem_candlesIn.2 ⟨minute, hcandle, hle, hstop⟩
      rw [← heq] at hin
      obtain ⟨minute', hheld, -⟩ := mem_candlesIn.1 hin
      have hopen := (h.valid _ _ (h.memory _ _ hheld)).2
      rw [(h.valid _ _ hcandle).2] at hopen
      rw [hopen, hheld] at hnone
      cases hnone
    · intro htorn
      refine candlesIn_of_load h hstart (fun _ _ hheld => hheld)
        fun minute hminute candle hcandle => ?_
      exfalso
      have hlength : (missingIn store.cache (config.scanStart start now)
          (scanStop stop now)).length = if MINUTE_US ∣ scanStop stop now then 0 else 1 := by
        omega
      split at hlength
      · rw [List.length_eq_zero_iff.1 hlength] at hminute
        exact List.not_mem_nil hminute
      · next hdvd =>
        obtain ⟨m, hm⟩ := List.length_eq_one_iff.1 hlength
        rw [hm, List.mem_singleton] at hminute
        subst hminute
        refine htorn ⟨hdvd, minute, hm, ?_⟩
        rw [Std.ExtTreeMap.contains_eq_isSome_getElem?, hcandle]
        rfl
  · next hfull =>
    have htorn : ¬ (¬ MINUTE_US ∣ scanStop stop now ∧ ∃ minute,
        missingIn store.cache (config.scanStart start now) (scanStop stop now) = [minute] ∧
          store.durable.contains minute = true) := by
      rintro ⟨hdvd, minute, hmissing, -⟩
      rw [hmissing, List.length_singleton, if_neg hdvd] at hcount
      omega
    by_cases hfew : (missingIn store.cache (config.scanStart start now)
        (scanStop stop now)).length ≤ 64
    · rw [if_pos hfew]
      obtain ⟨cache, hload, hcoherent, hmemory, hall⟩ := loadMinutes_spec config h
        (missingIn store.cache (config.scanStart start now) (scanStop stop now)) now
      rw [hload]
      refine ⟨hcoherent, rfl, iff_of_true ?_ htorn⟩
      show Except.ok _ = Except.ok _
      rw [Except.ok.injEq]
      refine candlesIn_of_load hcoherent hstart hmemory fun minute hminute candle hcandle => ?_
      obtain ⟨⟨hdvd, hle, hstop⟩, -⟩ := (mem_missingIn hstart).1 hminute
      rw [hall minute hminute ?_]
      · exact hcandle
      · unfold KlineConfig.scanStart at hle
        unfold scanStop at hstop
        rw [firstCompleteOpen_le_iff hdvd, max_le_iff] at hle
        rw [lt_min_iff, lt_floorMinute_iff hdvd] at hstop
        unfold KlineConfig.inside
        rw [Bool.and_eq_true, decide_eq_true_eq, decide_eq_true_eq]
        exact ⟨hle.2, hstop.2⟩
    · rw [if_neg hfew]
      obtain ⟨cache, hdecode, hcoherent, hmemory, hall⟩ := decodeInto_spec h
        (h.stored_of_mem_candlesIn
          ((missingIn store.cache (config.scanStart start now) (scanStop stop now)).headD
            (config.scanStart start now))
          ((missingIn store.cache (config.scanStart start now) (scanStop stop now)).getLastD
            (config.scanStart start now) + MINUTE_US))
      rw [hdecode]
      refine ⟨hcoherent, rfl, iff_of_true ?_ htorn⟩
      show Except.ok _ = Except.ok _
      rw [Except.ok.injEq]
      refine candlesIn_of_load hcoherent hstart hmemory fun minute hminute candle hcandle => ?_
      have hsorted : (missingIn store.cache (config.scanStart start now)
          (scanStop stop now)).Pairwise (· < ·) := (sorted_minutesIn _ _).filter _
      obtain ⟨hhead, hlast⟩ := between_of_sorted hsorted hminute (config.scanStart start now)
      have hload := hall candle (mem_candlesIn.2 ⟨minute, hcandle, hhead, by
        unfold MINUTE_US
        omega⟩)
      rw [(h.valid minute candle hcandle).2] at hload
      exact hload

omit [DecidableEq F] in
theorem storedIn_of_empty {config : KlineConfig} {store : SymbolStore F} (h : store.Coherent)
    {start stop now : Int} (hempty : scanStop stop now ≤ config.scanStart start now) :
    store.storedIn config start stop now = [] := by
  rw [storedIn_eq h, List.eq_nil_iff_forall_not_mem]
  intro candle hcandle
  obtain ⟨minute, -, hle, hlt⟩ := mem_candlesIn.1 hcandle
  omega

/-- A scan returns the stored candles of the range, unless it is torn. -/
theorem scan_spec (config : KlineConfig) {store : SymbolStore F} (h : store.Coherent)
    (start stop now : Int) :
    (scan config store start stop now).1.Coherent ∧
      (scan config store start stop now).1.durable = store.durable ∧
      ((scan config store start stop now).2 = .ok (store.storedIn config start stop now) ↔
        ¬ store.Torn config start stop now) := by
  unfold scan
  split
  · next hempty =>
    refine ⟨h, rfl, iff_of_true ?_ ?_⟩
    · rw [storedIn_of_empty h hempty]
    · exact not_torn_of_empty hempty
  · next hlt => exact scanRange_spec config h (not_le.1 hlt)

omit [DecidableEq F] in
theorem sorted_candlesIn {store : SymbolStore F} (h : store.Coherent) (start stop : Int) :
    (candlesIn store.cache.candles start stop).Pairwise fun a b => a.openTsUs < b.openTsUs := by
  unfold candlesIn
  have hsorted : store.cache.candles.toList.Pairwise fun a b => a.1 < b.1 :=
    OrdMap.sorted_keys_toList store.cache.candles
  refine List.pairwise_map.2 ((hsorted.filter _).imp_of_mem fun {a b} ha hb hlt => ?_)
  have hopen : ∀ p ∈ store.cache.candles.toList, p.2.openTsUs = p.1 := fun p hp =>
    (h.valid p.1 p.2 (h.memory p.1 p.2 (OrdMap.mem_toList.1 hp))).2
  rw [hopen a (List.mem_of_mem_filter ha), hopen b (List.mem_of_mem_filter hb)]
  exact hlt

/-- Torn or not, a scan lists its candles in order. -/
theorem sorted_scan (config : KlineConfig) {store : SymbolStore F} (h : store.Coherent)
    (start stop now : Int) {candles : List (Kline F)}
    (hscan : (scan config store start stop now).2 = .ok candles) :
    candles.Pairwise fun a b => a.openTsUs < b.openTsUs := by
  have hcoherent := (scan_spec config h start stop now).1
  unfold scan at hscan hcoherent
  split at hscan
  · cases hscan
    exact List.Pairwise.nil
  · next hlt =>
    rw [if_neg hlt] at hcoherent
    -- the reply is what memory has of the range after the read
    unfold scanRange at hscan hcoherent
    dsimp only at hscan hcoherent
    split at hscan
    · next hfull =>
      cases hscan
      exact sorted_candlesIn h _ _
    · next hfull =>
      rw [if_neg hfull] at hcoherent
      dsimp only at hscan hcoherent
      split at hscan
      · next hfew =>
        rw [if_pos hfew] at hcoherent
        obtain ⟨_, -, rfl⟩ := map_eq_ok.1 hscan
        exact sorted_candlesIn hcoherent _ _
      · next hmany =>
        rw [if_neg hmany] at hcoherent
        obtain ⟨_, -, rfl⟩ := map_eq_ok.1 hscan
        exact sorted_candlesIn hcoherent _ _

end CtaManager.Candles
