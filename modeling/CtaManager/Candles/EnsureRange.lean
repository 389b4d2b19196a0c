import CtaManager.Candles.Backfill

/-!
The backfill of a range (`ensure_range` in `kline.rs`).

Each block ends where the block after it starts, and starts a day earlier or at the
retention cutoff, which moves with the clock.  Once the rounded cutoff is past the
requested start, no block reaches that start any more.
-/

namespace CtaManager.Candles

open Check Catalog

/-- The readings of a clock that never runs backwards, in the order of the call. -/
structure Clock where
  /-- in `closed_range` -/
  closedAt : Int
  /-- in the two scans before the blocks -/
  hitAt : Int
  hitAgainAt : Int
  /-- where a block starts -/
  blockAt : Nat → Int
  /-- in the scan of a block -/
  scanAt : Nat → Int
  /-- where a page of a block is saved -/
  savedAt : Nat → Int → Int → Int
  closed_le : closedAt ≤ hitAt
  hit_le : hitAt ≤ hitAgainAt
  again_le : hitAgainAt ≤ blockAt 0
  block_le : ∀ block, blockAt block ≤ scanAt block
  scan_le : ∀ block start last, scanAt block ≤ savedAt block start last
  saved_le : ∀ block start last, savedAt block start last ≤ blockAt (block + 1)

theorem Clock.blockAt_mono (clock : Clock) : Monotone clock.blockAt :=
  monotone_nat_of_le_succ fun block =>
    (clock.block_le block).trans ((clock.scan_le block 0 0).trans (clock.saved_le block 0 0))

/-- What a call meets: the clock, and the answers of the exchange. -/
structure Outside (F : Type) where
  clock : Clock
  fetchPage : Int → Int → Except String (List (Kline F))

/-- The outside of one block. -/
def Outside.exchange {F : Type} (outside : Outside F) (block : Nat) : Exchange F where
  fetchPage := outside.fetchPage
  scanAt := outside.clock.scanAt block
  savedAt := outside.clock.savedAt block

/-- `closed_range`. -/
def closedRange [Text.Unicode] (config : KlineConfig) (name : String) (start stop now : Int) :
    Except String (Int × Int) := do
  ensure config.enabled "分钟 K 线分析未启用"
  let _ ← prefixBytes name
  ensure (decide (config.cutoffUs now ≤ start)) "Kline backfill cannot exceed retention"
  return (firstCompleteOpen start, min (firstCompleteOpen stop) (floorMinute now))

/-- Where the block before `blockEnd` starts. -/
def KlineConfig.blockStart (config : KlineConfig) (now blockEnd : Int) : Int :=
  firstCompleteOpen (max (blockEnd - DAY_US) (config.cutoffUs now))

theorem minute_dvd_blockStart (config : KlineConfig) (now blockEnd : Int) :
    MINUTE_US ∣ config.blockStart now blockEnd := minute_dvd_firstCompleteOpen _

/-- A day back, as long as the cutoff is not later. -/
theorem blockStart_of_le {config : KlineConfig} {now blockEnd : Int} (hend : MINUTE_US ∣ blockEnd)
    (h : config.cutoffUs now ≤ blockEnd - DAY_US) :
    config.blockStart now blockEnd = blockEnd - DAY_US := by
  unfold KlineConfig.blockStart
  rw [max_eq_left h]
  exact firstCompleteOpen_of_dvd (hend.sub (by decide))

theorem blockStart_of_lt {config : KlineConfig} {now blockEnd : Int}
    (h : blockEnd - DAY_US < config.cutoffUs now) :
    config.blockStart now blockEnd = firstCompleteOpen (config.cutoffUs now) := by
  unfold KlineConfig.blockStart
  rw [max_eq_right h.le]

/-- The blocks of a day that a range takes. -/
def blockCount (start stop : Int) : Nat := ((stop - start + (DAY_US - 1)) / DAY_US).toNat

theorem blockCount_spec {start stop : Int} (block : Nat) :
    block < blockCount start stop ↔ start < stop - block * DAY_US := by
  unfold blockCount DAY_US
  omega

section

variable {F : Type} [F64 F] [DecidableEq F] [Text.Unicode]

/-- The block loop of `ensure_range`. -/
def fillBlocks (outside : Outside F) (name : String) (start : Int) :
    Nat → Nat → Int → Progress F → Option (Progress F × Except String Unit)
  | fuel, block, blockEnd, progress =>
    if blockEnd ≤ start then some (progress, .ok ())
    else
      match fuel with
      | 0 => none
      | fuel + 1 =>
        let blockStart := progress.store.config.blockStart (outside.clock.blockAt block) blockEnd
        match fillMissing (outside.exchange block) name blockStart blockEnd progress with
        | none => none
        | some (progress, .error e) => some (progress, .error e)
        | some (progress, .ok _) =>
          fillBlocks outside name start fuel (block + 1) blockStart progress

/-- `ensure_range`, after `closed_range`: a hit must not trigger a day of requests. -/
def ensureClosed (fuel : Nat) (outside : Outside F) (store : KlineStore F) (name : String)
    (start stop : Int) : Option (Progress F × Except String Unit) :=
  if stop ≤ start then some (⟨store, []⟩, .ok ())
  else
    match store.scan name start stop outside.clock.hitAt with
    | (store, .error e) => some (⟨store, []⟩, .error e)
    | (store, .ok candles) =>
      if candles.length = minuteCount start stop then some (⟨store, []⟩, .ok ())
      else
        match store.scan name start stop outside.clock.hitAgainAt with
        | (store, .error e) => some (⟨store, []⟩, .error e)
        | (store, .ok candles) =>
          if candles.length = minuteCount start stop then some (⟨store, []⟩, .ok ())
          else fillBlocks outside name start fuel 0 stop ⟨store, []⟩

/-- `ensure_range`. -/
def ensureRange (fuel : Nat) (outside : Outside F) (store : KlineStore F) (name : String)
    (start stop : Int) : Option (Progress F × Except String Unit) :=
  match closedRange store.config name start stop outside.clock.closedAt with
  | .error e => some (⟨store, []⟩, .error e)
  | .ok (start, stop) => ensureClosed fuel outside store name start stop

/-! ## One block -/

/-- Saving a page changes the database inside the page only. -/
theorem saved_frame {store : KlineStore F} (h : store.Coherent) (exchange : Exchange F)
    (name : String) (page : Int × Int) :
    (exchange.saved name store page).Coherent ∧
      (exchange.saved name store page).config = store.config ∧
      ∀ minute, ¬ (page.1 ≤ minute ∧ minute < page.2) →
        ((exchange.saved name store page).symbol name).durable[minute]? =
          (store.symbol name).durable[minute]? := by
  unfold Exchange.saved
  cases exchange.fetchPage page.1 page.2 with
  | error e => exact ⟨h, rfl, fun _ _ => rfl⟩
  | ok candles =>
    refine ⟨h.savePage name page.1 page.2 candles _, KlineStore.config_savePage _ _ _ _ _ _,
      fun minute hout => ?_⟩
    dsimp only
    unfold KlineStore.savePage
    cases hcheck : KlineStore.checkPage store.config name page.1 page.2 candles
        (exchange.savedAt page.1 page.2) with
    | error e => rfl
    | ok u =>
      show (((store.setSymbol name ((store.symbol name).write store.config candles
        (exchange.savedAt page.1 page.2))).symbol name).durable)[minute]? = _
      rw [KlineStore.symbol_setSymbol, if_pos rfl]
      unfold SymbolStore.write
      dsimp only
      refine OrdMap.getElem?_foldl_upsert_of_forall_ne Kline.openTsUs (fun candle _ => candle) _ _ _
        fun candle hcandle heq => ?_
      obtain ⟨-, ⟨hle, hend⟩, -⟩ :=
        KlineStore.checkPage_eq_ok hcheck candle (List.mem_of_mem_filter hcandle)
      refine hout ⟨heq ▸ hle, ?_⟩
      unfold Kline.endTsUs MINUTE_US at hend
      omega

theorem foldl_saved_frame (exchange : Exchange F) (name : String) (pages : List (Int × Int))
    {store : KlineStore F} (h : store.Coherent) :
    (pages.foldl (exchange.saved name) store).Coherent ∧
      (pages.foldl (exchange.saved name) store).config = store.config ∧
      ∀ minute, (¬ ∃ page ∈ pages, page.1 ≤ minute ∧ minute < page.2) →
        ((pages.foldl (exchange.saved name) store).symbol name).durable[minute]? =
          (store.symbol name).durable[minute]? := by
  induction pages generalizing store with
  | nil => exact ⟨h, rfl, fun _ _ => rfl⟩
  | cons page pages ih =>
    obtain ⟨hsaved, hconfig, hpage⟩ := saved_frame h exchange name page
    obtain ⟨hrest, hconfig', hpages⟩ := ih hsaved
    refine ⟨hrest, hconfig'.trans hconfig, fun minute hout => ?_⟩
    rw [List.foldl_cons, hpages minute, hpage minute]
    · exact fun hin => hout ⟨page, List.mem_cons_self, hin⟩
    · rintro ⟨later, hlater, hin⟩
      exact hout ⟨later, List.mem_cons_of_mem _ hlater, hin⟩

/-- What the progress of a call has stored: what was there, and minutes of its pages. -/
structure Sound (store₀ : KlineStore F) (name : String) (progress : Progress F) : Prop where
  coherent : progress.store.Coherent
  config : progress.store.config = store₀.config
  stored : ∀ minute : Int, (progress.store.symbol name).durable.contains minute = true →
    (store₀.symbol name).durable.contains minute = true ∨
      ∃ page ∈ progress.requested, page.1 ≤ minute ∧ minute < page.2

/-- The minute was in the store, or has been requested. -/
def Covered (store₀ : KlineStore F) (name : String) (progress : Progress F) (minute : Int) : Prop :=
  (store₀.symbol name).durable.contains minute = true ∨
    ∃ page ∈ progress.requested, page.1 ≤ minute ∧ minute < page.2

/-- One pass: it ends; it succeeds if none of its pages is refused; it then covers its range;
and below the range it changes nothing. -/
theorem fillMissing_pass {store₀ : KlineStore F} {name : String} {bytes : List UInt8}
    (hname : prefixBytes name = .ok bytes) {progress : Progress F}
    (h : Sound store₀ name progress) (exchange : Exchange F) {start stop : Int}
    (hstart : MINUTE_US ∣ start) (hstop : MINUTE_US ∣ stop) :
    ∃ progress' result,
      fillMissing exchange name start stop progress = some (progress', result) ∧
      Sound store₀ name progress' ∧
      (∀ minute < start, (progress'.store.symbol name).durable[minute]? =
        (progress.store.symbol name).durable[minute]?) ∧
      (∀ page ∈ progress.requested, page ∈ progress'.requested) ∧
      (result = .ok () ↔ ∀ page ∈ progress.store.passPages name start stop exchange.scanAt,
        exchange.accepts store₀.config name page = true) ∧
      (result = .ok () → ∀ minute, MINUTE_US ∣ minute → start ≤ minute → minute < stop →
        Covered store₀ name progress' minute) := by
  have hholes := holes_passPages h.coherent name hstart hstop exchange.scanAt
  obtain ⟨hconfig, hdurable⟩ := KlineStore.scan_frame h.coherent name start stop exchange.scanAt
  obtain ⟨hscan, -⟩ := KlineStore.scan_exact_iff h.coherent name start stop exchange.scanAt
  obtain ⟨hprogress, hresult⟩ := followPages_spec exchange name
    (progress.store.passPages name start stop exchange.scanAt)
    { progress with store := (progress.store.scan name start stop exchange.scanAt).1 }
  have heq := fillMissing_eq exchange h.coherent hname hstart hstop
  generalize followPages exchange name
    { progress with store := (progress.store.scan name start stop exchange.scanAt).1 }
    (progress.store.passPages name start stop exchange.scanAt) = run at heq hprogress hresult
  generalize progress.store.passPages name start stop exchange.scanAt = pages at *
  obtain ⟨progress', result⟩ := run
  dsimp only at hprogress hresult
  rw [hconfig, h.config] at hprogress hresult
  subst hprogress
  obtain ⟨hsaved, hsavedConfig, hframe⟩ := foldl_saved_frame exchange name
    (exchange.kept store₀.config name pages) hscan
  have hkept : ∀ page ∈ exchange.kept store₀.config name pages, page ∈ pages := fun page hpage =>
    (List.takeWhile_sublist _).subset hpage
  have htaken : ∀ page ∈ exchange.kept store₀.config name pages,
      page ∈ pages.take ((exchange.kept store₀.config name pages).length + 1) := by
    intro page hpage
    have hprefix : exchange.kept store₀.config name pages <+: pages := List.takeWhile_prefix _
    rw [List.prefix_iff_eq_take.1 hprefix] at hpage
    exact (List.take_subset_take_left pages (Nat.le_succ _)) hpage
  refine ⟨_, result, heq, ⟨hsaved, hsavedConfig.trans (hconfig.trans h.config), ?_⟩, ?_, ?_,
    hresult, ?_⟩
  · intro minute hminute
    by_cases hin : ∃ page ∈ exchange.kept store₀.config name pages,
        page.1 ≤ minute ∧ minute < page.2
    · obtain ⟨page, hpage, hin⟩ := hin
      exact Or.inr ⟨page, List.mem_append_right _ (htaken page hpage), hin⟩
    · rw [Std.ExtTreeMap.contains_eq_isSome_getElem?, hframe minute hin, hdurable,
        ← Std.ExtTreeMap.contains_eq_isSome_getElem?] at hminute
      rcases h.stored minute hminute with hstored | ⟨page, hpage, hin⟩
      · exact Or.inl hstored
      · exact Or.inr ⟨page, List.mem_append_left _ hpage, hin⟩
  · intro minute hminute
    rw [hframe minute, hdurable]
    rintro ⟨page, hpage, hle, -⟩
    have := (hholes.page page (hkept page hpage)).1
    omega
  · exact fun page hpage => List.mem_append_left _ hpage
  · intro hok minute hminute hle hlt
    cases hcached : progress.store.cached name exchange.scanAt minute with
    | true =>
      unfold KlineStore.cached at hcached
      rw [Bool.and_eq_true] at hcached
      rcases h.stored minute hcached.2 with hstored | ⟨page, hpage, hin⟩
      · exact Or.inl hstored
      · exact Or.inr ⟨page, List.mem_append_left _ hpage, hin⟩
    | false =>
      obtain ⟨page, hpage, hin⟩ := (hholes.covered minute hminute).2 ⟨⟨hle, hlt⟩, hcached⟩
      refine Or.inr ⟨page, List.mem_append_right _ (htaken page ?_), hin⟩
      unfold Exchange.kept
      rw [List.takeWhile_eq_self_iff.2 (hresult.1 hok)]
      exact hpage

/-! ## The blocks -/

omit [F64 F] [DecidableEq F] [Text.Unicode] in
theorem passPages_of_le {store : KlineStore F} {name : String} {start stop now : Int}
    (h : stop ≤ start) : store.passPages name start stop now = [] := by
  unfold KlineStore.passPages
  cases minuteCount start stop with
  | zero => rw [holePages, if_pos h]
  | succ fuel => rw [holePages, if_pos h]

omit [F64 F] [DecidableEq F] [Text.Unicode] in
/-- The pages of a pass depend on the stored minutes of its range only. -/
theorem passPages_congr {store store' : KlineStore F} {name : String} {stop : Int}
    (hconfig : store'.config = store.config)
    (hbelow : ∀ minute < stop, (store'.symbol name).durable[minute]? =
      (store.symbol name).durable[minute]?) (start now : Int) :
    store'.passPages name start stop now = store.passPages name start stop now := by
  unfold KlineStore.passPages SymbolStore.storedIn
  rw [hconfig, OrdMap.filter_toList_congr (p := fun minute => decide (start ≤ minute) &&
    decide (minute < stop) && store.config.inside now minute) fun minute hminute => ?_]
  rw [Bool.and_eq_true, Bool.and_eq_true, decide_eq_true_eq, decide_eq_true_eq] at hminute
  exact hbelow minute hminute.1.2

/-- The loop ends. -/
def Ends (outside : Outside F) (name : String) (start : Int) (block : Nat) (blockEnd : Int)
    (progress : Progress F) : Prop :=
  ∃ fuel run, fillBlocks outside name start fuel block blockEnd progress = some run

theorem ends_of_le {outside : Outside F} {name : String} {start blockEnd : Int} (block : Nat)
    (progress : Progress F) (h : blockEnd ≤ start) :
    Ends outside name start block blockEnd progress :=
  ⟨0, (progress, .ok ()), by rw [fillBlocks, if_pos h]⟩

/-- The loop ends at a block whose pass fails, or goes on with the next block. -/
theorem ends_step {outside : Outside F} {name : String} {start blockEnd : Int} {block : Nat}
    {progress progress' : Progress F} {result : Except String Unit} (h : start < blockEnd)
    (hpass : fillMissing (outside.exchange block) name
      (progress.store.config.blockStart (outside.clock.blockAt block) blockEnd) blockEnd progress =
        some (progress', result)) :
    Ends outside name start block blockEnd progress ↔ (result = .ok () →
      Ends outside name start (block + 1)
        (progress.store.config.blockStart (outside.clock.blockAt block) blockEnd) progress') := by
  cases result with
  | error e =>
    refine iff_of_true ⟨1, (progress', .error e), ?_⟩ nofun
    rw [fillBlocks, if_neg (not_le.2 h)]
    dsimp only
    rw [hpass]
  | ok u =>
    have hstep : ∀ fuel, fillBlocks outside name start (fuel + 1) block blockEnd progress =
        fillBlocks outside name start fuel (block + 1)
          (progress.store.config.blockStart (outside.clock.blockAt block) blockEnd) progress' := by
      intro fuel
      rw [fillBlocks, if_neg (not_le.2 h)]
      dsimp only
      rw [hpass]
    constructor
    · rintro ⟨fuel, run, hrun⟩ -
      cases fuel with
      | zero =>
        rw [fillBlocks, if_neg (not_le.2 h)] at hrun
        cases hrun
      | succ fuel => exact ⟨fuel, run, (hstep fuel).symm.trans hrun⟩
    · intro hnext
      obtain ⟨fuel, run, hrun⟩ := hnext rfl
      exact ⟨fuel + 1, run, (hstep fuel).trans hrun⟩

/-- Once the rounded cutoff is at the end of a block that has not reached the start, the loop
does not end. -/
theorem not_ends_of_stuck {store₀ : KlineStore F} {outside : Outside F} {name : String}
    {bytes : List UInt8} (hname : prefixBytes name = .ok bytes) {start : Int} :
    ∀ (fuel block : Nat) (blockEnd : Int) (progress : Progress F), Sound store₀ name progress →
      MINUTE_US ∣ blockEnd → start < blockEnd →
      blockEnd ≤ firstCompleteOpen (store₀.config.cutoffUs (outside.clock.blockAt block)) →
      fillBlocks outside name start fuel block blockEnd progress = none := by
  intro fuel
  induction fuel with
  | zero =>
    intro block blockEnd progress _ _ hlt _
    rw [fillBlocks, if_neg (not_le.2 hlt)]
  | succ fuel ih =>
    intro block blockEnd progress h hend hlt hstuck
    have hstart := minute_dvd_blockStart store₀.config (outside.clock.blockAt block) blockEnd
    have hup : blockEnd ≤ store₀.config.blockStart (outside.clock.blockAt block) blockEnd :=
      hstuck.trans (firstCompleteOpen_mono (le_max_right _ _))
    have hnext : store₀.config.blockStart (outside.clock.blockAt block) blockEnd ≤
        firstCompleteOpen (store₀.config.cutoffUs (outside.clock.blockAt (block + 1))) := by
      have hclock : outside.clock.blockAt block ≤ outside.clock.blockAt (block + 1) :=
        outside.clock.blockAt_mono (Nat.le_succ block)
      have hcutoff : firstCompleteOpen (store₀.config.cutoffUs (outside.clock.blockAt block)) ≤
          firstCompleteOpen (store₀.config.cutoffUs (outside.clock.blockAt (block + 1))) := by
        refine firstCompleteOpen_mono ?_
        unfold KlineConfig.cutoffUs
        omega
      have hself := le_firstCompleteOpen
        (store₀.config.cutoffUs (outside.clock.blockAt block))
      unfold KlineConfig.blockStart
      rw [firstCompleteOpen_le_iff (minute_dvd_firstCompleteOpen _), max_le_iff]
      unfold DAY_US
      exact ⟨by omega, by omega⟩
    obtain ⟨progress', result, hpass, hsound, -, -, hresult, -⟩ :=
      fillMissing_pass hname h (outside.exchange block) hstart hend
    rw [passPages_of_le hup] at hresult
    have hok := hresult.2 fun _ hpage => absurd hpage List.not_mem_nil
    subst hok
    rw [fillBlocks, if_neg (not_le.2 hlt)]
    dsimp only
    rw [h.config, hpass]
    exact ih (block + 1) _ progress' hsound hstart (hlt.trans_le hup) hnext

/-- The pages of a block, a number of days before the end of the range. -/
def blockPages (outside : Outside F) (store : KlineStore F) (name : String) (stop : Int)
    (block : Nat) : List (Int × Int) :=
  store.passPages name
    (store.config.blockStart (outside.clock.blockAt block) (stop - block * DAY_US))
    (stop - block * DAY_US) (outside.clock.scanAt block)

/-- The cutoff of the last block is not past the start, or a page of a block is refused. -/
def Reaches (outside : Outside F) (store : KlineStore F) (name : String) (start stop : Int)
    (block : Nat) : Prop :=
  store.config.cutoffUs (outside.clock.blockAt (blockCount start stop - 1)) ≤ start ∨
    ∃ later, block ≤ later ∧ later < blockCount start stop ∧
      ∃ page ∈ blockPages outside store name stop later,
        (outside.exchange later).accepts store.config name page = false

omit [DecidableEq F] in
theorem reaches_iff_next {outside : Outside F} {store : KlineStore F} {name : String}
    {start stop : Int} {block : Nat} (h : block < blockCount start stop) :
    Reaches outside store name start stop block ↔
      ((∀ page ∈ blockPages outside store name stop block,
        (outside.exchange block).accepts store.config name page = true) →
          Reaches outside store name start stop (block + 1)) := by
  unfold Reaches
  constructor
  · rintro (hcutoff | ⟨later, hle, hlt, page, hpage, hrefused⟩) hall
    · exact Or.inl hcutoff
    · refine Or.inr ⟨later, ?_, hlt, page, hpage, hrefused⟩
      refine Nat.lt_of_le_of_ne hle fun heq => ?_
      subst heq
      rw [hall page hpage] at hrefused
      cases hrefused
  · intro hnext
    by_cases hall : ∀ page ∈ blockPages outside store name stop block,
        (outside.exchange block).accepts store.config name page = true
    · rcases hnext hall with hcutoff | ⟨later, hle, hrest⟩
      · exact Or.inl hcutoff
      · exact Or.inr ⟨later, (Nat.le_succ block).trans hle, hrest⟩
    · push Not at hall
      obtain ⟨page, hpage, hrefused⟩ := hall
      exact Or.inr ⟨block, le_refl block, h, page, hpage, Bool.not_eq_true _ ▸ hrefused⟩

/-- One block of the schedule. -/
theorem ends_block {store₀ : KlineStore F} (outside : Outside F) {name : String}
    {bytes : List UInt8} (hname : prefixBytes name = .ok bytes) {start stop : Int}
    (hstop : MINUTE_US ∣ stop) {block : Nat} (hlt : start < stop - block * DAY_US)
    {progress : Progress F} (h : Sound store₀ name progress)
    (hbelow : ∀ minute < stop - block * DAY_US, (progress.store.symbol name).durable[minute]? =
      (store₀.symbol name).durable[minute]?) :
    ∃ progress', Sound store₀ name progress' ∧
      (∀ minute < store₀.config.blockStart (outside.clock.blockAt block) (stop - block * DAY_US),
        minute < stop - block * DAY_US → (progress'.store.symbol name).durable[minute]? =
          (store₀.symbol name).durable[minute]?) ∧
      (Ends outside name start block (stop - block * DAY_US) progress ↔
        ((∀ page ∈ blockPages outside store₀ name stop block,
          (outside.exchange block).accepts store₀.config name page = true) →
            Ends outside name start (block + 1)
              (store₀.config.blockStart (outside.clock.blockAt block) (stop - block * DAY_US))
              progress')) := by
  have hend : MINUTE_US ∣ stop - block * DAY_US :=
    hstop.sub (Dvd.dvd.mul_left (by decide) _)
  obtain ⟨progress', result, hpass, hsound, hframe, -, hresult, -⟩ :=
    fillMissing_pass hname h (outside.exchange block)
      (minute_dvd_blockStart store₀.config (outside.clock.blockAt block) (stop - block * DAY_US)) hend
  rw [passPages_congr h.config hbelow] at hresult
  refine ⟨progress', hsound, fun minute hminute hlow => ?_, ?_⟩
  · rw [hframe minute hminute]
    exact hbelow minute hlow
  · rw [← h.config] at hpass ⊢
    rw [ends_step hlt hpass, hresult, h.config]
    exact Iff.rfl

/-- The cutoff is past a day before the end of a block. -/
theorem ends_next_of_lt {store₀ : KlineStore F} {outside : Outside F} {name : String}
    {bytes : List UInt8} (hname : prefixBytes name = .ok bytes) {start stop : Int}
    (hstart : MINUTE_US ∣ start) {block : Nat}
    (hblock : block < blockCount start stop) {progress' : Progress F}
    (h : Sound store₀ name progress')
    (hpast : stop - block * DAY_US - DAY_US <
      store₀.config.cutoffUs (outside.clock.blockAt block)) :
    Ends outside name start (block + 1)
        (store₀.config.blockStart (outside.clock.blockAt block) (stop - block * DAY_US)) progress' ↔
      Reaches outside store₀ name start stop (block + 1) := by
  have hclock : ∀ later, block ≤ later → store₀.config.cutoffUs (outside.clock.blockAt block) ≤
      store₀.config.cutoffUs (outside.clock.blockAt later) := by
    intro later hle
    have hmono : outside.clock.blockAt block ≤ outside.clock.blockAt later :=
      outside.clock.blockAt_mono hle
    unfold KlineConfig.cutoffUs
    omega
  rw [blockStart_of_lt hpast]
  by_cases hcutoff : store₀.config.cutoffUs (outside.clock.blockAt block) ≤ start
  · -- the last block, which reaches the start
    have hlast : blockCount start stop - 1 = block := by
      have hnot : ¬ block + 1 < blockCount start stop := by
        rw [blockCount_spec, Nat.cast_add, Nat.cast_one]
        unfold DAY_US at *
        omega
      omega
    refine iff_of_true (ends_of_le _ _ ((firstCompleteOpen_le_iff hstart).2 hcutoff)) (Or.inl ?_)
    rw [hlast]
    exact hcutoff
  · have hstuck : ¬ Ends outside name start (block + 1)
        (firstCompleteOpen (store₀.config.cutoffUs (outside.clock.blockAt block))) progress' := by
      rintro ⟨fuel, run, hrun⟩
      rw [not_ends_of_stuck hname fuel (block + 1) _ progress' h (minute_dvd_firstCompleteOpen _)
        ((not_le.1 hcutoff).trans_le (le_firstCompleteOpen _))
        (firstCompleteOpen_mono (hclock (block + 1) (Nat.le_succ block)))] at hrun
      cases hrun
    refine iff_of_false hstuck ?_
    rintro (hreached | ⟨later, hle, -, page, hpage, -⟩)
    · have := hclock (blockCount start stop - 1) (by omega)
      omega
    · -- what is left of the range is behind the cutoff
      have hempty : stop - later * DAY_US ≤
          store₀.config.blockStart (outside.clock.blockAt later) (stop - later * DAY_US) := by
        have hback : stop - (later : Int) * DAY_US ≤ stop - block * DAY_US - DAY_US := by
          unfold DAY_US
          omega
        refine le_trans ?_ (le_firstCompleteOpen _)
        refine le_trans ?_ (le_max_right _ _)
        have := hclock later (by omega)
        omega
      unfold blockPages at hpage
      rw [passPages_of_le hempty] at hpage
      exact absurd hpage List.not_mem_nil

/-- The loop ends if the cutoff of the last block lets it, or if a page is refused. -/
theorem ends_iff_reaches {store₀ : KlineStore F} (outside : Outside F) {name : String}
    {bytes : List UInt8} (hname : prefixBytes name = .ok bytes) {start stop : Int}
    (hstart : MINUTE_US ∣ start) (hstop : MINUTE_US ∣ stop) :
    ∀ (n block : Nat) (progress : Progress F), block + n + 1 = blockCount start stop →
      Sound store₀ name progress →
      (∀ minute < stop - block * DAY_US, (progress.store.symbol name).durable[minute]? =
        (store₀.symbol name).durable[minute]?) →
      (Ends outside name start block (stop - block * DAY_US) progress ↔
        Reaches outside store₀ name start stop block) := by
  intro n
  induction n with
  | zero =>
    intro block progress hn h hbelow
    have hblock : block < blockCount start stop := by omega
    obtain ⟨progress', hsound, -, hends⟩ := ends_block outside hname hstop
      ((blockCount_spec block).1 hblock) h hbelow
    rw [hends, reaches_iff_next hblock]
    refine imp_congr_right fun _ => ?_
    by_cases hpast : stop - block * DAY_US - DAY_US <
        store₀.config.cutoffUs (outside.clock.blockAt block)
    · exact ends_next_of_lt hname hstart hblock hsound hpast
    · have hreached : stop - block * DAY_US - DAY_US ≤ start := by
        have hnot : ¬ block + 1 < blockCount start stop := by omega
        rw [blockCount_spec, Nat.cast_add, Nat.cast_one] at hnot
        unfold DAY_US at *
        omega
      rw [blockStart_of_le (hstop.sub (Dvd.dvd.mul_left (by decide) _)) (not_lt.1 hpast)]
      refine iff_of_true (ends_of_le _ _ hreached) (Or.inl ?_)
      have hlast : blockCount start stop - 1 = block := by omega
      rw [hlast]
      exact (not_lt.1 hpast).trans hreached
  | succ n ih =>
    intro block progress hn h hbelow
    have hblock : block < blockCount start stop := by omega
    obtain ⟨progress', hsound, hbelow', hends⟩ := ends_block outside hname hstop
      ((blockCount_spec block).1 hblock) h hbelow
    rw [hends, reaches_iff_next hblock]
    refine imp_congr_right fun _ => ?_
    by_cases hpast : stop - block * DAY_US - DAY_US <
        store₀.config.cutoffUs (outside.clock.blockAt block)
    · exact ends_next_of_lt hname hstart hblock hsound hpast
    · rw [blockStart_of_le (hstop.sub (Dvd.dvd.mul_left (by decide) _)) (not_lt.1 hpast)] at hbelow' ⊢
      have hday : stop - (block : Int) * DAY_US - DAY_US = stop - ((block + 1 : Nat) : Int) * DAY_US := by
        unfold DAY_US
        omega
      rw [hday] at hbelow' ⊢
      refine ih (block + 1) progress' (by omega) hsound fun minute hminute => ?_
      refine hbelow' minute hminute ?_
      unfold DAY_US at *
      omega

/-- When the loop ends well, it has covered the range. -/
theorem fillBlocks_covered {store₀ : KlineStore F} (outside : Outside F) {name : String}
    {bytes : List UInt8} (hname : prefixBytes name = .ok bytes) {start stop : Int} :
    ∀ (fuel block : Nat) (blockEnd : Int) (progress progress' : Progress F),
      Sound store₀ name progress → MINUTE_US ∣ blockEnd →
      (∀ minute, MINUTE_US ∣ minute → blockEnd ≤ minute → minute < stop →
        Covered store₀ name progress minute) →
      fillBlocks outside name start fuel block blockEnd progress = some (progress', .ok ()) →
      ∀ minute, MINUTE_US ∣ minute → start ≤ minute → minute < stop →
        Covered store₀ name progress' minute := by
  intro fuel
  induction fuel with
  | zero =>
    intro block blockEnd progress progress' _ _ hcovered hrun minute hminute hle hlt
    rw [fillBlocks] at hrun
    split at hrun
    · next hreached =>
      cases hrun
      exact hcovered minute hminute (hreached.trans hle) hlt
    · cases hrun
  | succ fuel ih =>
    intro block blockEnd progress progress' h hend hcovered hrun minute hminute hle hlt
    rw [fillBlocks] at hrun
    split at hrun
    · next hreached =>
      cases hrun
      exact hcovered minute hminute (hreached.trans hle) hlt
    · dsimp only at hrun
      rw [h.config] at hrun
      have hstart := minute_dvd_blockStart store₀.config (outside.clock.blockAt block) blockEnd
      obtain ⟨next, result, hpass, hsound, -, hkept, -, hpassed⟩ :=
        fillMissing_pass hname h (outside.exchange block) hstart hend
      rw [hpass] at hrun
      cases result with
      | error e => cases hrun
      | ok u =>
        refine ih (block + 1) _ next progress' hsound hstart (fun later hlater hge hbefore => ?_) hrun
          minute hminute hle hlt
        by_cases hin : later < blockEnd
        · exact hpassed rfl later hlater hge hin
        · rcases hcovered later hlater (not_lt.1 hin) hbefore with hstored | ⟨page, hpage, hin⟩
          · exact Or.inl hstored
          · exact Or.inr ⟨page, hkept page hpage, hin⟩

/-! ## The whole call -/

/-- Every minute of the range is stored, and counted at a time. -/
def Whole (store : KlineStore F) (name : String) (start stop now : Int) : Prop :=
  ((store.symbol name).storedIn store.config start stop now).length = minuteCount start stop

omit [DecidableEq F] in
/-- As many candles as minutes: all minutes. -/
theorem Whole.stored {store : KlineStore F} (h : store.Coherent) {name : String}
    {start stop now : Int} (hwhole : Whole store name start stop now) (hstart : MINUTE_US ∣ start)
    (hstop : MINUTE_US ∣ stop) {minute : Int} (hminute : MINUTE_US ∣ minute) (hle : start ≤ minute)
    (hlt : minute < stop) : (store.symbol name).durable.contains minute = true := by
  have hopens : ∀ candle ∈ (store.symbol name).storedIn store.config start stop now,
      (store.symbol name).durable[candle.openTsUs]? = some candle ∧
        start ≤ candle.openTsUs ∧ candle.openTsUs < stop := by
    intro candle hcandle
    obtain ⟨p, hp, rfl⟩ := List.mem_map.1 hcandle
    obtain ⟨hp, hrange⟩ := List.mem_filter.1 hp
    have hstored := OrdMap.mem_toList.1 hp
    rw [Bool.and_eq_true, Bool.and_eq_true, decide_eq_true_eq, decide_eq_true_eq] at hrange
    rw [((h.symbol name).valid p.1 p.2 hstored).2]
    exact ⟨hstored, hrange.1⟩
  have hnodup : (((store.symbol name).storedIn store.config start stop now).map
      Kline.openTsUs).Nodup := by
    refine List.pairwise_map.2 ((sorted_storedIn store.config (h.symbol name) start stop now).imp ?_)
    exact fun hab => ne_of_lt hab
  have hsubset : ((store.symbol name).storedIn store.config start stop now).map Kline.openTsUs ⊆
      minutesIn start stop := by
    intro opened hopened
    obtain ⟨candle, hcandle, rfl⟩ := List.mem_map.1 hopened
    obtain ⟨hstored, hin⟩ := hopens candle hcandle
    exact (mem_minutesIn hstart).2 ⟨(h.symbol name).aligned hstored, hin⟩
  have hcount : (minutesIn start stop).length = minuteCount start stop := by
    rw [length_minutesIn hstart (hle.trans_lt hlt), if_pos hstop]
    rfl
  have hperm := (hnodup.subperm hsubset).perm_of_length_le
    (by rw [List.length_map, hcount]; exact hwhole.ge)
  have hmem := hperm.mem_iff.2 ((mem_minutesIn hstart).2 ⟨hminute, hle, hlt⟩)
  obtain ⟨candle, hcandle, rfl⟩ := List.mem_map.1 hmem
  rw [Std.ExtTreeMap.contains_eq_isSome_getElem?, (hopens candle hcandle).1]
  rfl

theorem closedRange_spec {config : KlineConfig} {name : String} {start stop now first last : Int}
    (h : closedRange config name start stop now = .ok (first, last)) :
    (∃ bytes, prefixBytes name = .ok bytes) ∧ first = firstCompleteOpen start ∧
      last = min (firstCompleteOpen stop) (floorMinute now) := by
  obtain ⟨_, -, h⟩ := bind_eq_ok.1 h
  obtain ⟨bytes, hname, h⟩ := bind_eq_ok.1 h
  obtain ⟨_, -, h⟩ := bind_eq_ok.1 h
  cases h
  exact ⟨⟨bytes, hname⟩, rfl, rfl⟩

theorem ensureClosed_spec (outside : Outside F) {store : KlineStore F} (h : store.Coherent)
    {name : String} {bytes : List UInt8} (hname : prefixBytes name = .ok bytes) (start : Int)
    {stop : Int} (hstop : MINUTE_US ∣ stop) :
    (∃ progress, (stop ≤ start ∨ Whole store name start stop outside.clock.hitAt ∨
        Whole store name start stop outside.clock.hitAgainAt) ∧
      ∀ fuel, ensureClosed fuel outside store name start stop = some (progress, .ok ())) ∨
    ∃ progress, (start < stop ∧ ¬ Whole store name start stop outside.clock.hitAt ∧
        ¬ Whole store name start stop outside.clock.hitAgainAt) ∧
      Sound store name progress ∧
      (∀ minute : Int, (progress.store.symbol name).durable[minute]? =
        (store.symbol name).durable[minute]?) ∧
      ∀ fuel, ensureClosed fuel outside store name start stop =
        fillBlocks outside name start fuel 0 stop progress := by
  by_cases hempty : stop ≤ start
  · refine Or.inl ⟨⟨store, []⟩, Or.inl hempty, fun fuel => ?_⟩
    unfold ensureClosed
    rw [if_pos hempty]
  have hfirst := KlineStore.scan_aligned h hname start hstop outside.clock.hitAt
  obtain ⟨hconfig, hdurable⟩ := KlineStore.scan_frame h name start stop outside.clock.hitAt
  obtain ⟨hscanned, -⟩ := KlineStore.scan_exact_iff h name start stop outside.clock.hitAt
  rcases hscan : store.scan name start stop outside.clock.hitAt with ⟨store', reply⟩
  rw [hscan] at hfirst hconfig hdurable hscanned
  dsimp only at hfirst hconfig hdurable hscanned
  subst hfirst
  by_cases hhit : Whole store name start stop outside.clock.hitAt
  · refine Or.inl ⟨⟨store', []⟩, Or.inr (Or.inl hhit), fun fuel => ?_⟩
    unfold ensureClosed
    rw [if_neg hempty, hscan]
    exact if_pos hhit
  have hsecond := KlineStore.scan_aligned hscanned hname start hstop outside.clock.hitAgainAt
  obtain ⟨hconfig', hdurable'⟩ :=
    KlineStore.scan_frame hscanned name start stop outside.clock.hitAgainAt
  obtain ⟨hscanned', -⟩ :=
    KlineStore.scan_exact_iff hscanned name start stop outside.clock.hitAgainAt
  rcases hscan' : store'.scan name start stop outside.clock.hitAgainAt with ⟨store'', reply⟩
  rw [hscan'] at hsecond hconfig' hdurable' hscanned'
  dsimp only at hsecond hconfig' hdurable' hscanned'
  have hsame : (store'.symbol name).storedIn store'.config start stop outside.clock.hitAgainAt =
      (store.symbol name).storedIn store.config start stop outside.clock.hitAgainAt := by
    unfold SymbolStore.storedIn
    rw [hconfig, hdurable]
  rw [hsame] at hsecond
  subst hsecond
  by_cases hagain : Whole store name start stop outside.clock.hitAgainAt
  · refine Or.inl ⟨⟨store'', []⟩, Or.inr (Or.inr hagain), fun fuel => ?_⟩
    unfold ensureClosed
    rw [if_neg hempty, hscan]
    refine (if_neg hhit).trans ?_
    rw [hscan']
    exact if_pos hagain
  · refine Or.inr ⟨⟨store'', []⟩, ⟨not_le.1 hempty, hhit, hagain⟩, ⟨hscanned', hconfig'.trans hconfig,
      fun minute hminute => ?_⟩, fun minute => ?_, fun fuel => ?_⟩
    · rw [hdurable', hdurable] at hminute
      exact Or.inl hminute
    · rw [hdurable', hdurable]
    · unfold ensureClosed
      rw [if_neg hempty, hscan]
      refine (if_neg hhit).trans ?_
      rw [hscan']
      exact if_neg hagain

/-- The call ends; and when it ends well, every closed minute of the request was in the store,
or has been requested. -/
def EndsCovered (outside : Outside F) (store : KlineStore F) (name : String) (start stop : Int) :
    Prop :=
  (∃ fuel run, ensureRange fuel outside store name start stop = some run) ∧
    ∀ fuel progress, ensureRange fuel outside store name start stop = some (progress, .ok ()) →
      ∀ minute, MINUTE_US ∣ minute → start ≤ minute → minute < stop →
        minute + MINUTE_US ≤ outside.clock.closedAt → Covered store name progress minute

/-- The call ends, covering the request, exactly when there is nothing to do, when the cutoff
at the last block is not past the start, or when a page is refused. -/
theorem ensureRange_endsCovered_iff {outside : Outside F} {store : KlineStore F}
    (h : store.Coherent) {name : String} {start stop first last : Int}
    (hclosed : closedRange store.config name start stop outside.clock.closedAt =
      .ok (first, last)) :
    EndsCovered outside store name start stop ↔
      last ≤ first ∨ Whole store name first last outside.clock.hitAt ∨
        Whole store name first last outside.clock.hitAgainAt ∨
        Reaches outside store name first last 0 := by
  obtain ⟨⟨bytes, hname⟩, hfirst, hlast⟩ := closedRange_spec hclosed
  have hstart : MINUTE_US ∣ first := hfirst ▸ minute_dvd_firstCompleteOpen start
  have hstop : MINUTE_US ∣ last := by
    rw [hlast]
    rcases min_choice (firstCompleteOpen stop) (floorMinute outside.clock.closedAt) with hmin | hmin
    · rw [hmin]
      exact minute_dvd_firstCompleteOpen stop
    · rw [hmin]
      exact minute_dvd_floorMinute _
  have hrange : ∀ minute, MINUTE_US ∣ minute → start ≤ minute → minute < stop →
      minute + MINUTE_US ≤ outside.clock.closedAt → first ≤ minute ∧ minute < last := by
    intro minute hminute hle hlt hend
    rw [hfirst, hlast, firstCompleteOpen_le_iff hminute, lt_min_iff, lt_floorMinute_iff hminute,
      ← not_le, firstCompleteOpen_le_iff hminute, not_le]
    exact ⟨hle, hlt, hend⟩
  have hrun : ∀ fuel, ensureRange fuel outside store name start stop =
      ensureClosed fuel outside store name first last := by
    intro fuel
    unfold ensureRange
    rw [hclosed]
  unfold EndsCovered
  simp only [hrun]
  rcases ensureClosed_spec outside h hname first hstop with ⟨progress, hhit, heq⟩ |
    ⟨progress, ⟨hlt, hhit, hagain⟩, hsound, hframe, heq⟩
  · refine iff_of_true ⟨⟨0, _, heq 0⟩, ?_⟩ ?_
    · intro fuel progress' _ minute hminute hle hlt hend
      obtain ⟨hge, hbefore⟩ := hrange minute hminute hle hlt hend
      rcases hhit with hempty | hwhole | hwhole
      · omega
      · exact Or.inl (hwhole.stored h hstart hstop hminute hge hbefore)
      · exact Or.inl (hwhole.stored h hstart hstop hminute hge hbefore)
    · rcases hhit with hempty | hwhole | hwhole
      · exact Or.inl hempty
      · exact Or.inr (Or.inl hwhole)
      · exact Or.inr (Or.inr (Or.inl hwhole))
  · simp only [heq]
    have hcount : 0 + (blockCount first last - 1) + 1 = blockCount first last := by
      have hpos : 0 < blockCount first last := by
        rw [blockCount_spec, Nat.cast_zero, zero_mul, sub_zero]
        exact hlt
      omega
    have hends : Ends outside name first 0 (last - ((0 : Nat) : Int) * DAY_US) progress ↔
        Reaches outside store name first last 0 :=
      ends_iff_reaches outside hname hstart hstop (blockCount first last - 1) 0 progress hcount hsound
        fun minute _ => hframe minute
    rw [Nat.cast_zero, zero_mul, sub_zero] at hends
    constructor
    · rintro ⟨hended, -⟩
      exact Or.inr (Or.inr (Or.inr (hends.1 hended)))
    · intro hcases
      have hreaches : Reaches outside store name first last 0 := by
        rcases hcases with hempty | hwhole | hwhole | hreaches
        · exact absurd hempty (not_le.2 hlt)
        · exact absurd hwhole hhit
        · exact absurd hwhole hagain
        · exact hreaches
      refine ⟨hends.2 hreaches, fun fuel progress' hok minute hminute hle hlt' hend => ?_⟩
      obtain ⟨hge, hbefore⟩ := hrange minute hminute hle hlt' hend
      exact fillBlocks_covered outside hname fuel 0 last progress progress' hsound hstop
        (fun later _ hle hlt => absurd hlt (not_lt.2 hle)) hok minute hminute hge hbefore

end

section Sample

attribute [local instance] Text.Unicode.ascii

/-- A call a day after minute 1001, whose clock has moved on when its blocks start. -/
def sampleOutside (drift : Nat) : Outside ℚ where
  clock :=
    { closedAt := 1001 * MINUTE_US + DAY_US
      hitAt := 1001 * MINUTE_US + DAY_US
      hitAgainAt := 1001 * MINUTE_US + DAY_US
      blockAt := fun _ => 1001 * MINUTE_US + DAY_US + drift
      scanAt := fun _ => 1001 * MINUTE_US + DAY_US + drift
      savedAt := fun _ _ _ => 1001 * MINUTE_US + DAY_US + drift
      closed_le := le_refl _
      hit_le := le_refl _
      again_le := by omega
      block_le := fun _ => le_refl _
      scan_le := fun _ _ _ => le_refl _
      saved_le := fun _ _ _ => le_refl _ }
  fetchPage _ _ := .ok []

theorem sample_closedRange (drift : Nat) : closedRange ⟨true, 1⟩ "BTCUSDT" (1001 * MINUTE_US)
    (1002 * MINUTE_US) (sampleOutside drift).clock.closedAt =
      .ok (1001 * MINUTE_US, 1002 * MINUTE_US) := by
  show closedRange ⟨true, 1⟩ "BTCUSDT" (1001 * MINUTE_US) (1002 * MINUTE_US)
    (1001 * MINUTE_US + DAY_US) = _
  decide +kernel

theorem ensureRange_endsCovered_sample : EndsCovered (sampleOutside 0)
    (.fromDb ⟨true, 1⟩ sampleDatabase) "BTCUSDT" (1001 * MINUTE_US) (1002 * MINUTE_US) :=
  (ensureRange_endsCovered_iff (KlineStore.coherent_fromDb _ _) (sample_closedRange 0)).2
    (Or.inr (Or.inr (Or.inr (Or.inl (by decide)))))

/-- A microsecond after the request was accepted at the edge of retention, its one minute is
behind the cutoff, and the loop goes on for ever. -/
theorem ensureRange_neverEnds : ¬ ∀ (outside : Outside ℚ) (store : KlineStore ℚ) (name : String)
    (start stop first last : Int), store.Coherent →
      closedRange store.config name start stop outside.clock.closedAt = .ok (first, last) →
      EndsCovered outside store name start stop := by
  intro h
  have hcoherent := KlineStore.coherent_fromDb (F := ℚ) ⟨true, 1⟩ sampleDatabase
  obtain ⟨⟨fuel, run, hrun⟩, -⟩ := h (sampleOutside 1) (.fromDb ⟨true, 1⟩ sampleDatabase) "BTCUSDT"
    (1001 * MINUTE_US) (1002 * MINUTE_US) _ _ hcoherent (sample_closedRange 1)
  obtain ⟨bytes, hname, -⟩ := exists_ok_of_any
    (by decide +kernel : (prefixBytes "BTCUSDT").toOption.any (fun _ => true) = true)
  have heq : ensureRange fuel (sampleOutside 1) (.fromDb ⟨true, 1⟩ sampleDatabase) "BTCUSDT"
      (1001 * MINUTE_US) (1002 * MINUTE_US) =
        ensureClosed fuel (sampleOutside 1) (.fromDb ⟨true, 1⟩ sampleDatabase) "BTCUSDT"
          (1001 * MINUTE_US) (1002 * MINUTE_US) := by
    unfold ensureRange
    have hclosed := sample_closedRange 1
    rw [show (KlineStore.fromDb ⟨true, 1⟩ sampleDatabase).config = ⟨true, 1⟩ from rfl, hclosed]
  rw [heq] at hrun
  rcases ensureClosed_spec (sampleOutside 1) hcoherent hname (1001 * MINUTE_US)
      (Dvd.intro_left 1002 rfl : MINUTE_US ∣ 1002 * MINUTE_US) with
    ⟨progress, hhit, -⟩ | ⟨progress, -, hsound, -, hblocks⟩
  · revert hhit
    unfold Whole
    decide +kernel
  · rw [hblocks fuel, not_ends_of_stuck hname fuel 0 _ progress hsound (Dvd.intro_left 1002 rfl)
      (by decide) (by decide)] at hrun
    cases hrun

end Sample

end CtaManager.Candles
