import CtaManager.Nav.Attribution

/-!
The strategy rows of a market against its account row.

In every state of an exact run the named rows and the residual row of a linear
market come to the account row: counts, volumes, fee, value before and after the
fee at any mark, and net quantity (`strategyRows_add_up`).
-/

namespace CtaManager

open Check

namespace TimelineSourceState

/-! ## Rows -/

/-- The state valued at one more mark. -/
def withMark (s : TimelineSourceState ℚ) (market : Market) (mark : ℚ) : TimelineSourceState ℚ :=
  { s with latestMarks := s.latestMarks.insert market mark }

def accountRow (s : TimelineSourceState ℚ) (market : Market) : NavTotals ℚ :=
  (s.states[market]?).elim NavTotals.zero fun state => (s.accountReport market state).totals

/-- The named strategies of a market, added up. -/
def namedRow (s : TimelineSourceState ℚ) (market : Market) : NavTotals ℚ :=
  OrdMap.sumOf (fun key state =>
    if key.market = market then (s.accountReport market state).totals else 0) s.strategyStates

def residualRow (s : TimelineSourceState ℚ) (market : Market) : NavTotals ℚ :=
  if s.strategyAllocationActive then s.residualTotals market else NavTotals.zero

def accountQuantity (s : TimelineSourceState ℚ) (market : Market) : ℚ :=
  (s.states[market]?).elim 0 fun state => state.fifo.netQuantity

/-- What the strategies hold, the residual included when it is a row. -/
def strategyQuantity (s : TimelineSourceState ℚ) (market : Market) : ℚ :=
  OrdMap.sumOf (fun key state => if key.market = market then state.fifo.netQuantity else 0)
      s.strategyStates +
    if s.strategyAllocationActive then s.allocationQuantity UNALLOCATED_STRATEGY market else 0

/-- The rows of a market come to its account. -/
structure RowsAddUp (s : TimelineSourceState ℚ) (market : Market) : Prop where
  /-- No counter of the residual stops at zero. -/
  unclipped : (s.namedRow market).CountsLe (s.accountRow market)
  fillCount : (s.namedRow market + s.residualRow market).fillCount =
    (s.accountRow market).fillCount
  makerFillCount : (s.namedRow market + s.residualRow market).makerFillCount =
    (s.accountRow market).makerFillCount
  takerFillCount : (s.namedRow market + s.residualRow market).takerFillCount =
    (s.accountRow market).takerFillCount
  unknownFillCount : (s.namedRow market + s.residualRow market).unknownLiquidityFillCount =
    (s.accountRow market).unknownLiquidityFillCount
  volume : (s.namedRow market + s.residualRow market).volumeQuote =
    (s.accountRow market).volumeQuote
  makerVolume : (s.namedRow market + s.residualRow market).makerVolumeQuote =
    (s.accountRow market).makerVolumeQuote
  takerVolume : (s.namedRow market + s.residualRow market).takerVolumeQuote =
    (s.accountRow market).takerVolumeQuote
  unknownVolume : (s.namedRow market + s.residualRow market).unknownLiquidityVolumeQuote =
    (s.accountRow market).unknownLiquidityVolumeQuote
  fee : (s.namedRow market + s.residualRow market).estimatedTradingFeeQuote =
    (s.accountRow market).estimatedTradingFeeQuote
  navBeforeFee : (s.namedRow market + s.residualRow market).navChangeBeforeFeeQuote =
    (s.accountRow market).navChangeBeforeFeeQuote
  navAfterFee : (s.namedRow market + s.residualRow market).navChangeAfterFeeQuote =
    (s.accountRow market).navChangeAfterFeeQuote
  quantity : s.strategyQuantity market = s.accountQuantity market

/-! ## Fields of a row -/

/-- A field of the rows of one market, read off its ledgers. -/
theorem field_rows (f : NavTotals ℚ →+ ℚ) (μ : Measure) (s : TimelineSourceState ℚ)
    (market : Market) (hof : ∀ state, f (s.accountReport market state).totals = μ.of state) :
    f (s.namedRow market) = ownerShare μ market s.strategyStates ∧
      f (s.accountRow market) = accountShare μ market s.states := by
  constructor
  · unfold namedRow ownerShare OrdMap.sumOf
    rw [map_list_sum, List.map_map]
    refine congrArg List.sum (List.map_congr_left fun q _ => ?_)
    show f (if q.1.market = market then _ else 0) = if q.1.market = market then μ.of q.2 else 0
    split
    · exact hof q.2
    · exact map_zero f
  · unfold accountRow accountShare
    cases s.states[market]? with
    | none => exact map_zero f
    | some state => exact hof state

/-- The totals the residual is taken from are the named rows. -/
theorem attributedTotals_eq (s : TimelineSourceState ℚ) (market : Market) :
    (s.attributedTotals[market]?).getD NavTotals.zero = s.namedRow market := by
  have h := OrdMap.getD_accumulate (fun p : StrategyMarket × VenueState ℚ => p.1.market)
    (fun p => (s.accountReport p.1.market p.2).totals) s.strategyStates.toList ∅ market
  rw [Std.ExtTreeMap.getElem?_empty, Option.getD_none, zero_add] at h
  refine h.trans (congrArg List.sum (List.map_congr_left fun q _ => ?_))
  by_cases hm : q.1.market = market
  · simp only [hm]
  · simp only [if_neg hm]

/-! ## The rows of a run -/

section Rows

variable {p : PreparedSourceEvents ℚ} {s : TimelineSourceState ℚ}

theorem RunInv.withMark (hs : RunInv p s) (market : Market) (mark : ℚ) :
    RunInv p (s.withMark market mark) :=
  ⟨hs.active_eq, hs.allocations_eq, hs.pending, hs.accounts, hs.owners, hs.balanced, hs.covered⟩

theorem countsLe_rows (hs : RunInv p s) (market : Market)
    (hlinear : isInverseVenue market.venueCode = false) :
    (s.namedRow market).CountsLe (s.accountRow market) := by
  have hcount : ∀ (field : NavTotals ℚ →+ ℕ) (μ : Measure), Counting μ →
      (∀ state, (field (s.accountReport market state).totals : ℚ) = μ.of state) →
      field (s.namedRow market) ≤ field (s.accountRow market) := by
    intro field μ hμ hof
    obtain ⟨hnamed, haccount⟩ := field_rows ((Nat.castAddMonoidHom ℚ).comp field) μ s market hof
    have hle : (field (s.namedRow market) : ℚ) ≤ field (s.accountRow market) := by
      have := hs.covered μ hμ market hlinear
      rwa [← hnamed, ← haccount] at this
    exact_mod_cast hle
  exact
    { fills := hcount ⟨⟨NavTotals.fillCount, rfl⟩, fun _ _ => rfl⟩ Measure.fillCount
        counting_fillCount fun _ => rfl
      maker := hcount ⟨⟨NavTotals.makerFillCount, rfl⟩, fun _ _ => rfl⟩ Measure.makerCount
        counting_makerCount fun _ => rfl
      taker := hcount ⟨⟨NavTotals.takerFillCount, rfl⟩, fun _ _ => rfl⟩ Measure.takerCount
        counting_takerCount fun _ => rfl
      unknown := hcount ⟨⟨NavTotals.unknownLiquidityFillCount, rfl⟩, fun _ _ => rfl⟩
        Measure.unknownCount counting_unknownCount fun _ => rfl }

/-- A field of the rows of one market adds up, if a measure reads it. -/
theorem field_rows_add_up (hs : RunInv p s) (market : Market)
    (hlinear : isInverseVenue market.venueCode = false) (f : NavTotals ℚ →+ ℚ) (μ : Measure)
    (hof : ∀ state, f (s.accountReport market state).totals = μ.of state) :
    f (s.namedRow market + s.residualRow market) = f (s.accountRow market) := by
  obtain ⟨hnamed, haccount⟩ := field_rows f μ s market hof
  unfold residualRow
  by_cases hactive : s.strategyAllocationActive = true
  · -- with an anchor the residual is the difference, and no counter of it is clipped
    rw [if_pos hactive]
    unfold residualTotals
    rw [attributedTotals_eq]
    show f (s.namedRow market + (s.accountRow market).difference (s.namedRow market)) = _
    rw [NavTotals.add_difference_of_countsLe (countsLe_rows hs market hlinear)]
  · rw [if_neg hactive]
    have hinactive : p.strategyAllocationActive = false := by
      rw [← hs.active_eq]
      simpa using hactive
    show f (s.namedRow market + 0) = _
    rw [add_zero, hnamed, haccount]
    exact hs.balanced hinactive μ market hlinear

theorem strategyQuantity_eq (hs : RunInv p s) (market : Market)
    (hlinear : isInverseVenue market.venueCode = false) :
    s.strategyQuantity market = s.accountQuantity market := by
  unfold strategyQuantity
  by_cases hactive : s.strategyAllocationActive = true
  · rw [if_pos hactive]
    unfold allocationQuantity
    rw [if_pos (by decide), Exact.sum_eq]
    have hnamed : OrdMap.sumOf (fun (key : StrategyMarket) (state : VenueState ℚ) =>
        if key.market = market then state.fifo.netQuantity else 0) s.strategyStates =
        ((s.strategyStates.toList.filter fun p => p.1.market == market).map fun p =>
          p.2.fifo.netQuantity).sum := by
      unfold OrdMap.sumOf
      rw [List.sum_map_ite (fun q : StrategyMarket × VenueState ℚ => q.1.market = market)
        (fun q => q.2.fifo.netQuantity) (fun _ => 0), List.map_const', List.sum_replicate,
        nsmul_zero, add_zero]
      rfl
    rw [hnamed]
    show _ + (s.accountQuantity market - _) = _
    ring
  · rw [if_neg hactive, add_zero]
    have hinactive : p.strategyAllocationActive = false := by
      rw [← hs.active_eq]
      simpa using hactive
    exact hs.balanced hinactive Measure.netQuantity market hlinear

theorem rowsAddUp_of_runInv (hs : RunInv p s) (market : Market)
    (hlinear : isInverseVenue market.venueCode = false) (mark : ℚ) :
    (s.withMark market mark).RowsAddUp market := by
  have ht := hs.withMark market mark
  have hfield := field_rows_add_up ht market hlinear
  have hmark : (s.withMark market mark).latestMarks[market]? = some mark := by
    simp [TimelineSourceState.withMark]
  have hcount : ∀ (field : NavTotals ℚ →+ ℕ) (μ : Measure),
      (∀ state, (field ((s.withMark market mark).accountReport market state).totals : ℚ) =
        μ.of state) →
      field ((s.withMark market mark).namedRow market + (s.withMark market mark).residualRow market) =
        field ((s.withMark market mark).accountRow market) := by
    intro field μ hof
    have heq : (field ((s.withMark market mark).namedRow market +
        (s.withMark market mark).residualRow market) : ℚ) =
        field ((s.withMark market mark).accountRow market) :=
      hfield ((Nat.castAddMonoidHom ℚ).comp field) μ hof
    exact_mod_cast heq
  constructor
  · exact countsLe_rows ht market hlinear
  · exact hcount ⟨⟨NavTotals.fillCount, rfl⟩, fun _ _ => rfl⟩ Measure.fillCount fun _ => rfl
  · exact hcount ⟨⟨NavTotals.makerFillCount, rfl⟩, fun _ _ => rfl⟩ Measure.makerCount fun _ => rfl
  · exact hcount ⟨⟨NavTotals.takerFillCount, rfl⟩, fun _ _ => rfl⟩ Measure.takerCount fun _ => rfl
  · exact hcount ⟨⟨NavTotals.unknownLiquidityFillCount, rfl⟩, fun _ _ => rfl⟩
      Measure.unknownCount fun _ => rfl
  · exact hfield ⟨⟨NavTotals.volumeQuote, rfl⟩, fun _ _ => rfl⟩ Measure.volume
      fun _ => Exact.cleanZero_eq _
  · exact hfield ⟨⟨NavTotals.makerVolumeQuote, rfl⟩, fun _ _ => rfl⟩ Measure.makerVolume
      fun _ => Exact.cleanZero_eq _
  · exact hfield ⟨⟨NavTotals.takerVolumeQuote, rfl⟩, fun _ _ => rfl⟩ Measure.takerVolume
      fun _ => Exact.cleanZero_eq _
  · exact hfield ⟨⟨NavTotals.unknownLiquidityVolumeQuote, rfl⟩, fun _ _ => rfl⟩
      Measure.unknownVolume fun _ => Exact.cleanZero_eq _
  · exact hfield ⟨⟨NavTotals.estimatedTradingFeeQuote, rfl⟩, fun _ _ => rfl⟩ Measure.fee
      fun _ => Exact.cleanZero_eq _
  · refine hfield ⟨⟨NavTotals.navChangeBeforeFeeQuote, rfl⟩, fun _ _ => rfl⟩ (Measure.value mark)
      fun state => ?_
    show (state.report (s.withMark market mark).latestMarks[market]?).totals.navChangeBeforeFeeQuote
      = _
    rw [hmark]
    exact Exact.cleanZero_eq _
  · refine hfield ⟨⟨NavTotals.navChangeAfterFeeQuote, rfl⟩, fun _ _ => rfl⟩
      ((Measure.value mark).sub Measure.fee) fun state => ?_
    show (state.report (s.withMark market mark).latestMarks[market]?).totals.navChangeAfterFeeQuote
      = _
    rw [hmark]
    exact Exact.cleanZero_eq _
  · exact strategyQuantity_eq ht market hlinear

end Rows

end TimelineSourceState

open TimelineSourceState

/-- At every moment of a run whose corrections match exactly, and at every mark,
the strategy rows of a linear market add up to its account row.  Without an
anchor nothing but the strategies themselves holds the position, so there a
correction has to hand over exactly what it takes. -/
theorem strategyRows_add_up [Fingerprint ℚ] {source : SourceConfig ℚ} {events : List (NavEvent ℚ)}
    {snapshot : Option (PositionSnapshot ℚ)}
    {strategySnapshot : Option (StrategyPositionSnapshot ℚ)} {roles : LiquidityByOrder}
    {allocations : List (AllocationSnapshot ℚ)} {p : PreparedSourceEvents ℚ}
    (hprepare : prepareSourceEvents source events snapshot strategySnapshot roles allocations = .ok p)
    {initial s : TimelineSourceState ℚ} (hinitial : initialTimelineState source p = .ok initial)
    (hrun : ExactRun initial s)
    (hbalanced : p.strategyAllocationActive = false → ∀ a ∈ p.allocations, BalancedLegs a.positions)
    (market : Market) (hlinear : isInverseVenue market.venueCode = false) (mark : ℚ) :
    (s.withMark market mark).RowsAddUp market :=
  rowsAddUp_of_runInv (hrun.runInv (opened_of_prepareSourceEvents hprepare) hbalanced
    (runInv_initial hinitial)) market hlinear mark

/-! ## Handovers that add up, and one that does not -/

namespace Sample

def btcusdt : Market := ⟨"BTCUSDT", 1⟩

/-- `alpha` hands its coin to `beta`, plus `excess`. -/
def takeover (excess : ℚ) : AllocationSnapshot ℚ :=
  { sourceId := "trade01", snapshotTsUs := 2000
    positions := [⟨"alpha", "BTCUSDT", 1, 1, 0, 1⟩, ⟨"beta", "BTCUSDT", 1, 0, 1 + excess, 1⟩]
    restatements := [] }

def takeoverFill : NavEvent ℚ := fill "1" 1000 "alpha" "BTCUSDT" 1 1 1

/-- Two coins of `alpha` and one of the residual before the fill. -/
def opening : StrategyPositionSnapshot ℚ :=
  { sourceId := "trade01", snapshotTsUs := 500
    positions := [⟨"alpha", "BTCUSDT", 1, 2, 1⟩, ⟨UNALLOCATED_STRATEGY, "BTCUSDT", 1, 1, 1⟩] }

/-- `alpha` hands one coin to `beta` and one to the residual. -/
def partialTakeover : AllocationSnapshot ℚ :=
  { sourceId := "trade01", snapshotTsUs := 2000
    positions := [⟨"alpha", "BTCUSDT", 1, 3, 1, 1⟩, ⟨"beta", "BTCUSDT", 1, 0, 1, 1⟩,
      ⟨UNALLOCATED_STRATEGY, "BTCUSDT", 1, 1, 2, 1⟩]
    restatements := [] }

def prepareCorrection (anchor : Option (StrategyPositionSnapshot ℚ)) (a : AllocationSnapshot ℚ) :
    Except NavError (PreparedSourceEvents ℚ) :=
  @prepareSourceEvents ℚ _ noFingerprint source [takeoverFill] none anchor ∅ [a]

/-- The run of a correction: its preparation, its first state, the state after the
fill and the state after the correction. -/
structure TakeoverRun where
  prepared : PreparedSourceEvents ℚ
  initial : TimelineSourceState ℚ
  filled : TimelineSourceState ℚ
  moved : TimelineSourceState ℚ

def correctionRun (anchor : Option (StrategyPositionSnapshot ℚ)) (a : AllocationSnapshot ℚ) :
    Except NavError TakeoverRun := do
  let prepared ← prepareCorrection anchor a
  let initial ← initialTimelineState source prepared
  let filled ← initial.applyFill (preparedFill ∅ takeoverFill .buy)
  let moved ← filled.advanceAllocations 3000 true
  return { prepared, initial, filled, moved }

def takeoverRun (excess : ℚ) : Except NavError TakeoverRun := correctionRun none (takeover excess)

/-- The correction becomes due after the fill, and its quantities match. -/
def TakeoverRun.isExact (run : TakeoverRun) (a : AllocationSnapshot ℚ) : Bool :=
  correctionsBefore 1000 (run.initial.allocations.drop run.initial.nextAllocation) = [] &&
    correctionsBefore 3001 (run.filled.allocations.drop run.filled.nextAllocation) = [a] &&
    a.positions.all fun p =>
      (run.filled.activateSnapshotAt a.snapshotTsUs).allocationQuantity p.strategy p.market ==
        p.beforeQty

theorem exactRun_correction {anchor : Option (StrategyPositionSnapshot ℚ)}
    {a : AllocationSnapshot ℚ} {run : TakeoverRun} (h : correctionRun anchor a = .ok run)
    (hexact : run.isExact a = true) :
    prepareCorrection anchor a = .ok run.prepared ∧
      initialTimelineState source run.prepared = .ok run.initial ∧
      ExactRun run.initial run.moved := by
  unfold correctionRun at h
  obtain ⟨prepared, hprepared, h⟩ := bind_eq_ok.1 h
  obtain ⟨initial, hinitial, h⟩ := bind_eq_ok.1 h
  obtain ⟨filled, hfilled, h⟩ := bind_eq_ok.1 h
  obtain ⟨moved, hmoved, h⟩ := bind_eq_ok.1 h
  cases h
  unfold TakeoverRun.isExact at hexact
  rw [Bool.and_eq_true, Bool.and_eq_true, decide_eq_true_eq, decide_eq_true_eq,
    List.all_eq_true] at hexact
  obtain ⟨⟨hbefore, hdue⟩, hquantities⟩ := hexact
  refine ⟨hprepared, hinitial, ?_⟩
  refine .advance 3000 true (.fill _ .start ?_ hfilled) ?_ hmoved
  · show ExactFrom (correctionsBefore 1000 _) _
    rw [hbefore]
    exact trivial
  · show ExactFrom (correctionsBefore 3001 _) _
    rw [hdue]
    exact ⟨fun p hp => beq_iff_eq.1 (hquantities p hp), fun _ _ => trivial⟩

theorem balancedLegs_takeover : BalancedLegs (takeover 0).positions := by
  intro market
  have hmarket : ∀ p ∈ (takeover 0).positions, p.market = btcusdt ∧ p.referencePrice = 1 := by
    decide +kernel
  constructor
  · by_cases h : btcusdt = market
    · subst h
      decide +kernel
    · rw [List.filter_eq_nil_iff.2 fun p hp => by simpa [(hmarket p hp).1] using h]
      rfl
  · intro p hp q hq _ _
    rw [(hmarket p hp).2, (hmarket q hq).2]

end Sample

/-- Without an anchor, and with one that leaves a residual. -/
theorem strategyRows_add_up_sample :
    (∃ run, Sample.takeoverRun 0 = .ok run ∧
      (run.moved.withMark Sample.btcusdt 3).RowsAddUp Sample.btcusdt ∧
      (run.moved.accountRow Sample.btcusdt).fillCount = 1) ∧
    ∃ run, Sample.correctionRun (some Sample.opening) Sample.partialTakeover = .ok run ∧
      (run.moved.withMark Sample.btcusdt 3).RowsAddUp Sample.btcusdt ∧
      run.moved.accountQuantity Sample.btcusdt = 4 ∧
      run.moved.allocationQuantity UNALLOCATED_STRATEGY Sample.btcusdt = 2 := by
  constructor
  · obtain ⟨run, hrun, hexact⟩ := exists_ok_of_any (x := Sample.takeoverRun 0)
      (P := fun run => run.isExact (Sample.takeover 0) &&
        (run.moved.accountRow Sample.btcusdt).fillCount == 1 &&
        run.prepared.allocations == [Sample.takeover 0]) (by decide +kernel)
    rw [Bool.and_eq_true, Bool.and_eq_true, beq_iff_eq, beq_iff_eq] at hexact
    obtain ⟨⟨hexact, hcount⟩, hallocations⟩ := hexact
    obtain ⟨hprepare, hinitial, hrun'⟩ := Sample.exactRun_correction hrun hexact
    refine ⟨run, hrun, ?_, hcount⟩
    refine @strategyRows_add_up Sample.noFingerprint Sample.source [Sample.takeoverFill] none none
      ∅ [Sample.takeover 0] run.prepared hprepare run.initial run.moved hinitial hrun' ?_
      Sample.btcusdt rfl 3
    intro _ a ha
    rw [hallocations] at ha
    rw [List.mem_singleton.1 ha]
    exact Sample.balancedLegs_takeover
  · obtain ⟨run, hrun, hexact⟩ := exists_ok_of_any
      (x := Sample.correctionRun (some Sample.opening) Sample.partialTakeover)
      (P := fun run => run.isExact Sample.partialTakeover && run.prepared.strategyAllocationActive &&
        run.moved.accountQuantity Sample.btcusdt == 4 &&
        run.moved.allocationQuantity UNALLOCATED_STRATEGY Sample.btcusdt == 2) (by decide +kernel)
    simp only [Bool.and_eq_true, beq_iff_eq] at hexact
    obtain ⟨⟨⟨hexact, hactive⟩, haccount⟩, hresidual⟩ := hexact
    obtain ⟨hprepare, hinitial, hrun'⟩ := Sample.exactRun_correction hrun hexact
    refine ⟨run, hrun, ?_, haccount, hresidual⟩
    refine @strategyRows_add_up Sample.noFingerprint Sample.source [Sample.takeoverFill] none
      (some Sample.opening) ∅ [Sample.partialTakeover] run.prepared hprepare run.initial run.moved
      hinitial hrun' ?_ Sample.btcusdt rfl 3
    intro hinactive
    rw [hactive] at hinactive
    cases hinactive

/-- A correction that hands over a little more than it takes passes the checks,
and the rows of the market no longer add up. -/
theorem strategyRows_uneven_takeover :
    ∃ run, Sample.takeoverRun (1 / 10000000) = .ok run ∧
      @prepareSourceEvents ℚ _ Sample.noFingerprint Sample.source [Sample.takeoverFill] none none ∅
        [Sample.takeover (1 / 10000000)] = .ok run.prepared ∧
      initialTimelineState Sample.source run.prepared = .ok run.initial ∧
      ExactRun run.initial run.moved ∧ isInverseVenue Sample.btcusdt.venueCode = false ∧
      ¬ (run.moved.withMark Sample.btcusdt 3).RowsAddUp Sample.btcusdt := by
  obtain ⟨run, hrun, hexact⟩ := exists_ok_of_any (x := Sample.takeoverRun (1 / 10000000))
    (P := fun run => run.isExact (Sample.takeover (1 / 10000000)) &&
      !((run.moved.withMark Sample.btcusdt 3).strategyQuantity Sample.btcusdt ==
        (run.moved.withMark Sample.btcusdt 3).accountQuantity Sample.btcusdt)) (by decide +kernel)
  rw [Bool.and_eq_true] at hexact
  obtain ⟨hexact, hquantity⟩ := hexact
  obtain ⟨hprepare, hinitial, hrun'⟩ := Sample.exactRun_correction hrun hexact
  refine ⟨run, hrun, hprepare, hinitial, hrun', rfl, fun hrows => ?_⟩
  rw [hrows.quantity] at hquantity
  simp at hquantity

end CtaManager
