import CtaManager.Nav.AccountRows
import CtaManager.Nav.CheckpointQuery

/-!
Corrections do not reach the account of a timeline.

A request is answered with and without the stored corrections.  Source by source
the two collect the same events (`SourcesFrame`), so both replays start alike and
the account rows agree; only the symbols differ that nothing but a correction
names (`rebuildNavTimeline_withoutCorrections`).
-/

namespace CtaManager

open Check StableSort PartitionPoint

variable {F : Type} [F64 F]

/-- The histories without their stored corrections. -/
def withoutCorrections {F : Type} (histories : NavSourceHistories F) : NavSourceHistories F :=
  histories.map fun _ history => { history with allocations := [] }

/-! ## Sources -/

omit [F64 F] in
/-- More events of other sources, and more symbols. -/
theorem RuntimeInv.grow {endTsUs : Int} {symbols symbols' : OrdSet String}
    {rest rest' : List (TimelineEvent F)} {i : Nat} {s : TimelineSourceState F}
    (h : RuntimeInv endTsUs symbols rest i s) (hsub : ∀ event ∈ rest, event ∈ rest')
    (hown : ∀ event ∈ rest', event.sourceIndex = i → event ∈ rest)
    (hsymbols : ∀ symbol ∈ symbols, symbol ∈ symbols') :
    RuntimeInv endTsUs symbols' rest' i s := by
  refine ⟨?_, fun id fill hfill => h.fillsAfter id fill (hown _ hfill rfl),
    fun market state hstate => hsymbols _ (h.held market state hstate),
    fun states hstates hts market state hstate =>
      hsymbols _ (h.pendingHeld states hstates hts market state hstate),
    fun id fill hfill => hsymbols _ (h.fillsHeld id fill (hown _ hfill rfl))⟩
  rcases h.awaits with hnone | hawaits
  · exact Or.inl hnone
  · refine Or.inr fun ts hts => ?_
    rcases hawaits ts hts with hlate | ⟨id, hid⟩
    · exact Or.inl hlate
    · exact Or.inr ⟨id, hsub _ hid⟩

/-- What the selected sources contribute with corrections (`u`) and without (`u'`). -/
structure SourcesFrame (endTsUs : Int) (u u' : TimelineSources F) : Prop where
  frame : AccountFrame endTsUs u'.availableSymbols u.events u.runtimes u'.runtimes
  events : u'.events = u.events
  anchors : u'.anchors = u.anchors
  symbols : ∀ symbol ∈ u'.availableSymbols, symbol ∈ u.availableSymbols
  indexes : ∀ event ∈ u.events, event.sourceIndex < u.runtimes.length

theorem SourcesFrame.empty (endTsUs : Int) : SourcesFrame endTsUs
    ({ runtimes := [], events := [], availableSymbols := ∅, availableStrategies := ∅,
       anchors := [] } : TimelineSources F)
    { runtimes := [], events := [], availableSymbols := ∅, availableStrategies := ∅,
      anchors := [] } where
  frame := ⟨List.Forall₂.nil, fun i runtime h => by simp at h, fun event h =>
    absurd h List.not_mem_nil⟩
  events := rfl
  anchors := rfl
  symbols := fun _ h => h
  indexes := fun event h => absurd h List.not_mem_nil

/-- One more source on both sides. -/
theorem SourcesFrame.add {request : NavTimelineRequest} {u u' : TimelineSources F}
    (h : SourcesFrame request.endTsUs u u') (id : String) {p : PreparedSourceEvents F}
    {source : SourceConfig F} (horder : FillsInOrder p) {s s' : TimelineSourceState F}
    (hs : initialTimelineState source p = .ok s) (hunc : s.Uncorrected s') :
    SourcesFrame request.endTsUs
      (u.add request id p s (windowFills p.fillEvents 0 request.endTsUs) [] [])
      (u'.add request id p.uncorrected s' (windowFills p.fillEvents 0 request.endTsUs) [] []) := by
  have hwindow : windowFills p.fillEvents 0 request.endTsUs =
      p.fillEvents.filter fun fill => decide (fill.fillTsUs ≤ request.endTsUs) :=
    windowFills_eq_filter [] p.fillEvents request.endTsUs horder.sorted
  have hlen : u'.runtimes.length = u.runtimes.length := h.frame.uncorrected.length_eq.symm
  rw [hwindow]
  set fills := p.fillEvents.filter fun fill => decide (fill.fillTsUs ≤ request.endTsUs) with hfills
  have hnew : ∀ event ∈ sourceEvents u.runtimes.length id (openingSnapshot p request.endTsUs) fills,
      event.sourceIndex = u.runtimes.length := fun event hevent => sourceIndex_of_mem hevent
  have hsymbols : ∀ symbol, symbol ∈ (u'.add request id p.uncorrected s' fills [] []).availableSymbols ↔
      symbol ∈ u'.availableSymbols ∨ symbol ∈ openingSymbols p request.endTsUs ∨
        ∃ fill ∈ fills, fill.event.symbol = symbol := by
    intro symbol
    show symbol ∈ insertAll u'.availableSymbols (openingSymbols p request.endTsUs ++ [] ++ [] ++
      fills.map fun fill => fill.event.symbol) ↔ _
    rw [mem_insertAll]
    simp only [List.append_nil, List.mem_append, List.mem_map]
  have hfield : s.snapshotTsUs = p.snapshotTsUs ∧ s.states = ∅ ∧
      s.pendingInitialStates = p.snapshotTsUs.map (fun _ => p.initialStates) ∧
      s.pendingInitialStrategyStates = p.snapshotTsUs.map fun _ => p.initialStrategyStates := by
    unfold initialTimelineState at hs
    obtain ⟨feeRates, -, hs⟩ := bind_eq_ok.1 hs
    cases hs
    exact ⟨rfl, rfl, rfl, rfl⟩
  obtain ⟨hsnap, hstates, hpending, hpendingStrategies⟩ := hfield
  refine ⟨⟨?_, ?_, ?_⟩, ?_, ?_, ?_, ?_⟩
  · -- the states
    show List.Forall₂ _ (u.runtimes ++ [s]) (u'.runtimes ++ [s'])
    exact List.rel_append h.frame.uncorrected (List.Forall₂.cons hunc List.Forall₂.nil)
  · intro i runtime hi
    rcases Nat.lt_trichotomy i u.runtimes.length with hlt | heq | hgt
    · -- an old source has no new events
      replace hi : (u.runtimes ++ [s])[i]? = some runtime := hi
      rw [List.getElem?_append_left hlt] at hi
      refine (h.frame.inv i runtime hi).grow (fun event hevent => List.mem_append_left _ hevent)
        (fun event hevent hidx => ?_) fun symbol hsymbol => (hsymbols symbol).2 (Or.inl hsymbol)
      rcases List.mem_append.1 hevent with hold | hevent
      · exact hold
      · have := hnew event hevent
        omega
    · -- the new source
      subst heq
      replace hi : (u.runtimes ++ [s])[u.runtimes.length]? = some runtime := hi
      rw [List.getElem?_append_right le_rfl, Nat.sub_self] at hi
      obtain rfl : s = runtime := by simpa using hi
      have hown : ∀ event, event ∈ u.events ++ sourceEvents u.runtimes.length id
          (openingSnapshot p request.endTsUs) fills → event.sourceIndex = u.runtimes.length →
          event ∈ sourceEvents u.runtimes.length id (openingSnapshot p request.endTsUs) fills := by
        intro event hevent hidx
        rcases List.mem_append.1 hevent with hold | hevent
        · have := h.indexes event hold
          omega
        · exact hevent
      have hfill : ∀ id' fill, TimelineEvent.fill u.runtimes.length id' fill ∈ u.events ++
          sourceEvents u.runtimes.length id (openingSnapshot p request.endTsUs) fills →
          fill ∈ fills := by
        intro id' fill hmem
        rcases List.mem_append.1 (hown _ hmem rfl) with hmem | hmem
        · obtain ⟨ts, -, heq⟩ := List.mem_map.1 hmem
          cases heq
        · obtain ⟨fill', hfill', heq⟩ := List.mem_map.1 hmem
          cases heq
          exact hfill'
      refine ⟨?_, fun id' fill hmem ts hts => ?_, fun market state hstate => ?_,
        fun states hstates' hts market state hstate => ?_, fun id' fill hmem => ?_⟩
      · rw [hpending, hpendingStrategies, hsnap]
        cases hts : p.snapshotTsUs with
        | none => exact Or.inl ⟨rfl, rfl⟩
        | some ts =>
          refine Or.inr fun ts' hts' => ?_
          obtain rfl := Option.some.inj hts'
          by_cases hle : ts ≤ request.endTsUs
          · refine Or.inr ⟨id, List.mem_append_right _ (List.mem_append_left _ ?_)⟩
            refine List.mem_map.2 ⟨ts, ?_, rfl⟩
            unfold openingSnapshot
            rw [hts, Option.filter_some, if_pos (by simpa using hle)]
            exact List.mem_singleton_self ts
          · exact Or.inl (by omega)
      · rw [hsnap] at hts
        exact (horder.after fill (List.mem_of_mem_filter (hfill id' fill hmem)) ts hts).le
      · rw [hstates] at hstate
        simp at hstate
      · obtain ⟨ts, hts, hle⟩ := hts
        rw [hsnap] at hts
        rw [hpending, hts] at hstates'
        obtain rfl := Option.some.inj hstates'
        refine (hsymbols _).2 (Or.inr (Or.inl ?_))
        unfold openingSymbols openingSnapshot
        rw [hts, Option.filter_some, if_pos (by simpa using hle)]
        exact List.mem_append_left _ (List.mem_map.2 ⟨(market, state), OrdMap.mem_toList.2 hstate,
          rfl⟩)
      · exact (hsymbols _).2 (Or.inr (Or.inr ⟨fill, hfill id' fill hmem, rfl⟩))
    · replace hi : (u.runtimes ++ [s])[i]? = some runtime := hi
      rw [List.getElem?_eq_none (by simp; omega)] at hi
      cases hi
  · intro event hevent
    rcases List.mem_append.1 hevent with hold | hevent
    · exact h.frame.inWindow event hold
    · rcases List.mem_append.1 hevent with hmem | hmem
      · obtain ⟨ts, hts, rfl⟩ := List.mem_map.1 hmem
        exact of_decide_eq_true (Option.filter_eq_some_iff.1 (Option.mem_toList.1 hts)).2
      · obtain ⟨fill, hfill, rfl⟩ := List.mem_map.1 hmem
        exact of_decide_eq_true (List.mem_filter.1 hfill).2
  · show u'.events ++ sourceEvents u'.runtimes.length id _ fills =
      u.events ++ sourceEvents u.runtimes.length id _ fills
    rw [h.events, hlen]
    rfl
  · show u'.anchors ++ _ = u.anchors ++ _
    rw [h.anchors]
    rfl
  · intro symbol hsymbol
    show symbol ∈ insertAll u.availableSymbols (openingSymbols p request.endTsUs ++
      (correctionsBy p request.endTsUs).map AllocationPosition.symbol ++ [] ++
      fills.map fun fill => fill.event.symbol)
    rw [mem_insertAll]
    simp only [List.append_nil, List.mem_append, List.mem_map]
    rcases (hsymbols symbol).1 hsymbol with hold | hopening | hfill
    · exact Or.inl (h.symbols symbol hold)
    · exact Or.inr (Or.inl (Or.inl hopening))
    · exact Or.inr (Or.inr hfill)
  · intro event hevent
    show event.sourceIndex < (u.runtimes ++ [s]).length
    rw [List.length_append, List.length_singleton]
    rcases List.mem_append.1 hevent with hold | hevent
    · have := h.indexes event hold
      omega
    · have := hnew event hevent
      omega

section Query

variable [Fingerprint F]

/-- A source that joins with its corrections joins without them. -/
theorem SourcesFrame.addSource {request : NavTimelineRequest}
    {snapshots : SourcePositionSnapshots F} {strategySnapshots : SourceStrategyPositionSnapshots F}
    {histories : NavSourceHistories F} {u u' v : TimelineSources F} {source : SourceConfig F}
    (h : SourcesFrame request.endTsUs u u')
    (hstep : addSource request snapshots strategySnapshots histories none u source = .ok v) :
    ∃ v', CtaManager.addSource request snapshots strategySnapshots (withoutCorrections histories)
        none u' source = .ok v' ∧ SourcesFrame request.endTsUs v v' := by
  unfold CtaManager.addSource at hstep ⊢
  obtain ⟨rates, hrates, hstep⟩ := bind_eq_ok.1 hstep
  rw [hrates, ok_bind]
  unfold withoutCorrections
  rw [Std.ExtTreeMap.getElem?_map]
  cases hhistory : histories[source.id]? with
  | none =>
    rw [hhistory] at hstep
    cases hstep
  | some history =>
    rw [hhistory] at hstep
    simp only [Option.bind_none, Option.map_none, Option.getD_none, Option.map_some,
      preparedFor] at hstep ⊢
    obtain ⟨p, hp, hstep⟩ := bind_eq_ok.1 hstep
    obtain ⟨s, hs, hstep⟩ := bind_eq_ok.1 hstep
    cases hstep
    obtain ⟨effective, hprepared⟩ := prepareSourceEvents_eq_ok.1 hp
    obtain ⟨s', hs', hunc⟩ := uncorrected_initialTimelineState hprepared.correctionsAfter hs
    rw [prepareSourceEvents_uncorrected hp, ok_bind, hs', ok_bind]
    exact ⟨_, rfl, h.add source.id hprepared.fillsInOrder hs hunc⟩

end Query

/-! ## The report -/

omit [F64 F] in
/-- The symbols that a request finds among fewer. -/
theorem selectTimelineSymbols_filter {s t : OrdSet String} (hsub : ∀ symbol ∈ t, symbol ∈ s)
    {requested selected : List String}
    (h : selectTimelineSymbols s.toList requested = .ok selected) :
    selectTimelineSymbols t.toList requested =
        .ok (selected.filter fun symbol => t.contains symbol) ∨
      selectTimelineSymbols t.toList requested = .error .noRequestedSymbol ∧
        selected.filter (fun symbol => t.contains symbol) = [] := by
  unfold selectTimelineSymbols at h ⊢
  dsimp only at h ⊢
  split at h
  · next hnone =>
    cases h
    rw [if_pos hnone, OrdMap.toList_filter_contains hsub]
    exact Or.inl rfl
  · next hsome =>
    rw [if_neg hsome]
    split at h
    · cases h
    · cases h
      have hfilter : ∀ l : List String, (l.filter fun symbol => s.toList.contains symbol).filter
          (fun symbol => t.contains symbol) = l.filter fun symbol => t.toList.contains symbol := by
        intro l
        rw [List.filter_filter]
        refine List.filter_congr fun symbol _ => ?_
        rw [Bool.eq_iff_iff, Bool.and_eq_true, List.contains_iff_mem, List.contains_iff_mem,
          Std.ExtTreeSet.mem_toList, Std.ExtTreeSet.mem_toList, Std.ExtTreeSet.contains_iff_mem]
        exact ⟨And.left, fun ht => ⟨ht, hsub symbol ht⟩⟩
      rw [hfilter]
      split
      · next hempty =>
        rw [Bool.and_eq_true, List.isEmpty_iff] at hempty
        exact Or.inr ⟨rfl, hempty.1⟩
      · exact Or.inl rfl

/-- Two reports, with the corrections and without them, of one account.  The symbols that only
corrections name are in the first alone. -/
structure SameAccount (report report' : NavTimelineReport F) : Prop where
  earliest : report'.earliestStartTsUs = report.earliestStartTsUs
  start : report'.startTsUs = report.startTsUs
  selected : report'.selectedSymbols =
    report.selectedSymbols.filter fun symbol => report'.availableSymbols.contains symbol
  summary : report'.summary = report.summary
  symbols : report'.symbols = report.symbols
  points : report'.points = report.points
  symbolPoints : report'.symbolPoints =
    report.symbolPoints.filter fun row => report'.availableSymbols.contains row.symbol

theorem AccountFrame.reorder {endTsUs : Int} {symbols : OrdSet String}
    {rest rest' : List (TimelineEvent F)} {runtimes runtimes' : List (TimelineSourceState F)}
    (h : AccountFrame endTsUs symbols rest runtimes runtimes')
    (hmem : ∀ event, event ∈ rest' ↔ event ∈ rest) :
    AccountFrame endTsUs symbols rest' runtimes runtimes' where
  uncorrected := h.uncorrected
  inv i runtime hi := (h.inv i runtime hi).weaken (fun event => (hmem event).1)
    fun _ _ => (hmem _).2
  inWindow event hevent := h.inWindow event ((hmem event).1 hevent)

theorem AccountFrame.startStates {endTsUs startTsUs : Int} {symbols : OrdSet String}
    {before rest : List (TimelineEvent F)} {runtimes runtimes' next : List (TimelineSourceState F)}
    (h : AccountFrame endTsUs symbols (before ++ rest) runtimes runtimes')
    (hstart : startTsUs ≤ endTsUs) (hrest : ∀ event ∈ rest, startTsUs ≤ event.tsUs)
    (hstep : CtaManager.startStates startTsUs before runtimes = .ok next) :
    ∃ next', CtaManager.startStates startTsUs before runtimes' = .ok next' ∧
      AccountFrame endTsUs symbols rest next next' := by
  unfold CtaManager.startStates at hstep ⊢
  dsimp only at hstep ⊢
  obtain ⟨applied, happlied, hstep⟩ := bind_eq_ok.1 hstep
  obtain ⟨applied', happlied', hframe⟩ := (h.activate hstart).events happlied
  rw [happlied', ok_bind]
  refine hframe.advance ?_ (fun event hevent => ?_) hstep
  · unfold TimelineSourceState.cutoffOf
    simp only [Bool.false_eq_true, if_false]
    omega
  · unfold TimelineSourceState.cutoffOf
    simp only [Bool.false_eq_true, if_false]
    exact hrest event hevent

omit [F64 F] in
theorem getElem?_noPoints (names : List String) (name : String) :
    (noPoints names : OrdMap String (List (NavTimelinePoint F)))[name]? =
      if name ∈ names then some [] else none := by
  have hfold : ∀ (l : List String) (m : OrdMap String (List (NavTimelinePoint F))),
      (l.foldl (fun points name => points.insert name []) m)[name]? =
        if name ∈ l then some [] else m[name]? := by
    intro l
    induction l with
    | nil => exact fun m => rfl
    | cons first l ih =>
      intro m
      rw [List.foldl_cons, ih, OrdMap.getElem?_insert_of_key]
      by_cases hl : name ∈ l
      · rw [if_pos hl, if_pos (List.mem_cons_of_mem _ hl)]
      · rw [if_neg hl]
        by_cases hfirst : first = name
        · rw [if_pos hfirst, if_pos (hfirst ▸ List.mem_cons_self)]
        · rw [if_neg hfirst, if_neg]
          intro hmem
          rcases List.mem_cons.1 hmem with heq | hmem
          · exact hfirst heq.symm
          · exact hl hmem
  unfold noPoints
  rw [hfold, Std.ExtTreeMap.getElem?_empty]

section Run

variable [ZeroLaws F] {symbols : OrdSet String} {view view' : TimelineView F}
  {rest : List (TimelineEvent F)}

/-- The windows from two states of one account. -/
theorem SameAccountView.runWindow (hview : SameAccountView symbols view view') {startTsUs : Int}
    {runtimes runtimes' : List (TimelineSourceState F)} {run : TimelineRun F}
    (hframe : AccountFrame view.endTsUs symbols rest runtimes runtimes')
    (hsorted : rest.Pairwise fun a b => a.tsUs ≤ b.tsUs) (hstart : startTsUs ≤ view.endTsUs)
    (hrest : ∀ event ∈ rest, startTsUs ≤ event.tsUs)
    (hrun : CtaManager.runWindow view startTsUs rest runtimes = .ok run) :
    ∃ run' left, CtaManager.runWindow view' startTsUs rest runtimes' = .ok run' ∧
      SameAccountRun view.endTsUs symbols left run run' := by
  have hpoints : ∀ symbol ∈ symbols,
      (noPoints view'.selectedSymbols : OrdMap String (List (NavTimelinePoint F)))[symbol]? =
        (noPoints view.selectedSymbols)[symbol]? := by
    intro symbol hsymbol
    rw [getElem?_noPoints, getElem?_noPoints]
    exact if_congr (hview.mem_selected symbol hsymbol).symm rfl rfl
  have hopen : SameAccountRun view.endTsUs symbols rest
      ⟨runtimes, [], noPoints view.selectedSymbols, noPoints view.availableStrategies, 0⟩
      ⟨runtimes', [], noPoints view'.selectedSymbols, noPoints view'.availableStrategies, 0⟩ :=
    ⟨hframe, rfl, hpoints, rfl⟩
  obtain ⟨run', left, hrun', hsame, -⟩ := (sameAccount_simulation hview).runWindow hsorted
    (fun first hfirst => hopen.sample hview hstart hrest hfirst) hrun
  exact ⟨run', left, hrun', hsame⟩

variable {run run' : TimelineRun F}

omit [ZeroLaws F] in
theorem SameAccountRun.windowSymbols_eq (hview : SameAccountView symbols view view')
    (h : SameAccountRun view.endTsUs symbols rest run run') :
    windowSymbols view' run'.runtimes = windowSymbols view run.runtimes := by
  unfold windowSymbols
  rw [h.frame.totals_eq, h.frame.symbolReports_eq, hview.unpriced.1, hview.unpriced.2]
  simp only [hview.symbolDelta_eq, Option.isNone_none, Bool.true_or]

omit [ZeroLaws F] in
theorem symbol_mem_of_windowSymbols
    (h : SameAccountRun view.endTsUs symbols rest run run')
    {row : AggregateSymbolNavReport F} (hrow : row ∈ windowSymbols view run.runtimes) :
    row.symbol ∈ symbols := by
  unfold windowSymbols at hrow
  obtain ⟨report, hreport, rfl⟩ := List.mem_map.1 hrow
  have hmem : report ∈ TimelineSourceState.timelineSymbolReports run.runtimes :=
    List.mem_of_mem_filter hreport
  have hsymbol : report.symbol ∈ symbols :=
    TimelineSourceState.symbol_mem_of_timelineSymbolReports h.frame.held hmem
  exact hsymbol

omit [ZeroLaws F] in
theorem SameAccountRun.summary_eq (hview : SameAccountView symbols view view')
    (h : SameAccountRun view.endTsUs symbols rest run run') :
    windowSummary view' (windowSymbols view' run'.runtimes) =
      windowSummary view (windowSymbols view run.runtimes) := by
  rw [h.windowSymbols_eq hview]
  unfold windowSummary
  rw [List.filter_congr fun row hrow => ?_]
  rw [Bool.eq_iff_iff, List.contains_iff_mem, List.contains_iff_mem]
  exact (hview.mem_selected _ (symbol_mem_of_windowSymbols h hrow)).symm

omit [ZeroLaws F] in
theorem SameAccountRun.symbolPoints_eq (hview : SameAccountView symbols view view')
    (h : SameAccountRun view.endTsUs symbols rest run run') (maxPoints : Nat) :
    (view'.selectedSymbols.map fun symbol =>
        ({ symbol, points := rowPoints run'.pointsBySymbol maxPoints symbol } : SymbolNavTimeline F)) =
      (view.selectedSymbols.map fun symbol =>
        ({ symbol, points := rowPoints run.pointsBySymbol maxPoints symbol } : SymbolNavTimeline F)).filter
          fun row => symbols.toList.contains row.symbol := by
  rw [hview.selected, List.filter_map]
  have hfilter : view.selectedSymbols.filter (fun symbol => symbols.contains symbol) =
      view.selectedSymbols.filter ((fun row : SymbolNavTimeline F => symbols.toList.contains row.symbol) ∘
        fun symbol => { symbol, points := rowPoints run.pointsBySymbol maxPoints symbol }) := by
    refine List.filter_congr fun symbol _ => ?_
    rw [Function.comp_apply, Bool.eq_iff_iff, List.contains_iff_mem, Std.ExtTreeSet.mem_toList,
      Std.ExtTreeSet.contains_iff_mem]
  rw [← hfilter]
  refine List.map_congr_left fun symbol hsymbol => ?_
  have hmem : symbol ∈ symbols := by simpa using (List.mem_filter.1 hsymbol).2
  unfold rowPoints
  rw [h.symbolPoints symbol hmem]

end Run

/-- The view of a request without prices. -/
def unpricedView (request : NavTimelineRequest) (strategies : OrdSet String) (symbols : List String)
    (states : List (TimelineSourceState F)) : TimelineView F where
  baselines := TimelineSourceState.timelineTotalsBySymbol states
  strategyBaselines := TimelineSourceState.timelineTotalsByStrategySymbol states
  selectedSymbols := symbols
  availableStrategies := strategies.toList
  prices := none
  endTsUs := request.endTsUs
  tickIntervalUs := request.tickIntervalUs.getD NAV_TICK_INTERVAL_US

section Query

variable [Fingerprint F] [ZeroLaws F]

/-- A request without prices says the same of the account with the corrections and without them.
Without them it finds fewer symbols; if it finds none of those that it names, then it fails, and no
selected symbol has a ledger. -/
theorem rebuildNavTimeline_withoutCorrections (config : AppConfig F) (request : NavTimelineRequest)
    (snapshots : SourcePositionSnapshots F) (strategySnapshots : SourceStrategyPositionSnapshots F)
    (histories : NavSourceHistories F) {report : NavTimelineReport F}
    (h : rebuildNavTimelineWithCache config request snapshots strategySnapshots histories none none =
      .ok report) :
    (∃ report', rebuildNavTimelineWithCache config request snapshots strategySnapshots
        (withoutCorrections histories) none none = .ok report' ∧ SameAccount report report') ∨
      rebuildNavTimelineWithCache config request snapshots strategySnapshots
          (withoutCorrections histories) none none = .error .noRequestedSymbol ∧
        ∀ row ∈ report.symbols, row.symbol ∉ report.selectedSymbols := by
  unfold rebuildNavTimelineWithCache at h ⊢
  dsimp only at h ⊢
  obtain ⟨⟨⟩, hend, h⟩ := bind_eq_ok.1 h
  obtain ⟨selected, hselected, h⟩ := bind_eq_ok.1 h
  obtain ⟨⟨⟩, hsnapshots, h⟩ := bind_eq_ok.1 h
  obtain ⟨⟨⟩, hstrategies, h⟩ := bind_eq_ok.1 h
  obtain ⟨sources, hsources, h⟩ := bind_eq_ok.1 h
  obtain ⟨⟨⟩, hstart, h⟩ := bind_eq_ok.1 h
  obtain ⟨symbols, hsymbols, h⟩ := bind_eq_ok.1 h
  obtain ⟨states, hstates, h⟩ := bind_eq_ok.1 h
  obtain ⟨marked, hmarked, h⟩ := bind_eq_ok.1 h
  obtain ⟨run, hrun, h⟩ := bind_eq_ok.1 h
  cases h
  obtain rfl : states = marked := Except.ok.inj ((mapM_ok states).symm.trans hmarked)
  obtain ⟨sources', hsources', hframe⟩ := foldlM_simulation (R := SourcesFrame request.endTsUs)
    (g := addSource request snapshots strategySnapshots (withoutCorrections histories) none)
    (fun source _ u u' v hu hv => hu.addSource hv) hsources (SourcesFrame.empty _)
  rw [hend, ok_bind, hselected, ok_bind, hsnapshots, ok_bind, hstrategies, ok_bind, hsources', ok_bind,
    hframe.anchors, hframe.events, hstart, ok_bind]
  generalize hfrom : request.resolvedStartTsUs sources.anchors.min? = startTsUs at *
  have hle : startTsUs ≤ request.endTsUs := by
    rw [ensure_eq_ok, decide_eq_true_eq] at hstart
    exact hstart
  -- the events before the window and those in it
  have hpart := partitioned_before startTsUs sources.events
  have hsorted := (sorted_stableSort TimelineEvent.order sources.events).imp
    fun {a b} hab => tsUs_le_of_order_le (F := F) hab
  generalize hevents : stableSort TimelineEvent.order sources.events = events at *
  have hlater := drop_partitionPoint _ _ hpart
  generalize partitionPoint (fun event : TimelineEvent F => decide (event.tsUs < startTsUs)) events =
    split at *
  replace hlater : ∀ event ∈ events.drop split, startTsUs ≤ event.tsUs := by
    simpa only [decide_eq_true_eq, not_lt] using hlater
  have hall : AccountFrame request.endTsUs sources'.availableSymbols
      (events.take split ++ events.drop split) sources.runtimes sources'.runtimes := by
    rw [List.take_append_drop]
    exact hframe.frame.reorder fun event => by rw [← hevents]; exact mem_stableSort _ _ event
  obtain ⟨states', hstates', hframe'⟩ := hall.startStates hle hlater hstates
  have hview : SameAccountView sources'.availableSymbols
      (unpricedView request sources.availableStrategies symbols states)
      (unpricedView request sources'.availableStrategies
        (symbols.filter fun symbol => sources'.availableSymbols.contains symbol) states') := {
    end_eq := rfl
    interval_eq := rfl
    unpriced := ⟨rfl, rfl⟩
    baselines := hframe'.totals_eq
    unheld := hframe'.unheld
    selected := rfl }
  obtain ⟨run', left, hrun', hsame⟩ := hview.runWindow hframe' (hsorted.sublist (List.drop_sublist _ _))
    hle hlater hrun
  rcases selectTimelineSymbols_filter hframe.symbols hsymbols with hfound | ⟨hfound, hnone⟩
  · refine Or.inl ⟨timelineReport request (selected.map SourceConfig.id)
      (sources.anchors.min?.getD startTsUs) startTsUs sources'.availableSymbols.toList
      (unpricedView request sources'.availableStrategies
        (symbols.filter fun symbol => sources'.availableSymbols.contains symbol) states') run', ?_, ?_⟩
    · rw [hfound, ok_bind, hstates', ok_bind]
      refine (congrArg (· >>= _) (mapM_ok states')).trans ?_
      rw [ok_bind]
      refine (congrArg (· >>= _) hrun').trans ?_
      rfl
    · exact {
        earliest := rfl
        start := rfl
        selected := List.filter_congr fun symbol _ => by
          rw [Bool.eq_iff_iff, Std.ExtTreeSet.contains_iff_mem]
          exact (List.contains_iff_mem.trans Std.ExtTreeSet.mem_toList).symm
        summary := hsame.summary_eq hview
        symbols := hsame.windowSymbols_eq hview
        points := congrArg (downsampleTimelinePoints · _) hsame.points
        symbolPoints := hsame.symbolPoints_eq hview _ }
  · refine Or.inr ⟨by rw [hfound]; rfl, ?_⟩
    intro row hrow hselected
    have hmem := symbol_mem_of_windowSymbols hsame hrow
    have hkept : row.symbol ∈ symbols.filter fun symbol =>
        sources'.availableSymbols.contains symbol :=
      List.mem_filter.2 ⟨hselected, Std.ExtTreeSet.contains_iff_mem.2 hmem⟩
    rw [hnone] at hkept
    exact absurd hkept List.not_mem_nil

end Query

/-- A window after a correction. -/
theorem rebuildNavTimeline_withoutCorrections_sample : ∃ report report',
    @rebuildNavTimelineWithCache ℚ _ Sample.noFingerprint Sample.config Sample.request ∅
        Sample.anchors Sample.histories none none = .ok report ∧
      @rebuildNavTimelineWithCache ℚ _ Sample.noFingerprint Sample.config Sample.request ∅
        Sample.anchors (withoutCorrections Sample.histories) none none = .ok report' ∧
      SameAccount report report' := by
  have hok : (@rebuildNavTimelineWithCache ℚ _ Sample.noFingerprint Sample.config Sample.request ∅
      Sample.anchors Sample.histories none none).toOption.isSome = true := by decide +kernel
  have hok' : (@rebuildNavTimelineWithCache ℚ _ Sample.noFingerprint Sample.config Sample.request ∅
      Sample.anchors (withoutCorrections Sample.histories) none none).toOption.isSome = true := by
    decide +kernel
  obtain ⟨report, hreport⟩ := Option.isSome_iff_exists.1 hok
  replace hreport := toOption_eq_some.1 hreport
  rcases @rebuildNavTimeline_withoutCorrections ℚ _ Sample.noFingerprint _ Sample.config
    Sample.request ∅ Sample.anchors Sample.histories report hreport with ⟨report', h, hsame⟩ | ⟨h, -⟩
  · exact ⟨report, report', hreport, h, hsame⟩
  · rw [h] at hok'
    cases hok'

end CtaManager
