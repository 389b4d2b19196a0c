import CtaManager.Nav.CachedSource
import CtaManager.Nav.TimelineEvents

/-!
A query with the cache is the query without it.

Source by source the two collect the same names and the same events from the
start of the window on (`SameSources`, `agree_addSource`); the events before the
start take both to the same states.  So the windows, and with them the reports,
are the same (`rebuildNavTimeline_cached`).
-/

namespace CtaManager

open Check StableSort FirstSeen PartitionPoint

variable {F : Type} [F64 F]

/-! ## Two collections of the same sources -/

/-- The window of a request can start here. -/
structure StartsAt (request : NavTimelineRequest) (start : Int) : Prop where
  requested : ∀ ts, request.startTsUs = some ts → ts ≤ start
  le_end : start ≤ request.endTsUs

/-- The events before `start` take the runtimes to `states`, each source by
its own events. -/
def Reaches (start : Int) (events : List (TimelineEvent F))
    (runtimes states : List (TimelineSourceState F)) : Prop :=
  ∀ i runtime state, runtimes[i]? = some runtime → states[i]? = some state →
    (stableSort TimelineEvent.order (events.filter fun event =>
      decide (event.sourceIndex = i) && decide (event.tsUs < start))).foldlM
        TimelineEvent.applyTo (runtime.activateSnapshotAt start) = .ok state

/-- Two collections show the same names and, from any start on, the same states
and events. -/
structure SameSources (request : NavTimelineRequest) (u c : TimelineSources F) : Prop where
  symbols : u.availableSymbols = c.availableSymbols
  strategies : u.availableStrategies = c.availableStrategies
  anchors : u.anchors = c.anchors
  length : u.runtimes.length = c.runtimes.length
  indexes : ∀ event ∈ u.events ++ c.events, event.sourceIndex < u.runtimes.length
  late : ∀ start, StartsAt request start →
    (u.events.filter fun event => !decide (event.tsUs < start)) =
      c.events.filter fun event => !decide (event.tsUs < start)
  early : ∀ start, StartsAt request start → ∃ states, states.length = u.runtimes.length ∧
    Reaches start u.events u.runtimes states ∧ Reaches start c.events c.runtimes states

theorem SameSources.empty (request : NavTimelineRequest) (sources : TimelineSources F)
    (hruntimes : sources.runtimes = []) (hevents : sources.events = []) :
    SameSources request sources sources where
  symbols := rfl
  strategies := rfl
  anchors := rfl
  length := rfl
  indexes := by simp [hevents]
  late := fun _ _ => rfl
  early := fun start _ => ⟨[], by simp [hruntimes], by simp [Reaches, hruntimes],
    by simp [Reaches, hruntimes]⟩

/-- A new source leaves the others alone and is reached by its own events. -/
theorem Reaches.add {start : Int} {events : List (TimelineEvent F)}
    {runtimes states : List (TimelineSourceState F)} (h : Reaches start events runtimes states)
    (hlen : states.length = runtimes.length)
    (hidx : ∀ event ∈ events, event.sourceIndex < runtimes.length) (id : String)
    {snapshotTsUs : Option Int} {fills : List (PreparedFill F)}
    {runtime state : TimelineSourceState F} (hsorted : Sorted fillOrder fills)
    (hafter : ∀ fill ∈ fills, ∀ ts, snapshotTsUs = some ts → ts < fill.fillTsUs)
    (hsnap : ∀ ts, snapshotTsUs = some ts → runtime.snapshotTsUs = some ts)
    (hrun : (fills.filter fun fill => decide (fill.fillTsUs < start)).foldlM
      TimelineSourceState.applyFill (runtime.activateSnapshotAt start) = .ok state) :
    Reaches start (events ++ sourceEvents runtimes.length id snapshotTsUs fills)
      (runtimes ++ [runtime]) (states ++ [state]) := by
  intro i r s hr hs
  rcases Nat.lt_trichotomy i runtimes.length with hi | hi | hi
  · -- an old source: none of the new events is its own
    rw [List.getElem?_append_left hi] at hr
    rw [List.getElem?_append_left (hlen ▸ hi)] at hs
    have hnone : (sourceEvents runtimes.length id snapshotTsUs fills).filter (fun event =>
        decide (event.sourceIndex = i) && decide (event.tsUs < start)) = [] := by
      refine List.filter_eq_nil_iff.2 fun event hevent => ?_
      have := sourceIndex_of_mem hevent
      simp only [Bool.and_eq_true, decide_eq_true_eq]
      omega
    rw [List.filter_append, hnone, List.append_nil]
    exact h i r s hr hs
  · -- the new source
    subst hi
    rw [List.getElem?_append_right le_rfl, Nat.sub_self] at hr
    rw [List.getElem?_append_right (by omega), hlen, Nat.sub_self] at hs
    obtain rfl : runtime = r := by simpa using hr
    obtain rfl : state = s := by simpa using hs
    have hnone : events.filter (fun event => decide (event.sourceIndex = runtimes.length) &&
        decide (event.tsUs < start)) = [] := by
      refine List.filter_eq_nil_iff.2 fun event hevent => ?_
      have := hidx event hevent
      simp only [Bool.and_eq_true, decide_eq_true_eq]
      omega
    have hall : (sourceEvents runtimes.length id snapshotTsUs fills).filter (fun event =>
        decide (event.sourceIndex = runtimes.length) && decide (event.tsUs < start)) =
        (sourceEvents runtimes.length id snapshotTsUs fills).filter fun event =>
          decide (event.tsUs < start) :=
      List.filter_congr fun event hevent => by
        rw [sourceIndex_of_mem hevent]
        simp
    rw [List.filter_append, hnone, List.nil_append, hall, ← filter_stableSort,
      stableSort_of_sorted _ _ (sorted_sourceEvents _ id hsorted hafter),
      foldlM_sourceEvents _ id start runtime hsnap]
    exact hrun
  · have : (runtimes ++ [runtime])[i]? = none :=
      List.getElem?_eq_none (by simp; omega)
    rw [this] at hr
    cases hr

/-- The source answers from its checkpoints: `p` is its preparation and `cached`
the build of it. -/
structure Answers (source : SourceConfig F) (p : PreparedSourceEvents F)
    (cached : CachedTimelineSource F) : Prop where
  prepared_eq : cached.prepared = p
  sorted : Sorted fillOrder p.fillEvents
  inOrder : FillsInOrder p
  corrections : CorrectionsAfter p
  built : ∃ count, CachedTimelineSource.build source p count = .ok cached

theorem Answers.indexes {source : SourceConfig F} {p : PreparedSourceEvents F}
    {cached : CachedTimelineSource F} (h : Answers source p cached) :
    cached.symbols = noteAll (noteAll ∅ (allocationSymbols p.allocations))
        (p.fillEvents.map fun fill => (fill.event.symbol, fill.fillTsUs)) ∧
      cached.strategies = noteAll (noteAll ∅ (allocationStrategies p.allocations))
        (p.fillEvents.map fun fill =>
          (strategyRow p.strategyAllocationActive fill, fill.fillTsUs)) := by
  obtain ⟨count, hbuild⟩ := h.built
  obtain ⟨state, replay, -, -, hinv, hfinish⟩ :=
    CachedTimelineSource.build_eq_ok h.corrections h.inOrder hbuild
  obtain ⟨-, -, hsym, hstr, -⟩ := CachedTimelineSource.finish_fields hfinish
  exact ⟨hsym.trans hinv.symbols_eq, hstr.trans hinv.strategies_eq⟩

/-- One more source on both sides. -/
theorem SameSources.add {request : NavTimelineRequest} {u c : TimelineSources F}
    (h : SameSources request u c) {source : SourceConfig F} {p : PreparedSourceEvents F}
    {cached : CachedTimelineSource F} (hp : Answers source p cached)
    {initial state : TimelineSourceState F} (hinitial : initialTimelineState source p = .ok initial)
    {front back : List (PreparedFill F)}
    (hopen : OpenedAt initial p.fillEvents request front back state) :
    SameSources request
      (u.add request source.id p initial
        (p.fillEvents.filter fun fill => decide (fill.fillTsUs ≤ request.endTsUs)) [] [])
      (c.add request source.id p state
        (back.filter fun fill => decide (fill.fillTsUs ≤ request.endTsUs))
        (seenBy cached.symbols request.endTsUs) (seenBy cached.strategies request.endTsUs)) := by
  obtain ⟨count, hbuild⟩ := hp.built
  obtain ⟨hsym, hstr⟩ := hp.indexes
  obtain ⟨hf1, hf2, -⟩ := CachedTimelineSource.initialTimelineState_fields hinitial
  obtain ⟨initial', final, hinitial', hrun⟩ :=
    CachedTimelineSource.run_of_build hp.corrections hp.inOrder hbuild
  obtain rfl : initial = initial' := by
    rw [hinitial] at hinitial'
    exact Except.ok.inj hinitial'
  have hafter : ∀ fill ∈ p.fillEvents, initial.AfterSnapshot fill.fillTsUs :=
    fun fill hfill ts hts => (hp.inOrder.after fill hfill ts (hf2 ▸ hts)).le
  have hordered : initial.Ordered := by
    intro a ha ts hts
    exact (hp.corrections a (hf1 ▸ ha) ts (hf2 ▸ hts)).le
  refine ⟨?_, ?_, ?_, ?_, ?_, fun start hstart => ?_, fun start hstart => ?_⟩
  · simp only [TimelineSources.add, h.symbols]
    refine insertAll_congr _ fun name => ?_
    exact names_of_index hopen.fills_eq request.endTsUs AllocationPosition.symbol
      (fun fill => fill.event.symbol) cached.symbols hsym _
      (fun name hname => List.mem_append_right _ hname) name
  · simp only [TimelineSources.add, h.strategies]
    refine insertAll_congr _ fun name => ?_
    exact names_of_index hopen.fills_eq request.endTsUs AllocationPosition.strategy
      (strategyRow p.strategyAllocationActive) cached.strategies hstr _
      (fun name hname => List.mem_append_left _ (List.mem_append_right _ hname)) name
  · simp only [TimelineSources.add, h.anchors]
  · simp only [TimelineSources.add, List.length_append, List.length_singleton, h.length]
  · intro event hevent
    simp only [TimelineSources.add, List.mem_append, List.length_append, List.length_singleton]
      at hevent ⊢
    rcases hevent with (hold | hnew) | hold | hnew
    · have := h.indexes event (List.mem_append_left _ hold)
      omega
    · have := sourceIndex_of_mem (List.mem_append.2 hnew)
      omega
    · have := h.indexes event (List.mem_append_right _ hold)
      omega
    · have := sourceIndex_of_mem (List.mem_append.2 hnew)
      rw [← h.length] at this
      omega
  · -- from the start on only the later fills are left
    have hfills : (p.fillEvents.filter fun fill => decide (fill.fillTsUs ≤ request.endTsUs)).filter
          (fun fill => !decide (fill.fillTsUs < start)) =
        (back.filter fun fill => decide (fill.fillTsUs ≤ request.endTsUs)).filter
          fun fill => !decide (fill.fillTsUs < start) := by
      rcases hopen.reached with ⟨hnil, -⟩ | ⟨tsUs, begin, mid, hbegin, hle, -, -, -, hlt⟩
      · rw [hopen.fills_eq, hnil, List.nil_append]
      · rw [hopen.fills_eq, List.filter_append, List.filter_append]
        have hnone : (front.filter fun fill => decide (fill.fillTsUs ≤ request.endTsUs)).filter
            (fun fill => !decide (fill.fillTsUs < start)) = [] := by
          refine List.filter_eq_nil_iff.2 fun fill hfill => ?_
          have h1 := hlt fill (List.mem_of_mem_filter hfill)
          have h2 := hstart.requested begin hbegin
          simp only [Bool.not_eq_true', decide_eq_false_iff_not, not_not]
          omega
        rw [hnone, List.nil_append]
    simp only [TimelineSources.add, List.filter_append, h.late start hstart, h.length,
      List.filter_map]
    congr 3
  · obtain ⟨states, hlen, hu, hc⟩ := h.early start hstart
    obtain ⟨baseline, hbase, hbase'⟩ := baseline_of_openedAt hopen hordered hafter
      hp.inOrder.sorted hrun start hstart.requested
    -- the end of the window cuts off no fill before the start
    have hcut : ∀ l : List (PreparedFill F),
        (l.filter fun fill => decide (fill.fillTsUs ≤ request.endTsUs)).filter
          (fun fill => decide (fill.fillTsUs < start)) =
        l.filter fun fill => decide (fill.fillTsUs < start) := by
      intro l
      rw [List.filter_filter]
      refine List.filter_congr fun fill _ => ?_
      have := hstart.le_end
      by_cases hts : fill.fillTsUs < start
      · simp [hts, (show fill.fillTsUs ≤ request.endTsUs by omega)]
      · simp [hts]
    have hsnap : ∀ ts, openingSnapshot p request.endTsUs = some ts → p.snapshotTsUs = some ts :=
      fun ts hts => (Option.filter_eq_some_iff.1 hts).1
    have hback : Sorted fillOrder back := by
      have := hp.sorted
      rw [hopen.fills_eq] at this
      exact (List.pairwise_append.1 this).2.1
    have hmem : ∀ fill ∈ back, fill ∈ p.fillEvents := by
      intro fill hfill
      rw [hopen.fills_eq]
      exact List.mem_append_right _ hfill
    have hstate : state.snapshotTsUs = p.snapshotTsUs := by
      rcases hopen.reached with ⟨-, rfl⟩ | ⟨tsUs, begin, mid, -, -, hmid, rfl, -⟩
      · exact hf2
      · obtain ⟨-, hmidsnap, -⟩ := TimelineSourceState.foldlM_applyFill_fields hmid
        rw [TimelineSourceState.activateSnapshotAt_snapshotTsUs, hmidsnap, hf2]
    refine ⟨states ++ [baseline], ?_, ?_, ?_⟩
    · simp only [TimelineSources.add, List.length_append, hlen, List.length_singleton]
    · exact hu.add hlen (fun event hevent => h.indexes event (List.mem_append_left _ hevent))
        source.id (hp.sorted.filter _)
        (fun fill hfill ts hts => hp.inOrder.after fill (List.mem_of_mem_filter hfill) ts
          (hsnap ts hts))
        (fun ts hts => hf2.trans (hsnap ts hts)) (by rw [hcut]; exact hbase)
    · exact hc.add (hlen.trans h.length)
        (fun event hevent => h.length ▸ h.indexes event (List.mem_append_right _ hevent))
        source.id (hback.filter _)
        (fun fill hfill ts hts => hp.inOrder.after fill (hmem fill (List.mem_of_mem_filter hfill))
          ts (hsnap ts hts))
        (fun ts hts => hstate.trans (hsnap ts hts)) (by rw [hcut]; exact hbase')

section Query

variable [Fingerprint F]

/-- A source answers both ways alike: fresh from its history, or cached. -/
theorem agree_addSource {request : NavTimelineRequest} {snapshots : SourcePositionSnapshots F}
    {strategySnapshots : SourceStrategyPositionSnapshots F} {histories : NavSourceHistories F}
    {cache : NavTimelineCache F} {allocation : Bool} {source : SourceConfig F}
    (hsource : ∀ history : NavSourceHistory F, histories[source.id]? = some history →
      ∃ cached p, cache.sources[(⟨source.id, allocation⟩ : SourceKey)]? = some cached ∧
        prepareSourceEvents source history.events snapshots[source.id]?
          strategySnapshots[source.id]? history.liquidityByOrder history.allocations = .ok p ∧
        Answers source p cached)
    {u c : TimelineSources F} (h : SameSources request u c) :
    Agree (SameSources request)
      (addSource request snapshots strategySnapshots histories none u source)
      (addSource request snapshots strategySnapshots histories (some (cache, allocation)) c
        source) := by
  unfold addSource
  refine (Agree.refl (R := fun a b => a = b) (fun _ => rfl) source.navFeeRates).bind ?_
  rintro rates - rfl
  cases hh : histories[source.id]? with
  | none => exact .error _
  | some history =>
    obtain ⟨cached, p, hlookup, hprepare, hp⟩ := hsource history hh
    obtain ⟨count, hbuild⟩ := hp.built
    obtain ⟨initial, final, hinitial, -⟩ :=
      CachedTimelineSource.run_of_build hp.corrections hp.inOrder hbuild
    have hfresh : windowFills p.fillEvents 0 request.endTsUs =
        p.fillEvents.filter fun fill => decide (fill.fillTsUs ≤ request.endTsUs) :=
      windowFills_eq_filter [] p.fillEvents request.endTsUs hp.inOrder.sorted
    simp only [Option.bind_none, Option.map_none, Option.getD_none, Option.bind_some, hlookup,
      preparedFor, hprepare, ok_bind, hp.prepared_eq, hinitial, hfresh, Option.map_some,
      Option.getD_some]
    cases hcp : startCheckpoint cached request.startTsUs with
    | none =>
      simp only [Option.map_none, Option.getD_none, hfresh]
      have hopen : OpenedAt initial p.fillEvents request [] p.fillEvents initial :=
        ⟨rfl, Or.inl ⟨rfl, rfl⟩⟩
      exact .ok (h.add hp hinitial hopen)
    | some cp =>
      obtain ⟨initial', front, back, hinitial', hnext, hopen⟩ :=
        CachedTimelineSource.openedAt_startCheckpoint hp.corrections hp.inOrder hbuild request hcp
      obtain rfl : initial = initial' := by
        rw [hinitial] at hinitial'
        exact Except.ok.inj hinitial'
      have hwindow : windowFills p.fillEvents cp.nextFill request.endTsUs =
          back.filter fun fill => decide (fill.fillTsUs ≤ request.endTsUs) := by
        have hsorted := hp.inOrder.sorted
        rw [hnext, hopen.fills_eq] at *
        exact windowFills_eq_filter front back request.endTsUs hsorted
      simp only [Option.map_some, Option.getD_some, hwindow]
      exact .ok (h.add hp hinitial hopen)

end Query

/-! ## The window -/

/-- The states at the start of the window, from the events before it. -/
theorem startStates_of_reaches {start : Int} {events : List (TimelineEvent F)}
    {runtimes states : List (TimelineSourceState F)} (h : Reaches start events runtimes states)
    (hlen : states.length = runtimes.length)
    (hidx : ∀ event ∈ events, event.sourceIndex < runtimes.length) :
    startStates start ((stableSort TimelineEvent.order events).filter fun event =>
        decide (event.tsUs < start)) runtimes =
      states.mapM fun runtime => runtime.advanceAllocations start false := by
  unfold startStates
  have hrun : ((stableSort TimelineEvent.order events).filter fun event =>
      decide (event.tsUs < start)).foldlM applyTimelineEvent
        (runtimes.map fun runtime => runtime.activateSnapshotAt start) = .ok states := by
    refine @foldlM_modify _ _ _ TimelineEvent.sourceIndex TimelineEvent.applyTo _ _ _
      (by simp [hlen]) (fun event hevent => ?_) fun i runtime state hr hs => ?_
    · rw [List.length_map]
      exact hidx event ((mem_stableSort _ _ _).1 (List.mem_of_mem_filter hevent))
    · rw [List.getElem?_map] at hr
      obtain ⟨runtime', hr', rfl⟩ := Option.map_eq_some_iff.1 hr
      rw [List.filter_filter, filter_stableSort]
      exact h i runtime' state hr' hs
  simp only [hrun, ok_bind]

/-- The same sources open the same window. -/
theorem SameSources.window {request : NavTimelineRequest} {u c : TimelineSources F}
    (h : SameSources request u c) {start : Int} (hstart : StartsAt request start) :
    let before := fun event : TimelineEvent F => decide (event.tsUs < start)
    let uEvents := stableSort TimelineEvent.order u.events
    let cEvents := stableSort TimelineEvent.order c.events
    startStates start (uEvents.take (partitionPoint before uEvents)) u.runtimes =
        startStates start (cEvents.take (partitionPoint before cEvents)) c.runtimes ∧
      uEvents.drop (partitionPoint before uEvents) =
        cEvents.drop (partitionPoint before cEvents) := by
  obtain ⟨states, hlen, hu, hc⟩ := h.early start hstart
  dsimp only
  rw [take_partitionPoint_eq_filter _ _ (partitioned_before start u.events),
    take_partitionPoint_eq_filter _ _ (partitioned_before start c.events),
    drop_partitionPoint_eq_filter _ _ (partitioned_before start u.events),
    drop_partitionPoint_eq_filter _ _ (partitioned_before start c.events)]
  constructor
  · rw [startStates_of_reaches hu hlen fun event hevent =>
        h.indexes event (List.mem_append_left _ hevent),
      startStates_of_reaches hc (hlen.trans h.length) fun event hevent =>
        h.length ▸ h.indexes event (List.mem_append_right _ hevent)]
  · rw [filter_stableSort, filter_stableSort, h.late start hstart]

/-! ## The cached sources -/

namespace NavTimelineCache

omit [F64 F] in
theorem getElem?_shareSource_false (sources : OrdMap SourceKey (CachedTimelineSource F))
    (source : SourceConfig F) (id : String) :
    (shareSource sources source)[(⟨id, false⟩ : SourceKey)]? =
      sources[(⟨id, false⟩ : SourceKey)]? := by
  unfold shareSource
  split
  · rw [OrdMap.getElem?_insert_of_key, if_neg (by simp)]
  · rfl

omit [F64 F] in
theorem getElem?_shareSource_true (sources : OrdMap SourceKey (CachedTimelineSource F))
    (source : SourceConfig F) (id : String) :
    (shareSource sources source)[(⟨id, true⟩ : SourceKey)]? =
      if source.id = id then
        sources[(⟨id, true⟩ : SourceKey)]?.or sources[(⟨id, false⟩ : SourceKey)]?
      else sources[(⟨id, true⟩ : SourceKey)]? := by
  unfold shareSource
  split
  · rename_i shared htrue hfalse
    rw [OrdMap.getElem?_insert_of_key]
    by_cases hid : source.id = id
    · subst hid
      simp [htrue, hfalse]
    · simp [hid]
  · rename_i h
    split
    · rename_i hid
      subst hid
      cases htrue : sources[(⟨source.id, true⟩ : SourceKey)]? with
      | some cached => rfl
      | none =>
        cases hfalse : sources[(⟨source.id, false⟩ : SourceKey)]? with
        | none => rfl
        | some shared => exact absurd hfalse (h shared htrue)
    · rfl

omit [F64 F] in
theorem getElem?_shareSources (l : List (SourceConfig F))
    (sources : OrdMap SourceKey (CachedTimelineSource F)) (id : String)
    (hid : ∃ source ∈ l, source.id = id) :
    (l.foldl shareSource sources)[(⟨id, false⟩ : SourceKey)]? =
        sources[(⟨id, false⟩ : SourceKey)]? ∧
      (l.foldl shareSource sources)[(⟨id, true⟩ : SourceKey)]? =
        sources[(⟨id, true⟩ : SourceKey)]?.or sources[(⟨id, false⟩ : SourceKey)]? := by
  induction l using List.reverseRecOn with
  | nil =>
    obtain ⟨source, h, -⟩ := hid
    exact absurd h List.not_mem_nil
  | append_singleton l last ih =>
    rw [List.foldl_append, List.foldl_cons, List.foldl_nil, getElem?_shareSource_false,
      getElem?_shareSource_true]
    by_cases hl : ∃ source ∈ l, source.id = id
    · obtain ⟨h1, h2⟩ := ih hl
      rw [h1, h2]
      refine ⟨rfl, ?_⟩
      split
      · cases sources[(⟨id, true⟩ : SourceKey)]? <;>
          cases sources[(⟨id, false⟩ : SourceKey)]? <;> rfl
      · rfl
    · -- the sources before are others, so they share nothing under this id
      have hother : ∀ (l : List (SourceConfig F)) (allocation : Bool),
          (∀ source ∈ l, source.id ≠ id) →
          (l.foldl shareSource sources)[(⟨id, allocation⟩ : SourceKey)]? =
            sources[(⟨id, allocation⟩ : SourceKey)]? := by
        intro l allocation hne
        induction l using List.reverseRecOn with
        | nil => rfl
        | append_singleton l last ih =>
          rw [List.foldl_append, List.foldl_cons, List.foldl_nil]
          have hlast := hne last (List.mem_append_right _ (List.mem_singleton_self _))
          have hrest := ih fun source hs => hne source (List.mem_append_left _ hs)
          cases allocation with
          | false => rw [getElem?_shareSource_false, hrest]
          | true => rw [getElem?_shareSource_true, if_neg hlast, hrest]
      have hne : ∀ source ∈ l, source.id ≠ id := fun source hs he => hl ⟨source, hs, he⟩
      obtain ⟨source, hs, rfl⟩ := hid
      have hlast : source = last := by
        rcases List.mem_append.1 hs with h | h
        · exact absurd rfl (hne source h)
        · exact List.mem_singleton.1 h
      subst hlast
      rw [hother l false hne, hother l true hne, if_pos rfl]
      exact ⟨rfl, rfl⟩

section Build

variable [Fingerprint F] {config : AppConfig F} {snapshots : SourcePositionSnapshots F}
  {strategySnapshots : SourceStrategyPositionSnapshots F} {histories : NavSourceHistories F}
  {cache : NavTimelineCache F}

theorem build_fields (h : build config snapshots strategySnapshots histories = .ok cache) :
    cache.config = config ∧ cache.snapshots = snapshots ∧
      cache.strategySnapshots = strategySnapshots ∧ cache.histories = histories := by
  unfold build at h
  obtain ⟨built, -, h⟩ := bind_eq_ok.1 h
  cases h
  exact ⟨rfl, rfl, rfl, rfl⟩

omit [F64 F] [Fingerprint F] in
theorem enabled_eq_of_id_eq (hids : (config.sources.map SourceConfig.id).Nodup)
    {source source' : SourceConfig F} (hs : source ∈ config.enabledSources)
    (hs' : source' ∈ config.enabledSources) (hid : source.id = source'.id) : source = source' :=
  List.inj_on_of_nodup_map hids (List.mem_of_mem_filter hs) (List.mem_of_mem_filter hs') hid

omit [F64 F] [Fingerprint F] in
theorem mem_work {source : SourceConfig F} {allocation : Bool} :
    (source, allocation) ∈ work config snapshots strategySnapshots ↔
      source ∈ config.enabledSources ∧
        (allocation = true → hasAnchor snapshots strategySnapshots source.id = true) := by
  unfold work
  rw [List.mem_flatMap]
  constructor
  · rintro ⟨source', hs', hmem⟩
    split at hmem
    · rename_i hanchor
      rcases List.mem_cons.1 hmem with h | h
      · cases h
        exact ⟨hs', by simp⟩
      · cases List.mem_singleton.1 h
        exact ⟨hs', fun _ => hanchor⟩
    · cases List.mem_singleton.1 hmem
      exact ⟨hs', by simp⟩
  · rintro ⟨hs, hanchor⟩
    refine ⟨source, hs, ?_⟩
    cases allocation with
    | false => split <;> simp
    | true => simp [hanchor rfl]

/-- Every enabled source is cached in both modes; without an anchor of its own
the second is the first. -/
theorem build_lookup (hids : (config.sources.map SourceConfig.id).Nodup)
    (h : build config snapshots strategySnapshots histories = .ok cache)
    {source : SourceConfig F} (hs : source ∈ config.enabledSources) (allocation : Bool) :
    ∃ cached, cache.sources[(⟨source.id, allocation⟩ : SourceKey)]? = some cached ∧
      buildSource snapshots strategySnapshots histories source
        (allocation && hasAnchor snapshots strategySnapshots source.id) = .ok cached := by
  unfold build at h
  obtain ⟨built, hbuilt, h⟩ := bind_eq_ok.1 h
  cases h
  obtain ⟨hresult, horigin⟩ := mem_of_mapM_eq_ok hbuilt
  -- an entry of the work list is stored under its key, and only there
  have hentry : ∀ {key : SourceKey} {cached : CachedTimelineSource F}, (key, cached) ∈ built →
      ∃ source' allocation', (source', allocation') ∈ work config snapshots strategySnapshots ∧
        key = ⟨source'.id, allocation'⟩ ∧
        buildSource snapshots strategySnapshots histories source' allocation' = .ok cached := by
    intro key cached hmem
    obtain ⟨⟨source', allocation'⟩, hwork, hpack⟩ := horigin _ hmem
    obtain ⟨cached', hmade, hpair⟩ := bind_eq_ok.1 hpack
    rw [pure_eq_ok, Except.ok.injEq, Prod.mk.injEq] at hpair
    obtain ⟨rfl, rfl⟩ := hpair
    exact ⟨source', allocation', hwork, rfl, hmade⟩
  have hstored : ∀ allocation', (source, allocation') ∈ work config snapshots strategySnapshots →
      ∃ cached, (built.foldl (fun (sources : OrdMap SourceKey (CachedTimelineSource F)) p =>
          sources.insert p.1 p.2) ∅)[(⟨source.id, allocation'⟩ : SourceKey)]? = some cached ∧
        buildSource snapshots strategySnapshots histories source allocation' = .ok cached := by
    intro allocation' hwork
    obtain ⟨⟨key, cached⟩, hmem, hpack⟩ := hresult _ hwork
    obtain ⟨cached', hmade, hpair⟩ := bind_eq_ok.1 hpack
    rw [pure_eq_ok, Except.ok.injEq, Prod.mk.injEq] at hpair
    obtain ⟨rfl, rfl⟩ := hpair
    refine ⟨cached', OrdMap.getElem?_foldl_insert built ∅ _ cached' hmem fun other hother => ?_,
      hmade⟩
    obtain ⟨source', allocation'', hwork', hkey, hmade'⟩ := hentry hother
    rw [SourceKey.mk.injEq] at hkey
    obtain ⟨hid, rfl⟩ := hkey
    obtain rfl := enabled_eq_of_id_eq hids hs (mem_work.1 hwork').1 hid
    rw [hmade] at hmade'
    exact (Except.ok.inj hmade').symm
  obtain ⟨plain, hplain, hplainBuilt⟩ := hstored false (mem_work.2 ⟨hs, by simp⟩)
  obtain ⟨hfalse, htrue⟩ := getElem?_shareSources config.enabledSources
    (built.foldl (fun (sources : OrdMap SourceKey (CachedTimelineSource F)) p =>
      sources.insert p.1 p.2) ∅) source.id ⟨source, hs, rfl⟩
  cases allocation with
  | false => exact ⟨plain, hfalse.trans hplain, hplainBuilt⟩
  | true =>
    cases hanchor : hasAnchor snapshots strategySnapshots source.id with
    | true =>
      obtain ⟨own, hown, hownBuilt⟩ := hstored true (mem_work.2 ⟨hs, fun _ => hanchor⟩)
      refine ⟨own, htrue.trans ?_, hownBuilt⟩
      rw [hown]
      rfl
    | false =>
      have hnone : (built.foldl (fun (sources : OrdMap SourceKey (CachedTimelineSource F)) p =>
          sources.insert p.1 p.2) ∅)[(⟨source.id, true⟩ : SourceKey)]? = none := by
        rw [OrdMap.getElem?_foldl_insert_of_forall_ne built ∅ _ fun other hother => ?_]
        · simp
        · obtain ⟨source', allocation', hwork, hkey, -⟩ := hentry hother
          rw [SourceKey.mk.injEq] at hkey
          obtain ⟨hid, rfl⟩ := hkey
          have hsup := (mem_work.1 hwork).2 rfl
          rw [← hid, hanchor] at hsup
          cases hsup
      refine ⟨plain, htrue.trans ?_, hplainBuilt⟩
      rw [hnone, hplain]
      rfl

/-- An anchor that a later account snapshot supersedes changes nothing. -/
theorem prepareSourceEvents_superseded {source : SourceConfig F} {events : List (NavEvent F)}
    {snapshot : Option (PositionSnapshot F)} {anchor : StrategyPositionSnapshot F}
    {liquidityByOrder : LiquidityByOrder} {allocations : List (AllocationSnapshot F)}
    (hvalid : checkStrategySnapshot source anchor = .ok ())
    (hsup : supersedes snapshot anchor = false) :
    prepareSourceEvents source events snapshot (some anchor) liquidityByOrder allocations =
      prepareSourceEvents source events snapshot none liquidityByOrder allocations := by
  have hfilter : (some anchor).filter (supersedes snapshot) = none := by simp [hsup]
  unfold prepareSourceEvents effectivePositionSnapshot
  simp only [hfilter, Option.filter_none]
  refine bind_congr_ok fun _ _ => ?_
  change (checkStrategySnapshot source anchor >>= _) = _
  rw [hvalid]
  rfl

/-- Each requested source is cached as a fresh preparation would have it. -/
theorem answers_of_build (hids : (config.sources.map SourceConfig.id).Nodup)
    (h : build config snapshots strategySnapshots histories = .ok cache)
    {source : SourceConfig F} (hs : source ∈ config.enabledSources)
    (hvalid : ∀ anchor : StrategyPositionSnapshot F, strategySnapshots[source.id]? = some anchor →
      checkStrategySnapshot source anchor = .ok ())
    {request : NavTimelineRequest} (hrequest : requests request source.id = true)
    (allocation : Bool) {history : NavSourceHistory F}
    (hhistory : histories[source.id]? = some history) :
    ∃ cached p, cache.sources[(⟨source.id, allocation⟩ : SourceKey)]? = some cached ∧
      prepareSourceEvents source history.events (cache.requestedSnapshots request)[source.id]?
        (cache.requestedStrategySnapshots request allocation)[source.id]? history.liquidityByOrder
        history.allocations = .ok p ∧
      Answers source p cached := by
  obtain ⟨-, hsnaps, hstrategies, -⟩ := build_fields h
  obtain ⟨cached, hlookup, hbuilt⟩ := build_lookup hids h hs allocation
  unfold buildSource at hbuilt
  simp only [hhistory] at hbuilt
  obtain ⟨rates, -, hbuilt⟩ := bind_eq_ok.1 hbuilt
  obtain ⟨effective, -, hbuilt⟩ := bind_eq_ok.1 hbuilt
  obtain ⟨p, hprepare, hbuild⟩ := bind_eq_ok.1 hbuilt
  obtain ⟨effective', hprepared⟩ := prepareSourceEvents_eq_ok.1 hprepare
  have hanswers : Answers source p cached := by
    refine ⟨?_, hprepared.sorted_fillOrder, hprepared.fillsInOrder, hprepared.correctionsAfter,
      _, hbuild⟩
    obtain ⟨_, _, -, -, -, hfinish⟩ := CachedTimelineSource.build_eq_ok
      hprepared.correctionsAfter hprepared.fillsInOrder hbuild
    exact (CachedTimelineSource.finish_fields hfinish).1
  refine ⟨cached, p, hlookup, ?_, hanswers⟩
  have hsnapshot : (cache.requestedSnapshots request)[source.id]? = snapshots[source.id]? := by
    unfold requestedSnapshots
    rw [hsnaps, Std.ExtTreeMap.getElem?_filter']
    cases snapshots[source.id]? <;> simp [hrequest]
  rw [hsnapshot]
  cases allocation with
  | false => simpa [requestedStrategySnapshots] using hprepare
  | true =>
    have hstrategy : (cache.requestedStrategySnapshots request true)[source.id]? =
        strategySnapshots[source.id]? := by
      unfold requestedStrategySnapshots
      rw [if_pos rfl, hstrategies, Std.ExtTreeMap.getElem?_filter']
      cases strategySnapshots[source.id]? <;> simp [hrequest]
    rw [hstrategy]
    cases hanchor : hasAnchor snapshots strategySnapshots source.id with
    | true => simpa [hanchor] using hprepare
    | false =>
      simp only [hanchor, Bool.and_false, Bool.false_eq_true, if_false] at hprepare
      cases hstored : strategySnapshots[source.id]? with
      | none => exact hprepare
      | some anchor =>
        rw [prepareSourceEvents_superseded (hvalid anchor hstored)]
        · exact hprepare
        · simpa [hasAnchor, hstored] using hanchor

end Build

end NavTimelineCache

/-! ## The report -/

omit [F64 F] in
theorem mem_selectSources {config : AppConfig F} {request : NavTimelineRequest}
    {selected : List (SourceConfig F)}
    (h : selectSources config request.selectedSourceIds = .ok selected) {source : SourceConfig F}
    (hs : source ∈ selected) :
    source ∈ config.enabledSources ∧ NavTimelineCache.requests request source.id = true := by
  unfold selectSources at h
  obtain ⟨_, -, h⟩ := bind_eq_ok.1 h
  obtain ⟨_, -, h⟩ := bind_eq_ok.1 h
  obtain ⟨_, -, h⟩ := bind_eq_ok.1 h
  cases h
  obtain ⟨henabled, hrequested⟩ := List.mem_filter.1 hs
  refine ⟨henabled, ?_⟩
  rw [Bool.or_eq_true, Std.ExtTreeSet.isEmpty_iff, Std.ExtTreeSet.ofList_eq_empty_iff,
    Std.ExtTreeSet.contains_ofList] at hrequested
  simpa [NavTimelineCache.requests] using hrequested

omit [F64 F] in
theorem startsAt_resolved {request : NavTimelineRequest} {earliest : Option Int}
    (h : request.resolvedStartTsUs earliest ≤ request.endTsUs) :
    StartsAt request (request.resolvedStartTsUs earliest) := by
  refine ⟨fun ts hts => ?_, h⟩
  unfold NavTimelineRequest.resolvedStartTsUs
  cases earliest with
  | none => simp [hts]
  | some first => simp [hts]

/-- A query answered from the checkpoints of a cache is the query replayed from
the beginning: the same report, or the same failure.  The ids of a configuration
are distinct, and a stored anchor belongs to its source. -/
theorem rebuildNavTimeline_cached [Fingerprint F] (config : AppConfig F)
    (snapshots : SourcePositionSnapshots F) (strategySnapshots : SourceStrategyPositionSnapshots F)
    (histories : NavSourceHistories F) (cache : NavTimelineCache F)
    (hbuild : NavTimelineCache.build config snapshots strategySnapshots histories = .ok cache)
    (hids : (config.sources.map SourceConfig.id).Nodup)
    (hvalid : ∀ source ∈ config.sources, ∀ anchor : StrategyPositionSnapshot F,
      strategySnapshots[source.id]? = some anchor → checkStrategySnapshot source anchor = .ok ())
    (request : NavTimelineRequest) (strategyAllocation : Bool) (prices : Option (MinuteMarks F)) :
    rebuildNavTimelineWithCache config request (cache.requestedSnapshots request)
        (cache.requestedStrategySnapshots request strategyAllocation) histories
        (some (cache, strategyAllocation)) prices =
      rebuildNavTimelineWithCache config request (cache.requestedSnapshots request)
        (cache.requestedStrategySnapshots request strategyAllocation) histories none prices := by
  symm
  unfold rebuildNavTimelineWithCache
  refine bind_congr_ok fun _ _ => bind_congr_ok fun selected hselected => ?_
  refine bind_congr_ok fun _ _ => bind_congr_ok fun _ _ => ?_
  have hsources : Agree (SameSources request) (selected.foldlM _ _) (selected.foldlM _ _) :=
    Agree.foldlM (fun source hs u c huc => by
      obtain ⟨henabled, hrequest⟩ := mem_selectSources hselected hs
      exact agree_addSource (fun history hhistory =>
        NavTimelineCache.answers_of_build hids hbuild henabled
          (hvalid source (List.mem_of_mem_filter henabled)) hrequest strategyAllocation hhistory)
        huc)
      (SameSources.empty request
        { runtimes := [], events := [], availableSymbols := ∅, availableStrategies := ∅,
          anchors := [] } rfl rfl)
  refine (hsources.bind (S := fun a b => a = b) fun u c huc => ?_).eq
  suffices h : ∀ {x y : Except NavError (NavTimelineReport F)}, x = y →
      Agree (fun a b => a = b) x y by
    refine h ?_
    simp only [huc.anchors, huc.symbols, huc.strategies]
    refine bind_congr_ok fun _ hle => ?_
    rw [ensure_eq_ok, decide_eq_true_eq] at hle
    obtain ⟨hstart, hrest⟩ := huc.window (startsAt_resolved hle)
    simp only [hstart, hrest]
  rintro x y rfl
  exact Agree.refl (fun _ => rfl) x

/-! ## A query from a checkpoint -/

namespace Sample

def config : AppConfig ℚ := { sources := [source] }

/-- Strategy `alpha` starts with two coins. -/
def anchors : SourceStrategyPositionSnapshots ℚ :=
  (∅ : SourceStrategyPositionSnapshots ℚ).insert "trade01"
    { sourceId := "trade01", snapshotTsUs := 3600000000,
      positions := [⟨"alpha", "BTCUSDT", 1, 2, 100⟩] }

/-- One coin moves from `alpha` to `beta`. -/
def handover : AllocationSnapshot ℚ :=
  { sourceId := "trade01", snapshotTsUs := 9000000000
    positions := [⟨"alpha", "BTCUSDT", 1, 3, 2, 105⟩, ⟨"beta", "BTCUSDT", 1, 0, 1, 105⟩,
      ⟨UNALLOCATED_STRATEGY, "BTCUSDT", 1, 0, 0, 105⟩]
    restatements := [] }

def histories : NavSourceHistories ℚ :=
  (∅ : NavSourceHistories ℚ).insert "trade01"
    { allocations := [handover]
      events := [fill "1" 7300000000 "alpha" "BTCUSDT" 1 110 1,
        fill "2" 10900000000 "beta" "BTCUSDT" 2 120 1,
        fill "3" 14500000000 "alpha" "ETHUSDT" 1 10 5]
      liquidityByOrder := ∅, revision := 1, change := none }

/-- A window from the third hour on; its checkpoint has two fills behind it. -/
def request : NavTimelineRequest :=
  { startTsUs := some 14400000000, endTsUs := 14600000000, selectedSourceIds := [],
    selectedSymbols := [], maxPoints := 100, tickIntervalUs := none }

def emptyCache : NavTimelineCache ℚ :=
  { config, snapshots := ∅, strategySnapshots := anchors, histories, sources := ∅ }

def cache : NavTimelineCache ℚ :=
  ((@NavTimelineCache.build ℚ _ noFingerprint config ∅ anchors histories).toOption).getD emptyCache

end Sample

theorem rebuildNavTimeline_cached_sample :
    (@rebuildNavTimelineWithCache ℚ _ Sample.noFingerprint Sample.config Sample.request
        (Sample.cache.requestedSnapshots Sample.request)
        (Sample.cache.requestedStrategySnapshots Sample.request true) Sample.histories
        (some (Sample.cache, true)) none).toOption.isSome = true ∧
      @rebuildNavTimelineWithCache ℚ _ Sample.noFingerprint Sample.config Sample.request
        (Sample.cache.requestedSnapshots Sample.request)
        (Sample.cache.requestedStrategySnapshots Sample.request true) Sample.histories
        (some (Sample.cache, true)) none =
      @rebuildNavTimelineWithCache ℚ _ Sample.noFingerprint Sample.config Sample.request
        (Sample.cache.requestedSnapshots Sample.request)
        (Sample.cache.requestedStrategySnapshots Sample.request true) Sample.histories none none := by
  refine ⟨by decide +kernel, @rebuildNavTimeline_cached ℚ _ Sample.noFingerprint Sample.config ∅
    Sample.anchors Sample.histories Sample.cache ?_ (by decide +kernel) ?_ Sample.request true none⟩
  · have hok : (@NavTimelineCache.build ℚ _ Sample.noFingerprint Sample.config ∅ Sample.anchors
        Sample.histories).toOption.isSome = true := by decide +kernel
    obtain ⟨cache, hcache⟩ := Option.isSome_iff_exists.1 hok
    rw [show Sample.cache = cache by unfold Sample.cache; rw [hcache]; rfl]
    exact toOption_eq_some.1 hcache
  · intro source hsource anchor hanchor
    obtain rfl : source = Sample.source := List.mem_singleton.1 hsource
    have hvalid : (Sample.anchors[Sample.source.id]?).all (fun anchor =>
        (checkStrategySnapshot Sample.source anchor).isOk) = true := by decide +kernel
    rw [hanchor, Option.all_some] at hvalid
    cases hcheck : checkStrategySnapshot Sample.source anchor with
    | error e =>
      rw [hcheck] at hvalid
      cases hvalid
    | ok u => rfl

end CtaManager
