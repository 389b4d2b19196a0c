import CtaManager.Nav.CheckpointReplay

/-!
`CachedTimelineSource.refresh` against a full rebuild, for sources without
corrections.

Appending new fills at the end is the full replay cut after the old fills
(`refreshAppend_eq_build`).  Replaying from the last checkpoint at or before the
first change is the full replay cut at that checkpoint, because the fills before
it are the same ones (`refreshTail_eq_build`).
-/

namespace CtaManager

open Check StableSort FirstSeen PartitionPoint TimelineSourceState

variable {F : Type} [F64 F]

namespace CachedTimelineSource

/-- Two preparations of a source with the same opening. -/
structure SameOpening (p q : PreparedSourceEvents F) : Prop where
  allocations : q.allocations = p.allocations
  snapshotTsUs : q.snapshotTsUs = p.snapshotTsUs
  initialStates : q.initialStates = p.initialStates
  initialStrategyStates : q.initialStrategyStates = p.initialStrategyStates
  active : q.strategyAllocationActive = p.strategyAllocationActive

theorem SameOpening.initialTimelineState_eq {p q : PreparedSourceEvents F} (h : SameOpening p q)
    (source : SourceConfig F) : initialTimelineState source q = initialTimelineState source p := by
  unfold initialTimelineState
  rw [h.allocations, h.snapshotTsUs, h.initialStates, h.initialStrategyStates, h.active]

theorem finish_eq {source : SourceConfig F} {p : PreparedSourceEvents F} (count : Nat)
    {replay : ReplayState F} (hall : replay.state.allocations = []) :
    finish source p count replay = .ok {
      prepared := p
      checkpoints := replay.checkpoints
      symbols := replay.symbols
      strategies := replay.strategies
      report := sourceReport source p count (replay.state.activateSnapshotAt i64Max)
      endState := replay.state.activateSnapshotAt i64Max
      nextCheckpoint := replay.nextCheckpoint } := by
  unfold finish
  rw [advanceAllocations_eq, advanceBefore, activateSnapshotAt_allocations, hall, List.drop_nil]
  rfl

/-- An early activation changes neither a fill nor the end of a replay. -/
theorem replayFills_activate (source : SourceConfig F) (p : PreparedSourceEvents F) (count : Nat)
    {active : Bool} {start replay : ReplayState F} {fills : List (PreparedFill F)}
    (hi : ReplayInv active start fills replay) (hall : start.state.allocations = [])
    (l : List (PreparedFill F)) (hl : ∀ fill ∈ l, replay.state.AfterSnapshot fill.fillTsUs)
    (first : Nat) :
    (replayFills active { replay with state := replay.state.activateSnapshotAt i64Max } first l >>=
        fun replay => finish source p count replay) =
      (replayFills active replay first l >>= fun replay => finish source p count replay) := by
  cases l with
  | nil =>
    have hnil : replay.state.allocations = [] := hi.allocations_eq.trans hall
    rw [replayFills_nil, replayFills_nil, ok_bind, ok_bind, finish_eq count hnil,
      finish_eq count (by simpa using hnil)]
    simp only [activateSnapshotAt_of_le replay.state i64Max i64Max le_rfl]
  | cons fill l =>
    have hafter := hl fill List.mem_cons_self
    suffices h : replayFill active
        { replay with state := replay.state.activateSnapshotAt i64Max } (fill, first) =
        replayFill active replay (fill, first) by
      rw [replayFills_cons, replayFills_cons, h]
    by_cases hn : needsCheckpoint replay.nextCheckpoint fill.fillTsUs = true
    · -- a checkpoint hour after the snapshot activates it anyway
      obtain ⟨n, hnext, hle⟩ : ∃ n, replay.nextCheckpoint = some n ∧ n ≤ fill.fillTsUs := by
        obtain ⟨n, hn1, hn2⟩ := (Option.any_eq_true _ _).1 hn
        exact ⟨n, hn1, by simpa using hn2⟩
      have hhour := le_checkpointHour n _ (hi.next_emod n hnext) hle
      have hreach : replay.state.AfterSnapshot (checkpointHour fill.fillTsUs) := by
        intro ts hts
        rw [hi.snapshotTsUs_eq] at hts
        have := hi.snapshot_lt n hnext ts hts
        omega
      refine (@replayFill_of_needs F _ active { replay with
        state := replay.state.activateSnapshotAt i64Max } fill first hn).trans
        (Eq.trans ?_ (replayFill_of_needs first hn).symm)
      simp only [activateSnapshotAt_of_afterSnapshot replay.state i64Max _ hreach]
      rfl
    · have hn' : needsCheckpoint replay.nextCheckpoint fill.fillTsUs = false := by simpa using hn
      refine (@replayFill_of_not_needs F _ active { replay with
        state := replay.state.activateSnapshotAt i64Max } fill first hn').trans
        (Eq.trans ?_ (replayFill_of_not_needs first hn').symm)
      simp only [applyFill_activateSnapshotAt replay.state i64Max fill hi.ordered hafter]
      rfl

/-- A full build of a source without corrections, taken apart. -/
theorem build_eq_ok_of_nil {source : SourceConfig F} {p : PreparedSourceEvents F} {count : Nat}
    {cached : CachedTimelineSource F} (hall : p.allocations = []) (horder : FillsInOrder p)
    (h : build source p count = .ok cached) :
    ∃ state replay₀, initialTimelineState source p = .ok state ∧
      replayFills p.strategyAllocationActive (startOf state p) 0 p.fillEvents = .ok replay₀ ∧
      ReplayInv p.strategyAllocationActive (startOf state p) p.fillEvents replay₀ ∧
      cached.endState = replay₀.state.activateSnapshotAt i64Max ∧
      cached.checkpoints = replay₀.checkpoints ∧ cached.symbols = replay₀.symbols ∧
      cached.strategies = replay₀.strategies ∧ cached.nextCheckpoint = replay₀.nextCheckpoint := by
  obtain ⟨state, replay₀, hstate, hreplay, hinv, hfinish⟩ :=
    build_eq_ok (correctionsAfter_of_nil hall) horder h
  obtain ⟨hs1, -⟩ := initialTimelineState_fields hstate
  rw [finish_eq count (hinv.allocations_eq.trans (hs1.trans hall))] at hfinish
  cases hfinish
  exact ⟨state, replay₀, hstate, hreplay, hinv, rfl, rfl, rfl, rfl, rfl⟩

/-- The next checkpoint, when only the new fills may give a first hour to count from. -/
def nextFrom (nextCheckpoint : Option Int) (fills : List (PreparedFill F)) : Option Int :=
  nextCheckpoint.or ((fills.head?.map PreparedFill.fillTsUs).map followingCheckpoint)

/-- New fills after all known ones: the full replay, cut after the known ones. -/
theorem replay_end_eq_build {source : SourceConfig F} {p q : PreparedSourceEvents F}
    {count : Nat} {cached : CachedTimelineSource F} (hbuild : build source p count = .ok cached)
    (hall : p.allocations = []) (hq : SameOpening p q) (added : List (PreparedFill F))
    (hfills : q.fillEvents = p.fillEvents ++ added) (horder : FillsInOrder q) :
    replay source q count p.fillEvents.length
        { state := cached.endState, checkpoints := cached.checkpoints, symbols := cached.symbols,
          strategies := cached.strategies,
          nextCheckpoint := nextFrom cached.nextCheckpoint q.fillEvents } =
      build source q count := by
  have hallq : q.allocations = [] := hq.allocations.trans hall
  have hsorted := horder.sorted
  rw [hfills] at hsorted
  have horderp : FillsInOrder p := by
    refine ⟨(List.pairwise_append.1 hsorted).1, fun fill hfill ts hts => ?_⟩
    refine horder.after fill ?_ ts (hq.snapshotTsUs.trans hts)
    rw [hfills]
    exact List.mem_append_left _ hfill
  obtain ⟨state, replay₀, hstate, hreplay, hinv, hc1, hc2, hc3, hc4, hc5⟩ :=
    build_eq_ok_of_nil hall horderp hbuild
  obtain ⟨hs1, hs2, -⟩ := initialTimelineState_fields hstate
  have hstateq := (hq.initialTimelineState_eq source).trans hstate
  have hcut : replayFills p.strategyAllocationActive (startOf state q) 0 p.fillEvents =
      .ok { replay₀ with nextCheckpoint := nextFrom replay₀.nextCheckpoint q.fillEvents } := by
    rcases hp : p.fillEvents with _ | ⟨fill, rest⟩
    · rw [hp] at hreplay
      cases hreplay
      rw [replayFills_nil]
      simp only [startOf, firstCheckpoint, nextFrom, hfills, hp, hq.snapshotTsUs, hq.allocations]
      cases p.snapshotTsUs <;> rfl
    · have hfirst : firstCheckpoint q = firstCheckpoint p := by
        simp only [firstCheckpoint, hfills, hp, hq.snapshotTsUs]
        rfl
      have hsome : (startOf state p).nextCheckpoint.isSome := by
        simp only [startOf, firstCheckpoint, hp]
        cases p.snapshotTsUs <;> rfl
      obtain ⟨n, hn⟩ := Option.isSome_iff_exists.1 (hinv.next_isSome hsome)
      have hstart : startOf state q = startOf state p := by
        simp only [startOf, hfirst, hq.allocations]
      rw [nextFrom, hn, Option.some_or, ← hn, hstart, ← hp, hreplay]
  have hinvq := replayFills_inv (startOf_replayStart (correctionsAfter_of_nil hallq) hstateq) horderp.sorted
    (fun fill hfill ts hts => (horderp.after fill hfill ts (hs2 ▸ hts)).le) hcut
  have hact := replayFills_activate source q count hinvq (hs1.trans hall) added
    (fun fill hfill ts hts => by
      rw [hinvq.snapshotTsUs_eq] at hts
      refine (horder.after fill ?_ ts (hq.snapshotTsUs.trans (hs2 ▸ hts))).le
      rw [hfills]
      exact List.mem_append_right _ hfill)
    p.fillEvents.length
  rw [build_eq, hstateq, ok_bind, hq.active, hfills, replayFills_append, hcut, ok_bind,
    Nat.zero_add, ← hact, ← hfills]
  unfold CachedTimelineSource.replay
  simp only [hallq, hq.active, hc1, hc2, hc3, hc4, hc5]
  rw [show q.fillEvents.drop p.fillEvents.length = added by rw [hfills, List.drop_left]]
  rfl

theorem refreshAppend_eq_build {source : SourceConfig F} {p q : PreparedSourceEvents F}
    {count : Nat} {cached : CachedTimelineSource F} (hbuild : build source p count = .ok cached)
    (hall : p.allocations = []) (hq : SameOpening p q) (hfills : q.fillEvents = p.fillEvents)
    (added fills : List (PreparedFill F)) (happend : fills = p.fillEvents ++ added)
    (horder : FillsInOrder { q with fillEvents := fills }) :
    cached.refreshAppend source q added count =
      build source { q with fillEvents := fills } count := by
  have hq' : SameOpening p { q with fillEvents := fills } :=
    ⟨hq.allocations, hq.snapshotTsUs, hq.initialStates, hq.initialStrategyStates, hq.active⟩
  have h := replay_end_eq_build hbuild hall hq' added happend horder
  unfold refreshAppend
  simp only [hfills, ← happend]
  exact h

/-- The replay from a checkpoint is the full replay of any fills that agree
with the old ones before the checkpoint and start in its hour. -/
theorem replay_checkpoint_eq_build {source : SourceConfig F} {p q : PreparedSourceEvents F}
    {count : Nat} {cached : CachedTimelineSource F} (hbuild : build source p count = .ok cached)
    (hall : p.allocations = []) (hq : SameOpening p q) (horder : FillsInOrder p)
    (earlier later : List (FifoCheckpoint F)) (cp : FifoCheckpoint F)
    (hcps : cached.checkpoints = earlier ++ cp :: later) (front : List (PreparedFill F))
    (g fill : PreparedFill F) (rest back : List (PreparedFill F))
    (hp : p.fillEvents = front ++ fill :: back) (hcp : cp.nextFill = front.length)
    (hqf : q.fillEvents = front ++ g :: rest) (hg : cp.tsUs ≤ g.fillTsUs)
    (hgf : g.fillTsUs ≤ fill.fillTsUs) :
    replay source q count cp.nextFill
        { state := cp.state, checkpoints := earlier ++ [cp],
          symbols := before cp.tsUs cached.symbols, strategies := before cp.tsUs cached.strategies,
          nextCheckpoint := some (cp.tsUs + CHECKPOINT_US) } =
      build source q count := by
  have hallq : q.allocations = [] := hq.allocations.trans hall
  obtain ⟨state, replay₀, hstate, hreplay, hinv, hc1, hc2, hc3, hc4, hc5⟩ :=
    build_eq_ok_of_nil hall horder hbuild
  obtain ⟨hs1, hs2, -⟩ := initialTimelineState_fields hstate
  have hstateq := (hq.initialTimelineState_eq source).trans hstate
  obtain ⟨front', fill', back', replay₁, hfill, hfront, hear, hneeds, rfl⟩ :=
    takenAt_of_replayFills rfl hreplay earlier later cp (hc2 ▸ hcps)
  -- the checkpoint sits where the statement says
  obtain ⟨rfl, hrest⟩ := List.append_inj (hp.symm.trans hfill) (by simpa using hcp.symm)
  obtain ⟨rfl, rfl⟩ := List.cons.inj hrest
  have hsorted := horder.sorted
  rw [hp, SortedFills, List.pairwise_append] at hsorted
  have hinv₁ := replayFills_inv (startOf_replayStart (correctionsAfter_of_nil hall) hstate) hsorted.1
    (fun f hf ts hts => (horder.after f (by rw [hp]; exact List.mem_append_left _ hf) ts
      (hs2 ▸ hts)).le) hfront
  obtain ⟨n, hnext, hle⟩ : ∃ n, replay₁.nextCheckpoint = some n ∧ n ≤ fill.fillTsUs := by
    obtain ⟨n, hn1, hn2⟩ := (Option.any_eq_true _ _).1 hneeds
    exact ⟨n, hn1, by simpa using hn2⟩
  have hhour := le_checkpointHour n _ (hinv₁.next_emod n hnext) hle
  have hlt := lt_checkpointHour_add fill.fillTsUs
  simp only at hg
  have hghour : checkpointHour g.fillTsUs = checkpointHour fill.fillTsUs :=
    checkpointHour_eq _ _ (checkpointHour_emod _) hg (by omega)
  have hneedsg : needsCheckpoint replay₁.nextCheckpoint g.fillTsUs = true := by
    rw [hnext]
    simp only [needsCheckpoint, Option.any_some, decide_eq_true_eq]
    omega
  have hstart : startOf state q = startOf state p := by
    have : firstCheckpoint q = firstCheckpoint p := by
      rcases front with _ | ⟨f, front⟩
      · -- a checkpoint before the first fill needs a snapshot to count from
        cases hfront
        cases hts : p.snapshotTsUs with
        | none =>
          have hn : n = followingCheckpoint fill.fillTsUs := by
            have : (startOf state p).nextCheckpoint = some (followingCheckpoint fill.fillTsUs) := by
              simp only [startOf, firstCheckpoint, hts, hp]
              rfl
            rw [this, Option.some.injEq] at hnext
            exact hnext.symm
          have := lt_followingCheckpoint fill.fillTsUs
          omega
        | some ts => simp only [firstCheckpoint, hq.snapshotTsUs, hts, Option.some_or]
      · simp only [firstCheckpoint, hp, hqf, hq.snapshotTsUs]
        rfl
    simp only [startOf, this, hq.allocations]
  have hbefore : ∀ name : PreparedFill F → String,
      before (checkpointHour fill.fillTsUs)
        (noteAll ∅ (p.fillEvents.map fun f => (name f, f.fillTsUs))) =
        noteAll ∅ (front.map fun f => (name f, f.fillTsUs)) := by
    intro name
    rw [hp, List.map_append]
    refine before_noteAll_append _ _ _ (fun x hx => ?_) (fun x hx => ?_)
    · obtain ⟨f, hf, rfl⟩ := List.mem_map.1 hx
      have := hinv₁.fills_lt n hnext f hf
      simp only
      omega
    · obtain ⟨f, hf, rfl⟩ := List.mem_map.1 hx
      have hbase := checkpointHour_le fill.fillTsUs
      rcases List.mem_cons.1 hf with rfl | hf
      · exact hbase
      · have := (List.pairwise_cons.1 hsorted.2.1).1 f hf
        simp only
        omega
  have hnone : (startOf state p).symbols = ∅ ∧ (startOf state p).strategies = ∅ := by
    simp only [startOf, hall, allocationSymbols, allocationStrategies, List.flatMap_nil,
      noteAll_nil, and_self]
  have hsym : before (checkpointHour fill.fillTsUs) cached.symbols = replay₁.symbols := by
    rw [hc3, hinv.symbols_eq, hinv₁.symbols_eq, hnone.1]
    exact hbefore fun f => f.event.symbol
  have hstr : before (checkpointHour fill.fillTsUs) cached.strategies = replay₁.strategies := by
    rw [hc4, hinv.strategies_eq, hinv₁.strategies_eq, hnone.2]
    exact hbefore (strategyRow p.strategyAllocationActive)
  have hnot : needsCheckpoint (some (checkpointHour fill.fillTsUs + CHECKPOINT_US))
      g.fillTsUs = false := by
    simp only [needsCheckpoint, Option.any_some, decide_eq_false_iff_not, not_le]
    omega
  rw [build_eq, hstateq, ok_bind, hq.active, hstart, hqf, replayFills_append, hfront,
    ok_bind, Nat.zero_add, replayFills_cons, replayFill_of_needs _ hneedsg]
  unfold CachedTimelineSource.replay
  have hdrop : q.fillEvents.drop front.length = g :: rest := by rw [hqf, List.drop_left]
  simp only [hallq, hq.active, hdrop, hsym, hstr, List.zipIdx_cons, foldlM_cons]
  have hstep := @replayFill_of_not_needs F _ p.strategyAllocationActive
    { state := replay₁.state.activateSnapshotAt (checkpointHour fill.fillTsUs),
      checkpoints := earlier ++ [⟨checkpointHour fill.fillTsUs, front.length,
        replay₁.state.activateSnapshotAt (checkpointHour fill.fillTsUs)⟩],
      symbols := replay₁.symbols, strategies := replay₁.strategies,
      nextCheckpoint := some (checkpointHour fill.fillTsUs + CHECKPOINT_US) } g front.length hnot
  simp only [hghour]
  rw [← hear] at hstep ⊢
  exact congrArg (fun x => (x >>= fun replay => (rest.zipIdx (front.length + 1)).foldlM
    (replayFill p.strategyAllocationActive) replay) >>= fun replay =>
      finish source q count replay) hstep

/-- A change from `firstChangedTs` on: the full replay, cut at the last
checkpoint that is not later. -/
theorem refreshTail_eq_build {source : SourceConfig F} {p q : PreparedSourceEvents F}
    {count : Nat} {cached : CachedTimelineSource F} (hbuild : build source p count = .ok cached)
    (hall : p.allocations = []) (hq : SameOpening p q) (horderp : FillsInOrder p)
    (horder : FillsInOrder q) (firstChangedTs : Int) (kept old new : List (PreparedFill F))
    (hp : p.fillEvents = kept ++ old) (hqf : q.fillEvents = kept ++ new)
    (hold : ∀ fill ∈ old, firstChangedTs ≤ fill.fillTsUs)
    (hnew : ∀ fill ∈ new, firstChangedTs ≤ fill.fillTsUs)
    (hcover : ∀ fill ∈ old, ∃ fill' ∈ new, fill'.fillTsUs = fill.fillTsUs) :
    cached.refreshTail source q firstChangedTs count = build source q count := by
  obtain ⟨state, replay₀, hstate, hreplay, hinv, hc1, hc2, hc3, hc4, hc5⟩ :=
    build_eq_ok_of_nil hall horderp hbuild
  obtain ⟨hs1, hs2, -⟩ := initialTimelineState_fields hstate
  unfold refreshTail
  have hpart : Partitioned (fun cp : FifoCheckpoint F => decide (cp.tsUs ≤ firstChangedTs))
      cached.checkpoints := by
    rw [hc2]
    refine hinv.checkpoints_sorted.imp fun {a b} hab => ?_
    simp only [decide_eq_true_eq]
    omega
  rcases List.eq_nil_or_concat (cached.checkpoints.take (partitionPoint
      (fun cp => decide (cp.tsUs ≤ firstChangedTs)) cached.checkpoints)) with hnil | ⟨earlier, cp, hcp⟩
  · simp only [hnil, List.getLast?_nil]
  · rw [List.concat_eq_append] at hcp
    have hle : cp.tsUs ≤ firstChangedTs := by
      have := take_partitionPoint _ _ hpart cp (by rw [hcp]; simp)
      simpa using this
    simp only [hcp, List.getLast?_concat]
    have hsplit : cached.checkpoints = earlier ++ cp :: cached.checkpoints.drop (partitionPoint
        (fun cp => decide (cp.tsUs ≤ firstChangedTs)) cached.checkpoints) := by
      have := List.take_append_drop (partitionPoint
        (fun cp => decide (cp.tsUs ≤ firstChangedTs)) cached.checkpoints) cached.checkpoints
      rw [hcp, List.append_assoc, List.singleton_append] at this
      exact this.symm
    obtain ⟨front, fill, back, replay₁, hfill, hfront, -, hneeds, hcpeq⟩ :=
      takenAt_of_replayFills rfl hreplay _ _ _ (hc2 ▸ hsplit)
    have hcpts : cp.tsUs = checkpointHour fill.fillTsUs := by rw [hcpeq]
    have hbase := checkpointHour_le fill.fillTsUs
    have hsorted := horderp.sorted
    rw [hfill, SortedFills, List.pairwise_append] at hsorted
    have hinv₁ := replayFills_inv (startOf_replayStart (correctionsAfter_of_nil hall) hstate) hsorted.1
      (fun f hf ts hts => (horderp.after f (by rw [hfill]; exact List.mem_append_left _ hf) ts
        (hs2 ▸ hts)).le) hfront
    obtain ⟨n, hnext, hnle⟩ : ∃ n, replay₁.nextCheckpoint = some n ∧ n ≤ fill.fillTsUs := by
      obtain ⟨n, hn1, hn2⟩ := (Option.any_eq_true _ _).1 hneeds
      exact ⟨n, hn1, by simpa using hn2⟩
    have hhour := le_checkpointHour n _ (hinv₁.next_emod n hnext) hnle
    -- the fills before the checkpoint are among the kept ones
    obtain ⟨mid, hkeptmid, hmid⟩ : ∃ mid, kept = front ++ mid ∧ fill :: back = mid ++ old := by
      rcases List.append_eq_append_iff.1 (hfill.symm.trans hp) with ⟨mid, h1, h2⟩ | ⟨mid, h1, h2⟩
      · exact ⟨mid, h1, h2⟩
      · rcases mid with _ | ⟨m, mid⟩
        · exact ⟨[], by simpa using h1.symm, by simpa using h2.symm⟩
        · have hm1 : m ∈ front := by rw [h1]; simp
          have hm2 : m ∈ old := by rw [h2]; simp
          have := hinv₁.fills_lt n hnext m hm1
          have := hold m hm2
          omega
    have hsortedq := horder.sorted
    rw [hqf, hkeptmid, List.append_assoc, SortedFills, List.pairwise_append] at hsortedq
    obtain ⟨g, rest, hrest, hg, hgf⟩ : ∃ g rest, mid ++ new = g :: rest ∧
        cp.tsUs ≤ g.fillTsUs ∧ g.fillTsUs ≤ fill.fillTsUs := by
      rcases mid with _ | ⟨m, mid⟩
      · rw [List.nil_append] at hmid
        obtain ⟨f', hf', hts⟩ := hcover fill (by rw [← hmid]; simp)
        rcases new with _ | ⟨g, rest⟩
        · exact absurd hf' List.not_mem_nil
        · refine ⟨g, rest, rfl, le_trans hle (hnew g List.mem_cons_self), ?_⟩
          rw [List.nil_append] at hsortedq
          rcases List.mem_cons.1 hf' with rfl | hf'
          · omega
          · have := (List.pairwise_cons.1 hsortedq.2.1).1 f' hf'
            omega
      · obtain ⟨rfl, -⟩ := List.cons.inj hmid
        exact ⟨fill, mid ++ new, rfl, by omega, le_rfl⟩
    refine replay_checkpoint_eq_build hbuild hall hq horderp earlier _ cp hsplit front g fill rest
      back hfill (by rw [hcpeq]) ?_ hg hgf
    rw [hqf, hkeptmid, List.append_assoc, hrest]

end CachedTimelineSource

end CtaManager
