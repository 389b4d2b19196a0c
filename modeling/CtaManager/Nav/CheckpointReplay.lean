import CtaManager.Nav.Activation
import CtaManager.Nav.Checkpoint
import CtaManager.Nav.PreparedForm

/-!
The loop of `CachedTimelineSource.replay`.

Its state is that of the plain run of the fills (`replayFill_state`): taking a
checkpoint only activates the snapshot early.  A checkpoint records the run of
the fills before it (`takenAt_of_replayFills`); all of them are earlier than the
checkpoint hour, and no later fill is (`ReplayInv`).
-/

namespace CtaManager

open Check StableSort FirstSeen

variable {F : Type}

/-! ## Checkpoint hours -/

theorem checkpointHour_le (t : Int) : checkpointHour t ≤ t := by
  unfold checkpointHour CHECKPOINT_US
  omega

theorem lt_checkpointHour_add (t : Int) : t < checkpointHour t + CHECKPOINT_US := by
  unfold checkpointHour CHECKPOINT_US
  omega

theorem lt_followingCheckpoint (t : Int) : t < followingCheckpoint t := by
  unfold followingCheckpoint CHECKPOINT_US
  omega

theorem checkpointHour_emod (t : Int) : checkpointHour t % CHECKPOINT_US = 0 := by
  unfold checkpointHour
  exact Int.mul_emod_left _ _

theorem followingCheckpoint_emod (t : Int) : followingCheckpoint t % CHECKPOINT_US = 0 := by
  unfold followingCheckpoint
  exact Int.mul_emod_left _ _

/-- The hour of a time is the last one not after it. -/
theorem le_checkpointHour (n t : Int) (hn : n % CHECKPOINT_US = 0) (h : n ≤ t) :
    n ≤ checkpointHour t := by
  unfold checkpointHour CHECKPOINT_US at *
  omega

theorem checkpointHour_eq (n t : Int) (hn : n % CHECKPOINT_US = 0) (h : n ≤ t)
    (h' : t < n + CHECKPOINT_US) : checkpointHour t = n := by
  unfold checkpointHour CHECKPOINT_US at *
  omega

/-! ## One fill -/

variable [F64 F]

open TimelineSourceState

/-- The new sightings of a fill. -/
def ReplayState.see (strategyAllocationActive : Bool) (replay : ReplayState F)
    (fill : PreparedFill F) : ReplayState F :=
  { replay with
    symbols := note replay.symbols fill.event.symbol fill.fillTsUs
    strategies := note replay.strategies (strategyRow strategyAllocationActive fill) fill.fillTsUs }

theorem replayFill_eq_ok {active : Bool} {replay replay' : ReplayState F} {fill : PreparedFill F}
    {index : Nat} :
    replayFill active replay (fill, index) = .ok replay' ↔
      ∃ state, ((replay.see active fill).checkpoint fill.fillTsUs index).state.applyFill fill =
          .ok state ∧
        replay' = { (replay.see active fill).checkpoint fill.fillTsUs index with state } := by
  unfold replayFill
  simp only
  rw [bind_eq_ok]
  constructor
  · rintro ⟨state, hs, h⟩
    exact ⟨state, hs, (Except.ok.inj h).symm⟩
  · rintro ⟨state, hs, rfl⟩
    exact ⟨state, hs, rfl⟩

omit [F64 F] in
theorem checkpoint_of_needs {replay : ReplayState F} {tsUs : Int} (index : Nat)
    (h : needsCheckpoint replay.nextCheckpoint tsUs = true) :
    replay.checkpoint tsUs index =
      { replay with
        state := replay.state.activateSnapshotAt (checkpointHour tsUs)
        checkpoints := replay.checkpoints ++ [⟨checkpointHour tsUs, index,
          replay.state.activateSnapshotAt (checkpointHour tsUs)⟩]
        nextCheckpoint := some (checkpointHour tsUs + CHECKPOINT_US) } := by
  unfold ReplayState.checkpoint
  rw [if_pos h]

omit [F64 F] in
theorem checkpoint_of_not_needs {replay : ReplayState F} {tsUs : Int} (index : Nat)
    (h : needsCheckpoint replay.nextCheckpoint tsUs = false) :
    replay.checkpoint tsUs index = replay := by
  unfold ReplayState.checkpoint
  rw [if_neg (by simp [h])]

theorem replayFill_of_needs {active : Bool} {replay : ReplayState F} {fill : PreparedFill F}
    (index : Nat) (h : needsCheckpoint replay.nextCheckpoint fill.fillTsUs = true) :
    replayFill active replay (fill, index) =
      ((replay.state.activateSnapshotAt (checkpointHour fill.fillTsUs)).applyFill fill >>= fun state =>
        .ok { replay.see active fill with
          state
          checkpoints := replay.checkpoints ++ [⟨checkpointHour fill.fillTsUs, index,
            replay.state.activateSnapshotAt (checkpointHour fill.fillTsUs)⟩]
          nextCheckpoint := some (checkpointHour fill.fillTsUs + CHECKPOINT_US) }) := by
  have := @checkpoint_of_needs F (replay.see active fill) fill.fillTsUs index h
  unfold replayFill
  change (do
    let state ← ((replay.see active fill).checkpoint fill.fillTsUs index).state.applyFill fill
    return { (replay.see active fill).checkpoint fill.fillTsUs index with state }) = _
  rw [this]
  rfl

theorem replayFill_of_not_needs {active : Bool} {replay : ReplayState F} {fill : PreparedFill F}
    (index : Nat) (h : needsCheckpoint replay.nextCheckpoint fill.fillTsUs = false) :
    replayFill active replay (fill, index) =
      (replay.state.applyFill fill >>= fun state =>
        .ok { replay.see active fill with state }) := by
  have := @checkpoint_of_not_needs F (replay.see active fill) fill.fillTsUs index h
  unfold replayFill
  change (do
    let state ← ((replay.see active fill).checkpoint fill.fillTsUs index).state.applyFill fill
    return { (replay.see active fill).checkpoint fill.fillTsUs index with state }) = _
  rw [this]
  rfl

/-- Taking a checkpoint does not change what the fill does. -/
theorem replayFill_state {active : Bool} {replay replay' : ReplayState F} {fill : PreparedFill F}
    {index : Nat} (hs : replay.state.Ordered) (hf : replay.state.AfterSnapshot fill.fillTsUs)
    (h : replayFill active replay (fill, index) = .ok replay') :
    replay.state.applyFill fill = .ok replay'.state := by
  obtain ⟨state, hstate, rfl⟩ := replayFill_eq_ok.1 h
  simp only
  rw [← hstate]
  by_cases hn : needsCheckpoint (replay.see active fill).nextCheckpoint fill.fillTsUs = true
  · rw [checkpoint_of_needs index hn]
    exact (applyFill_activateSnapshotAt replay.state _ fill hs hf).symm
  · rw [checkpoint_of_not_needs index (by simpa using hn)]
    rfl

/-! ## The run -/

/-- The loop over `fills`, the first of which has index `first`. -/
def replayFills (active : Bool) (start : ReplayState F) (first : Nat)
    (fills : List (PreparedFill F)) : Except NavError (ReplayState F) :=
  (fills.zipIdx first).foldlM (replayFill active) start

theorem replayFills_append (active : Bool) (start : ReplayState F) (first : Nat)
    (l₁ l₂ : List (PreparedFill F)) :
    replayFills active start first (l₁ ++ l₂) =
      (replayFills active start first l₁ >>= fun replay =>
        replayFills active replay (first + l₁.length) l₂) := by
  unfold replayFills
  rw [List.zipIdx_append, foldlM_append]

theorem replayFills_cons (active : Bool) (start : ReplayState F) (first : Nat)
    (fill : PreparedFill F) (l : List (PreparedFill F)) :
    replayFills active start first (fill :: l) =
      (replayFill active start (fill, first) >>= fun replay =>
        replayFills active replay (first + 1) l) := by
  unfold replayFills
  rw [List.zipIdx_cons, foldlM_cons]

theorem replayFills_nil (active : Bool) (start : ReplayState F) (first : Nat) :
    replayFills active start first [] = .ok start := rfl

/-- What holds between the fills replayed so far and the replay state. -/
structure ReplayInv (active : Bool) (start : ReplayState F) (fills : List (PreparedFill F))
    (replay : ReplayState F) : Prop where
  ordered : replay.state.Ordered
  allocations_eq : replay.state.allocations = start.state.allocations
  snapshotTsUs_eq : replay.state.snapshotTsUs = start.state.snapshotTsUs
  run : fills.foldlM applyFill start.state = .ok replay.state
  symbols_eq : replay.symbols =
    noteAll start.symbols (fills.map fun fill => (fill.event.symbol, fill.fillTsUs))
  strategies_eq : replay.strategies =
    noteAll start.strategies (fills.map fun fill => (strategyRow active fill, fill.fillTsUs))
  next_isSome : start.nextCheckpoint.isSome → replay.nextCheckpoint.isSome
  next_emod : ∀ n, replay.nextCheckpoint = some n → n % CHECKPOINT_US = 0
  snapshot_lt : ∀ n, replay.nextCheckpoint = some n →
    ∀ ts, start.state.snapshotTsUs = some ts → ts < n
  fills_lt : ∀ n, replay.nextCheckpoint = some n → ∀ fill ∈ fills, fill.fillTsUs < n
  checkpoints_lt : ∀ n, replay.nextCheckpoint = some n →
    ∀ cp ∈ replay.checkpoints, cp.tsUs < n
  checkpoints_sorted : replay.checkpoints.Pairwise fun a b => a.tsUs < b.tsUs

/-- The replay can start from here. -/
structure ReplayStart (start : ReplayState F) : Prop where
  ordered : start.state.Ordered
  checkpoints_eq : start.checkpoints = []
  next_emod : ∀ n, start.nextCheckpoint = some n → n % CHECKPOINT_US = 0
  snapshot_lt : ∀ n, start.nextCheckpoint = some n →
    ∀ ts, start.state.snapshotTsUs = some ts → ts < n

theorem ReplayStart.inv {start : ReplayState F} (active : Bool) (h : ReplayStart start) :
    ReplayInv active start [] start where
  ordered := h.ordered
  allocations_eq := rfl
  snapshotTsUs_eq := rfl
  run := rfl
  symbols_eq := rfl
  strategies_eq := rfl
  next_isSome := id
  next_emod := h.next_emod
  snapshot_lt := h.snapshot_lt
  fills_lt := fun _ _ _ h => absurd h List.not_mem_nil
  checkpoints_lt := by simp [h.checkpoints_eq]
  checkpoints_sorted := by simp [h.checkpoints_eq]

/-- One fill keeps the invariant, whichever way the checkpoint test goes. -/
theorem ReplayInv.step {active : Bool} {start replay replay' : ReplayState F}
    {fills : List (PreparedFill F)} {fill : PreparedFill F} {index : Nat}
    (hi : ReplayInv active start fills replay)
    (hsorted : ∀ g ∈ fills, g.fillTsUs ≤ fill.fillTsUs)
    (hafter : start.state.AfterSnapshot fill.fillTsUs)
    (h : replayFill active replay (fill, index) = .ok replay') :
    ReplayInv active start (fills ++ [fill]) replay' := by
  have hafter' : replay.state.AfterSnapshot fill.fillTsUs := by
    intro ts hts
    exact hafter ts (by rw [← hi.snapshotTsUs_eq, hts])
  have hstate := replayFill_state hi.ordered hafter' h
  obtain ⟨hf1, -, hf3, -⟩ := applyFill_fields hstate
  obtain ⟨state, -, hrep⟩ := replayFill_eq_ok.1 h
  have hsym : replay'.symbols = note replay.symbols fill.event.symbol fill.fillTsUs ∧
      replay'.strategies =
        note replay.strategies (strategyRow active fill) fill.fillTsUs := by
    by_cases hn : needsCheckpoint (replay.see active fill).nextCheckpoint fill.fillTsUs = true
    · rw [hrep, checkpoint_of_needs index hn]
      exact ⟨rfl, rfl⟩
    · rw [hrep, checkpoint_of_not_needs index (by simpa using hn)]
      exact ⟨rfl, rfl⟩
  have common : replay'.state.Ordered ∧ replay'.state.allocations = start.state.allocations ∧
      replay'.state.snapshotTsUs = start.state.snapshotTsUs ∧
      (fills ++ [fill]).foldlM applyFill start.state = .ok replay'.state ∧
      replay'.symbols = noteAll start.symbols
        ((fills ++ [fill]).map fun fill => (fill.event.symbol, fill.fillTsUs)) ∧
      replay'.strategies = noteAll start.strategies
        ((fills ++ [fill]).map fun fill => (strategyRow active fill, fill.fillTsUs)) := by
    refine ⟨applyFill_ordered hstate hi.ordered, hf1.trans hi.allocations_eq,
      hf3.trans hi.snapshotTsUs_eq, ?_, ?_, ?_⟩
    · rw [foldlM_append, hi.run]
      change (applyFill replay.state fill >>= fun s => .ok s) = _
      rw [hstate]
      rfl
    · rw [List.map_append, noteAll_append, ← hi.symbols_eq, hsym.1]
      rfl
    · rw [List.map_append, noteAll_append, ← hi.strategies_eq, hsym.2]
      rfl
  obtain ⟨c1, c2, c3, c4, c5, c6⟩ := common
  by_cases hn : needsCheckpoint (replay.see active fill).nextCheckpoint fill.fillTsUs = true
  · -- the fill opens a checkpoint hour: every earlier fill and checkpoint is before it
    obtain ⟨n, hnext, hle⟩ : ∃ n, replay.nextCheckpoint = some n ∧ n ≤ fill.fillTsUs := by
      obtain ⟨n, hn1, hn2⟩ := (Option.any_eq_true _ _).1 hn
      exact ⟨n, hn1, by simpa using hn2⟩
    have hhour := le_checkpointHour n _ (hi.next_emod n hnext) hle
    rw [checkpoint_of_needs index hn] at hrep
    have hnext' : replay'.nextCheckpoint = some (checkpointHour fill.fillTsUs + CHECKPOINT_US) := by
      rw [hrep]
    have hcps : replay'.checkpoints = replay.checkpoints ++
        [⟨checkpointHour fill.fillTsUs, index,
          replay.state.activateSnapshotAt (checkpointHour fill.fillTsUs)⟩] := by
      rw [hrep]
      rfl
    have hlt := lt_checkpointHour_add fill.fillTsUs
    have hpos : (0 : Int) < CHECKPOINT_US := by decide
    refine ⟨c1, c2, c3, c4, c5, c6, fun _ => by rw [hnext']; rfl, ?_, ?_, ?_, ?_, ?_⟩
    · intro m hm
      rw [hnext', Option.some.injEq] at hm
      rw [← hm, Int.add_emod_right, checkpointHour_emod]
    · intro m hm ts hts
      rw [hnext', Option.some.injEq] at hm
      have := hi.snapshot_lt n hnext ts hts
      omega
    · intro m hm g hg
      rw [hnext', Option.some.injEq] at hm
      rcases List.mem_append.1 hg with hg | hg
      · have := hsorted g hg
        omega
      · rw [List.mem_singleton.1 hg]
        omega
    · intro m hm cp hcp
      rw [hnext', Option.some.injEq] at hm
      rw [hcps] at hcp
      rcases List.mem_append.1 hcp with hcp | hcp
      · have := hi.checkpoints_lt n hnext cp hcp
        omega
      · rw [List.mem_singleton.1 hcp]
        simp only
        omega
    · rw [hcps, List.pairwise_append]
      refine ⟨hi.checkpoints_sorted, List.pairwise_singleton _ _, fun cp hcp cp' hcp' => ?_⟩
      rw [List.mem_singleton.1 hcp']
      have := hi.checkpoints_lt n hnext cp hcp
      simp only
      omega
  · have hn' : needsCheckpoint (replay.see active fill).nextCheckpoint fill.fillTsUs = false := by
      simpa using hn
    rw [checkpoint_of_not_needs index hn'] at hrep
    have hnext' : replay'.nextCheckpoint = replay.nextCheckpoint := by
      rw [hrep]
      rfl
    have hcps : replay'.checkpoints = replay.checkpoints := by
      rw [hrep]
      rfl
    refine ⟨c1, c2, c3, c4, c5, c6, fun hsome => ?_, ?_, ?_, ?_, ?_, ?_⟩
    · rw [hnext']
      exact hi.next_isSome hsome
    · rw [hnext']
      exact hi.next_emod
    · rw [hnext']
      exact hi.snapshot_lt
    · intro n hm g hg
      rw [hnext'] at hm
      rcases List.mem_append.1 hg with hg | hg
      · exact hi.fills_lt n hm g hg
      · rw [List.mem_singleton.1 hg]
        have hnn : needsCheckpoint (some n) fill.fillTsUs = false := by rw [← hm]; exact hn'
        simpa [needsCheckpoint] using hnn
    · rw [hnext', hcps]
      exact hi.checkpoints_lt
    · rw [hcps]
      exact hi.checkpoints_sorted

theorem replayFills_inv {active : Bool} {start replay : ReplayState F}
    {fills : List (PreparedFill F)} (hstart : ReplayStart start) (hsorted : SortedFills fills)
    (hafter : ∀ fill ∈ fills, start.state.AfterSnapshot fill.fillTsUs)
    (h : replayFills active start 0 fills = .ok replay) : ReplayInv active start fills replay := by
  induction fills using List.reverseRecOn generalizing replay with
  | nil =>
    cases h
    exact hstart.inv active
  | append_singleton fills fill ih =>
    rw [replayFills_append] at h
    obtain ⟨mid, hmid, hlast⟩ := bind_eq_ok.1 h
    rw [replayFills_cons] at hlast
    obtain ⟨last, hfill, hnil⟩ := bind_eq_ok.1 hlast
    cases hnil
    rw [SortedFills, List.pairwise_append] at hsorted
    have hinv := ih hsorted.1 (fun g hg => hafter g (List.mem_append_left _ hg)) hmid
    exact hinv.step (fun g hg => hsorted.2.2 g hg fill (List.mem_singleton_self _))
      (hafter fill (List.mem_append_right _ (List.mem_singleton_self _))) hfill

/-! ## Where a checkpoint was taken -/

/-- `cp` follows the checkpoints `earlier`; it was taken at the first fill of
its hour and holds the run of the fills before that one. -/
def TakenAt (active : Bool) (start : ReplayState F) (fills : List (PreparedFill F))
    (earlier : List (FifoCheckpoint F)) (cp : FifoCheckpoint F) : Prop :=
  ∃ front fill back replay, fills = front ++ fill :: back ∧
    replayFills active start 0 front = .ok replay ∧ replay.checkpoints = earlier ∧
    needsCheckpoint replay.nextCheckpoint fill.fillTsUs = true ∧
    cp = ⟨checkpointHour fill.fillTsUs, front.length,
      replay.state.activateSnapshotAt (checkpointHour fill.fillTsUs)⟩

theorem takenAt_of_replayFills {active : Bool} {start replay : ReplayState F}
    {fills : List (PreparedFill F)} (hstart : start.checkpoints = [])
    (h : replayFills active start 0 fills = .ok replay) (earlier later : List (FifoCheckpoint F))
    (cp : FifoCheckpoint F) (hcp : replay.checkpoints = earlier ++ cp :: later) :
    TakenAt active start fills earlier cp := by
  induction fills using List.reverseRecOn generalizing replay later with
  | nil =>
    cases h
    simp [hstart] at hcp
  | append_singleton fills fill ih =>
    rw [replayFills_append] at h
    obtain ⟨mid, hmid, hlast⟩ := bind_eq_ok.1 h
    rw [replayFills_cons, Nat.zero_add] at hlast
    obtain ⟨last, hfill, hnil⟩ := bind_eq_ok.1 hlast
    cases hnil
    obtain ⟨state, -, hrep⟩ := replayFill_eq_ok.1 hfill
    have extend : ∀ later, mid.checkpoints = earlier ++ cp :: later →
        TakenAt active start (fills ++ [fill]) earlier cp := by
      intro later hlater
      obtain ⟨front, g, back, r, rfl, hr⟩ := ih hmid later hlater
      exact ⟨front, g, back ++ [fill], r, by simp, hr⟩
    by_cases hn : needsCheckpoint (mid.see active fill).nextCheckpoint fill.fillTsUs = true
    · rw [checkpoint_of_needs _ hn] at hrep
      have hcps : mid.checkpoints ++ [⟨checkpointHour fill.fillTsUs, fills.length,
          mid.state.activateSnapshotAt (checkpointHour fill.fillTsUs)⟩] =
          earlier ++ cp :: later := by
        rw [← hcp, hrep]
        rfl
      rcases List.eq_nil_or_concat later with rfl | ⟨later, x, rfl⟩
      · obtain ⟨hear, hlast⟩ := List.append_inj' hcps rfl
        rw [List.cons.injEq] at hlast
        exact ⟨fills, fill, [], mid, rfl, hmid, hear, hn, hlast.1.symm⟩
      · rw [List.concat_eq_append, ← List.cons_append, ← List.append_assoc] at hcps
        exact extend later (List.append_inj' hcps rfl).1
    · rw [checkpoint_of_not_needs _ (by simpa using hn)] at hrep
      refine extend later ?_
      rw [← hcp, hrep]
      rfl

/-! ## A full build -/

namespace CachedTimelineSource

/-- Where the full replay of a source starts. -/
def startOf (state : TimelineSourceState F) (prepared : PreparedSourceEvents F) : ReplayState F :=
  { state
    checkpoints := []
    symbols := noteAll ∅ (allocationSymbols prepared.allocations)
    strategies := noteAll ∅ (allocationStrategies prepared.allocations)
    nextCheckpoint := firstCheckpoint prepared }

theorem build_eq {source : SourceConfig F} {prepared : PreparedSourceEvents F} (count : Nat) :
    build source prepared count = (initialTimelineState source prepared >>= fun state =>
      replayFills prepared.strategyAllocationActive (startOf state prepared) 0
        prepared.fillEvents >>= fun replay => finish source prepared count replay) := by
  unfold build replay
  rfl

theorem initialTimelineState_fields {source : SourceConfig F} {p : PreparedSourceEvents F}
    {state : TimelineSourceState F} (h : initialTimelineState source p = .ok state) :
    state.allocations = p.allocations ∧ state.snapshotTsUs = p.snapshotTsUs ∧
      state.nextAllocation = 0 ∧
      state.strategyAllocationActive = p.strategyAllocationActive := by
  unfold initialTimelineState at h
  obtain ⟨_, -, hs⟩ := bind_eq_ok.1 h
  cases hs
  exact ⟨rfl, rfl, rfl, rfl⟩

theorem startOf_replayStart {source : SourceConfig F} {p : PreparedSourceEvents F}
    {state : TimelineSourceState F} (hcorr : CorrectionsAfter p)
    (h : initialTimelineState source p = .ok state) : ReplayStart (startOf state p) := by
  obtain ⟨h1, h2, -⟩ := initialTimelineState_fields h
  refine ⟨fun a ha ts hts => ?_, rfl, fun n hn => ?_, fun n hn ts hts => ?_⟩
  · change a ∈ state.allocations at ha
    change state.snapshotTsUs = some ts at hts
    rw [h1] at ha
    exact (hcorr a ha ts (h2 ▸ hts)).le
  · obtain ⟨t, -, rfl⟩ := Option.map_eq_some_iff.1 hn
    exact followingCheckpoint_emod t
  · change state.snapshotTsUs = some ts at hts
    obtain ⟨t, ht, rfl⟩ := Option.map_eq_some_iff.1 hn
    rw [← h2, hts, Option.some_or, Option.some.injEq] at ht
    subst ht
    exact lt_followingCheckpoint ts

/-- A full build, taken apart. -/
theorem build_eq_ok {source : SourceConfig F} {p : PreparedSourceEvents F} {count : Nat}
    {cached : CachedTimelineSource F} (hcorr : CorrectionsAfter p) (horder : FillsInOrder p)
    (h : build source p count = .ok cached) :
    ∃ state replay₀, initialTimelineState source p = .ok state ∧
      replayFills p.strategyAllocationActive (startOf state p) 0 p.fillEvents = .ok replay₀ ∧
      ReplayInv p.strategyAllocationActive (startOf state p) p.fillEvents replay₀ ∧
      finish source p count replay₀ = .ok cached := by
  rw [build_eq] at h
  obtain ⟨state, hstate, h⟩ := bind_eq_ok.1 h
  obtain ⟨replay₀, hreplay, hfinish⟩ := bind_eq_ok.1 h
  obtain ⟨hs1, hs2, -⟩ := initialTimelineState_fields hstate
  exact ⟨state, replay₀, hstate, hreplay, replayFills_inv (startOf_replayStart hcorr hstate)
    horder.sorted (fun fill hfill ts hts => (horder.after fill hfill ts (hs2 ▸ hts)).le) hreplay,
    hfinish⟩

/-- What a replay keeps is what the cached source answers with. -/
theorem finish_fields {source : SourceConfig F} {p : PreparedSourceEvents F} {count : Nat}
    {replay : ReplayState F} {cached : CachedTimelineSource F}
    (h : finish source p count replay = .ok cached) :
    cached.prepared = p ∧ cached.checkpoints = replay.checkpoints ∧
      cached.symbols = replay.symbols ∧ cached.strategies = replay.strategies ∧
      cached.nextCheckpoint = replay.nextCheckpoint := by
  unfold finish at h
  obtain ⟨_, -, hs⟩ := bind_eq_ok.1 h
  cases hs
  exact ⟨rfl, rfl, rfl, rfl, rfl⟩

end CachedTimelineSource

end CtaManager
