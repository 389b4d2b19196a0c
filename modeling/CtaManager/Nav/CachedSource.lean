import CtaManager.Nav.CheckpointReplay
import CtaManager.Nav.Timeline

/-!
A cached source inside a query.

A checkpoint at or before the start of the window stands for the fills before
it (`startCheckpoint_eq_some`).  From the start on, the checkpoint with the later
fills and the opening state with all fills are the same source
(`baseline_of_checkpoint`).
-/

namespace CtaManager

open Check StableSort FirstSeen PartitionPoint

variable {F : Type} [F64 F]

namespace TimelineSourceState

/-! ## Fills settle the snapshot -/

omit [F64 F] in
theorem activated_of_settled {s : TimelineSourceState F} (h₁ : s.pendingInitialStates = none)
    (h₂ : s.pendingInitialStrategyStates = none) : s.activated = s := by
  unfold activated activateStrategies activateAccount
  simp only [h₁, h₂]

omit [F64 F] in
theorem activated_settled (s : TimelineSourceState F) :
    s.activated.pendingInitialStates = none ∧ s.activated.pendingInitialStrategyStates = none := by
  unfold activated activateStrategies activateAccount
  cases ha : s.pendingInitialStates <;> cases hs : s.pendingInitialStrategyStates <;>
    simp [ha, hs]

/-- After a fill there is nothing left to activate. -/
theorem applyFill_settled {s s' : TimelineSourceState F} {fill : PreparedFill F}
    (h : s.applyFill fill = .ok s') (hfill : s.AfterSnapshot fill.fillTsUs) (t : Int) :
    s'.activateSnapshotAt t = s' := by
  obtain ⟨-, -, hsnap, -⟩ := applyFill_fields h
  rw [applyFill_eq] at h
  obtain ⟨u, hu, hb⟩ := bind_eq_ok.1 h
  obtain ⟨-, -, husnap, -⟩ := advanceBefore_fields hu
  cases hs : s.snapshotTsUs with
  | none =>
    refine activateSnapshotAt_of_not_reached s' t ?_
    simp [snapshotReached, hsnap, hs]
  | some ts =>
    have hreach : u.snapshotReached fill.fillTsUs = true := by
      simpa [snapshotReached, husnap, hs] using hfill ts hs
    rw [activateSnapshotAt_of_reached u _ hreach] at hb
    obtain ⟨h₁, h₂⟩ := activated_settled u
    have hset : s'.activated = s' := by
      rw [bookFill_frame hb]
      exact activated_of_settled h₁ h₂
    rcases activateSnapshotAt_cases s' t with hc | hc
    · exact hc
    · rw [hc, hset]

theorem foldlM_applyFill_fields {l : List (PreparedFill F)} {s s' : TimelineSourceState F}
    (h : l.foldlM applyFill s = .ok s') :
    s'.allocations = s.allocations ∧ s'.snapshotTsUs = s.snapshotTsUs ∧
      s'.strategyAllocationActive = s.strategyAllocationActive := by
  refine foldlM_invariant (P := fun u => u.allocations = s.allocations ∧
    u.snapshotTsUs = s.snapshotTsUs ∧
    u.strategyAllocationActive = s.strategyAllocationActive) ?_ h ⟨rfl, rfl, rfl⟩
  rintro fill - u u' ⟨h1, h2, h3⟩ hfill
  obtain ⟨g1, -, g3, -, g5⟩ := applyFill_fields hfill
  exact ⟨g1.trans h1, g3.trans h2, g5.trans h3⟩

theorem foldlM_applyFill_ordered {l : List (PreparedFill F)} {s s' : TimelineSourceState F}
    (h : l.foldlM applyFill s = .ok s') (hs : s.Ordered) : s'.Ordered :=
  foldlM_invariant (fun _ _ _ _ hu hfill => applyFill_ordered hfill hu) h hs

/-- An activation before a run of fills can wait until after it. -/
theorem foldlM_applyFill_activateSnapshotAt (s : TimelineSourceState F) (t : Int)
    (l : List (PreparedFill F)) (hs : s.Ordered)
    (hl : ∀ fill ∈ l, s.AfterSnapshot fill.fillTsUs) :
    l.foldlM applyFill (s.activateSnapshotAt t) =
      (l.foldlM applyFill s >>= fun s => .ok (s.activateSnapshotAt t)) := by
  induction l using List.reverseRecOn with
  | nil => rfl
  | append_singleton l fill ih =>
    have hl' : ∀ g ∈ l, s.AfterSnapshot g.fillTsUs :=
      fun g hg => hl g (List.mem_append_left _ hg)
    have hlast : s.AfterSnapshot fill.fillTsUs :=
      hl fill (List.mem_append_right _ (List.mem_singleton_self _))
    rw [foldlM_append, foldlM_append, ih hl', bind_assoc, bind_assoc]
    refine bind_congr_ok fun u hu => ?_
    obtain ⟨-, husnap, -⟩ := foldlM_applyFill_fields hu
    have hafter : u.AfterSnapshot fill.fillTsUs := by
      intro ts hts
      exact hlast ts (husnap ▸ hts)
    have hcommute := applyFill_activateSnapshotAt u t fill (foldlM_applyFill_ordered hu hs) hafter
    rw [ok_bind, foldlM_cons, foldlM_cons, hcommute, bind_assoc]
    refine bind_congr_ok fun v hv => ?_
    rw [foldlM_nil, ok_bind, applyFill_settled hv hafter]

end TimelineSourceState

/-! ## The fills of the window -/

omit [F64 F] in
/-- The fills of the window after a checkpoint. -/
theorem windowFills_eq_filter (front back : List (PreparedFill F)) (endTsUs : Int)
    (hsorted : SortedFills (front ++ back)) :
    windowFills (front ++ back) front.length endTsUs =
      back.filter fun fill => decide (fill.fillTsUs ≤ endTsUs) := by
  have hpart : Partitioned (fun fill : PreparedFill F => decide (fill.fillTsUs ≤ endTsUs))
      (front ++ back) := by
    refine hsorted.imp fun {a b} hab => ?_
    simp only [decide_eq_true_eq]
    omega
  have htake := take_partitionPoint_eq_filter _ _ hpart
  unfold windowFills
  generalize hn : partitionPoint
    (fun fill : PreparedFill F => decide (fill.fillTsUs ≤ endTsUs)) (front ++ back) = n at htake ⊢
  rcases Nat.le_total front.length n with hle | hle
  · -- every fill before the checkpoint is in the window
    rw [List.take_append, List.take_of_length_le hle, List.filter_append] at htake
    have hfront : front.filter (fun fill => decide (fill.fillTsUs ≤ endTsUs)) = front := by
      refine List.filter_eq_self.2 fun fill hfill => ?_
      have hmem : ∀ fill ∈ (front ++ back).take n, decide (fill.fillTsUs ≤ endTsUs) = true := by
        rw [← hn]
        exact take_partitionPoint _ _ hpart
      refine hmem fill ?_
      rw [List.take_append, List.take_of_length_le hle]
      exact List.mem_append_left _ hfill
    rw [hfront, List.append_cancel_left_eq] at htake
    simp only [Nat.min_eq_left hle, List.drop_left, htake]
  · -- the window ends before the checkpoint
    have hnone : ∀ fill ∈ back, ¬ decide (fill.fillTsUs ≤ endTsUs) = true := by
      intro fill hfill
      have hdrop := drop_partitionPoint _ _ hpart
      rw [hn] at hdrop
      refine hdrop fill ?_
      rw [List.drop_append_of_le_length hle]
      exact List.mem_append_right _ hfill
    simp only [Nat.sub_eq_zero_of_le hle, List.take_zero, List.filter_eq_nil_iff.2 hnone]

/-! ## Where the query starts -/

/-- A source as a query takes it up: `state` after the fills `front`, with the
fills `back` still to come. -/
structure OpenedAt (initial : TimelineSourceState F) (fills : List (PreparedFill F))
    (request : NavTimelineRequest) (front back : List (PreparedFill F))
    (state : TimelineSourceState F) : Prop where
  fills_eq : fills = front ++ back
  /-- Nothing happened yet, or `state` is the run of `front` before the start. -/
  reached : front = [] ∧ state = initial ∨
    ∃ tsUs start mid, request.startTsUs = some start ∧ tsUs ≤ start ∧
      front.foldlM TimelineSourceState.applyFill initial = .ok mid ∧
      state = mid.activateSnapshotAt tsUs ∧ initial.AfterSnapshot tsUs ∧
      ∀ fill ∈ front, fill.fillTsUs < tsUs

namespace CachedTimelineSource

theorem openedAt_startCheckpoint {source : SourceConfig F} {p : PreparedSourceEvents F}
    {count : Nat} {cached : CachedTimelineSource F} (hcorr : CorrectionsAfter p)
    (horder : FillsInOrder p) (hbuild : build source p count = .ok cached)
    (request : NavTimelineRequest) {cp : FifoCheckpoint F}
    (hcp : startCheckpoint cached request.startTsUs = some cp) :
    ∃ initial front back, initialTimelineState source p = .ok initial ∧
      cp.nextFill = front.length ∧
      OpenedAt initial p.fillEvents request front back cp.state := by
  obtain ⟨state, replay₀, hstate, hreplay, hinv, hfinish⟩ := build_eq_ok hcorr horder hbuild
  obtain ⟨-, hcps, -⟩ := finish_fields hfinish
  obtain ⟨hs1, hs2, -⟩ := initialTimelineState_fields hstate
  unfold startCheckpoint at hcp
  obtain ⟨start, hstart, hlast⟩ := Option.bind_eq_some_iff.1 hcp
  have hpart : Partitioned (fun cp : FifoCheckpoint F => decide (cp.tsUs ≤ start))
      cached.checkpoints := by
    rw [hcps]
    refine hinv.checkpoints_sorted.imp fun {a b} hab => ?_
    simp only [decide_eq_true_eq]
    omega
  have hle : cp.tsUs ≤ start := by
    have := take_partitionPoint _ _ hpart cp (List.mem_of_getLast? hlast)
    simpa using this
  obtain ⟨earlier, hearlier⟩ := List.getLast?_eq_some_iff.1 hlast
  have hsplit : replay₀.checkpoints = earlier ++ cp :: cached.checkpoints.drop
      (partitionPoint (fun cp => decide (cp.tsUs ≤ start)) cached.checkpoints) := by
    rw [← hcps]
    conv_lhs => rw [← List.take_append_drop
      (partitionPoint (fun cp => decide (cp.tsUs ≤ start)) cached.checkpoints) cached.checkpoints]
    rw [hearlier, List.append_assoc, List.singleton_append]
  obtain ⟨front, fill, back, replay₁, hfills, hfront, -, hneeds, hcpeq⟩ :=
    takenAt_of_replayFills rfl hreplay _ _ _ hsplit
  have hsorted := horder.sorted
  rw [hfills, SortedFills, List.pairwise_append] at hsorted
  have hinv₁ := replayFills_inv (startOf_replayStart hcorr hstate) hsorted.1
    (fun f hf ts hts => (horder.after f (by rw [hfills]; exact List.mem_append_left _ hf) ts
      (hs2 ▸ hts)).le) hfront
  obtain ⟨n, hnext, hnle⟩ : ∃ n, replay₁.nextCheckpoint = some n ∧ n ≤ fill.fillTsUs := by
    obtain ⟨n, hn1, hn2⟩ := (Option.any_eq_true _ _).1 hneeds
    exact ⟨n, hn1, by simpa using hn2⟩
  have hhour := le_checkpointHour n _ (hinv₁.next_emod n hnext) hnle
  subst hcpeq
  refine ⟨state, front, fill :: back, hstate, rfl, hfills, Or.inr ⟨checkpointHour fill.fillTsUs,
    start, replay₁.state, hstart, hle, hinv₁.run, rfl, fun ts hts => ?_, fun f hf => ?_⟩⟩
  · have := hinv₁.snapshot_lt n hnext ts hts
    omega
  · have := hinv₁.fills_lt n hnext f hf
    omega

/-- Every fill of a cached source can be booked. -/
theorem run_of_build {source : SourceConfig F} {p : PreparedSourceEvents F} {count : Nat}
    {cached : CachedTimelineSource F} (hcorr : CorrectionsAfter p) (horder : FillsInOrder p)
    (hbuild : build source p count = .ok cached) :
    ∃ initial final, initialTimelineState source p = .ok initial ∧
      p.fillEvents.foldlM TimelineSourceState.applyFill initial = .ok final := by
  obtain ⟨state, replay₀, hstate, -, hinv, -⟩ := build_eq_ok hcorr horder hbuild
  exact ⟨state, replay₀.state, hstate, hinv.run⟩

end CachedTimelineSource

/-! ## The state at the start -/

/-- From the start of the window on, a checkpoint and its later fills are the
opening state and all fills. -/
theorem baseline_of_openedAt {initial final state : TimelineSourceState F}
    {fills front back : List (PreparedFill F)} {request : NavTimelineRequest}
    (hopen : OpenedAt initial fills request front back state) (hordered : initial.Ordered)
    (hafter : ∀ fill ∈ fills, initial.AfterSnapshot fill.fillTsUs) (hsorted : SortedFills fills)
    (hrun : fills.foldlM TimelineSourceState.applyFill initial = .ok final) (start : Int)
    (hstart : ∀ ts, request.startTsUs = some ts → ts ≤ start) :
    ∃ baseline,
      (fills.filter fun fill => decide (fill.fillTsUs < start)).foldlM
        TimelineSourceState.applyFill (initial.activateSnapshotAt start) = .ok baseline ∧
      (back.filter fun fill => decide (fill.fillTsUs < start)).foldlM
        TimelineSourceState.applyFill (state.activateSnapshotAt start) = .ok baseline := by
  have hfills := hopen.fills_eq
  subst hfills
  -- the fills before the start come first, so the run of all fills passes through them
  have hpart : Partitioned (fun fill : PreparedFill F => decide (fill.fillTsUs < start))
      (front ++ back) := by
    refine hsorted.imp fun {a b} hab => ?_
    simp only [decide_eq_true_eq]
    omega
  obtain ⟨mid, hmid⟩ : ∃ mid, ((front ++ back).filter fun fill =>
      decide (fill.fillTsUs < start)).foldlM TimelineSourceState.applyFill initial = .ok mid := by
    rw [← take_partitionPoint_eq_filter _ _ hpart]
    rw [← List.take_append_drop (partitionPoint
      (fun fill : PreparedFill F => decide (fill.fillTsUs < start)) (front ++ back))
      (front ++ back), foldlM_append] at hrun
    obtain ⟨mid, hmid, -⟩ := bind_eq_ok.1 hrun
    exact ⟨mid, hmid⟩
  have hbase : ((front ++ back).filter fun fill => decide (fill.fillTsUs < start)).foldlM
      TimelineSourceState.applyFill (initial.activateSnapshotAt start) =
      .ok (mid.activateSnapshotAt start) := by
    rw [TimelineSourceState.foldlM_applyFill_activateSnapshotAt initial start _ hordered
      fun fill hfill => hafter fill (List.mem_of_mem_filter hfill), hmid]
    rfl
  refine ⟨mid.activateSnapshotAt start, hbase, ?_⟩
  rcases hopen.reached with ⟨rfl, rfl⟩ | ⟨tsUs, begin, taken, hbegin, hle, hfront, rfl, hts, hlt⟩
  · exact hbase
  · have hbegins := hstart begin hbegin
    have hall : front.filter (fun fill => decide (fill.fillTsUs < start)) = front :=
      List.filter_eq_self.2 fun fill hfill => by
        have := hlt fill hfill
        simp only [decide_eq_true_eq]
        omega
    have htaken := TimelineSourceState.foldlM_applyFill_activateSnapshotAt initial start front
      hordered fun fill hfill => hafter fill (List.mem_append_left _ hfill)
    obtain ⟨-, htakensnap, -⟩ := TimelineSourceState.foldlM_applyFill_fields hfront
    rw [hfront, ok_bind] at htaken
    rw [List.filter_append, hall, foldlM_append, htaken, ok_bind] at hbase
    rw [TimelineSourceState.activateSnapshotAt_of_afterSnapshot taken tsUs start]
    · exact hbase
    · intro ts h
      have := hts ts (htakensnap ▸ h)
      omega

end CtaManager
