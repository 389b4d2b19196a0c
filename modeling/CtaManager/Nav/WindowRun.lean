import CtaManager.Nav.Timeline

/-!
Two replays of a window side by side.

`WindowSimulation` lists what two views have to agree on, step by step: a sample,
an event, the closing step.  Ticks only fall between the moments of the events, so
a sample comes when every event of its moment is applied.  Two windows that start
alike then end alike (`WindowSimulation.runWindow`).
-/

namespace CtaManager

open Check

variable {F : Type} [F64 F]

/-- The closing step of a window. -/
def closeRuntime (endTsUs : Int) (runtime : TimelineSourceState F) :
    Except NavError (TimelineSourceState F) :=
  (runtime.activateSnapshotAt endTsUs).advanceAllocations endTsUs true

theorem mapM_closeRuntime (endTsUs : Int) (runtimes : List (TimelineSourceState F)) :
    runtimes.mapM (closeRuntime endTsUs) =
      (runtimes.map fun runtime => runtime.activateSnapshotAt endTsUs).mapM fun runtime =>
        runtime.advanceAllocations endTsUs true := by
  induction runtimes with
  | nil => rfl
  | cons runtime runtimes ih =>
    rw [List.mapM_cons, List.map_cons, List.mapM_cons, ih]
    rfl

/-- Two views whose replays keep `R`, which speaks of the events still to come. -/
structure WindowSimulation (view view' : TimelineView F)
    (R : List (TimelineEvent F) → TimelineRun F → TimelineRun F → Prop) : Prop where
  end_eq : view'.endTsUs = view.endTsUs
  interval_eq : view'.tickIntervalUs = view.tickIntervalUs
  nextTick : ∀ rest run run', R rest run run' → run'.nextTickTsUs = run.nextTickTsUs
  setTick : ∀ rest run run' tick, R rest run run' →
    R rest { run with nextTickTsUs := tick } { run' with nextTickTsUs := tick }
  sample : ∀ rest run run' tsUs next, R rest run run' → tsUs ≤ view.endTsUs →
    (∀ event ∈ rest, tsUs < event.tsUs) → pushTimelineSample view tsUs run = .ok next →
    ∃ next', pushTimelineSample view' tsUs run' = .ok next' ∧ R rest next next'
  event : ∀ event rest run run' runtimes, R (event :: rest) run run' →
    applyTimelineEvent run.runtimes event = .ok runtimes →
    ∃ runtimes', applyTimelineEvent run'.runtimes event = .ok runtimes' ∧
      R rest { run with runtimes } { run' with runtimes := runtimes' }
  close : ∀ rest run run' runtimes, R rest run run' → (∀ event ∈ rest, view.endTsUs < event.tsUs) →
    run.runtimes.mapM (closeRuntime view.endTsUs) = .ok runtimes →
    ∃ runtimes', run'.runtimes.mapM (closeRuntime view.endTsUs) = .ok runtimes' ∧
      R rest { run with runtimes } { run' with runtimes := runtimes' }

namespace WindowSimulation

variable {view view' : TimelineView F}
  {R : List (TimelineEvent F) → TimelineRun F → TimelineRun F → Prop}
  {rest : List (TimelineEvent F)} {run run' next : TimelineRun F}

theorem pushTick (h : WindowSimulation view view' R) (hR : R rest run run')
    (hend : run.nextTickTsUs ≤ view.endTsUs)
    (hrest : ∀ event ∈ rest, run.nextTickTsUs < event.tsUs)
    (hstep : pushTick view run = .ok next) :
    ∃ next', CtaManager.pushTick view' run' = .ok next' ∧ R rest next next' := by
  unfold CtaManager.pushTick at hstep ⊢
  obtain ⟨sampled, hsampled, hstep⟩ := bind_eq_ok.1 hstep
  cases hstep
  obtain ⟨sampled', hsampled', hR'⟩ := h.sample rest run run' _ sampled hR hend hrest hsampled
  rw [h.nextTick _ _ _ hR, hsampled', h.interval_eq]
  refine ⟨_, rfl, ?_⟩
  have htick := h.nextTick _ _ _ hR'
  have := h.setTick _ _ _ (sampled.nextTickTsUs + view.tickIntervalUs) hR'
  rw [htick]
  exact this

theorem pushTicksLoop (h : WindowSimulation view view' R) {boundTsUs : Int}
    (hrest : ∀ event ∈ rest, boundTsUs ≤ event.tsUs) (rounds : Nat) (hR : R rest run run')
    (hstep : pushTicksLoop view boundTsUs rounds run = .ok next) :
    ∃ next', CtaManager.pushTicksLoop view' boundTsUs rounds run' = .ok next' ∧
      R rest next next' := by
  induction rounds generalizing run run' with
  | zero =>
    cases hstep
    exact ⟨run', rfl, hR⟩
  | succ rounds ih =>
    unfold CtaManager.pushTicksLoop at hstep ⊢
    rw [h.end_eq, h.nextTick _ _ _ hR]
    split at hstep
    · rename_i hdue
      obtain ⟨ticked, hticked, hstep⟩ := bind_eq_ok.1 hstep
      obtain ⟨ticked', hticked', hR'⟩ := h.pushTick hR hdue.2.le (fun event hevent =>
        lt_of_lt_of_le hdue.1 (hrest event hevent)) hticked
      rw [if_pos hdue, hticked', ok_bind]
      exact ih hR' hstep
    · rename_i hdue
      cases hstep
      rw [if_neg hdue]
      exact ⟨run', rfl, hR⟩

theorem pushTicksBefore (h : WindowSimulation view view' R) {boundTsUs : Int}
    (hrest : ∀ event ∈ rest, boundTsUs ≤ event.tsUs) (hR : R rest run run')
    (hstep : pushTicksBefore view boundTsUs run = .ok next) :
    ∃ next', CtaManager.pushTicksBefore view' boundTsUs run' = .ok next' ∧ R rest next next' := by
  unfold CtaManager.pushTicksBefore at hstep ⊢
  rw [h.nextTick _ _ _ hR]
  exact h.pushTicksLoop hrest _ hR hstep

theorem pushTickAt (h : WindowSimulation view view' R) {tsUs : Int}
    (hrest : ∀ event ∈ rest, tsUs < event.tsUs) (hR : R rest run run')
    (hstep : pushTickAt view tsUs run = .ok next) :
    ∃ next', CtaManager.pushTickAt view' tsUs run' = .ok next' ∧ R rest next next' := by
  unfold CtaManager.pushTickAt at hstep ⊢
  rw [h.end_eq, h.nextTick _ _ _ hR]
  split at hstep
  · rename_i hdue
    rw [if_pos hdue]
    exact h.pushTick hR hdue.2 (fun event hevent => hdue.1 ▸ hrest event hevent) hstep
  · rename_i hdue
    cases hstep
    rw [if_neg hdue]
    exact ⟨run', rfl, hR⟩

/-- The events of a window that are applied, and those after its end. -/
theorem applyWindow (h : WindowSimulation view view' R) (events : List (TimelineEvent F))
    (hsorted : events.Pairwise fun a b => a.tsUs ≤ b.tsUs) (hR : R events run run')
    (hstep : applyWindow view events run = .ok next) :
    ∃ next' rest, CtaManager.applyWindow view' events run' = .ok next' ∧ R rest next next' ∧
      ∀ event ∈ rest, view.endTsUs < event.tsUs := by
  induction events generalizing run run' with
  | nil =>
    cases hstep
    exact ⟨run', [], rfl, hR, fun event hevent => absurd hevent List.not_mem_nil⟩
  | cons event events ih =>
    rw [List.pairwise_cons] at hsorted
    have hfrom : ∀ e ∈ event :: events, event.tsUs ≤ e.tsUs :=
      List.forall_mem_cons.2 ⟨le_rfl, hsorted.1⟩
    unfold CtaManager.applyWindow at hstep ⊢
    rw [h.end_eq]
    split at hstep
    · rename_i hlate
      cases hstep
      rw [if_pos hlate]
      exact ⟨run', event :: events, rfl, hR, fun e he => lt_of_lt_of_le hlate (hfrom e he)⟩
    · rename_i hlate
      rw [if_neg hlate]
      obtain ⟨ticked, hticked, hstep⟩ := bind_eq_ok.1 hstep
      obtain ⟨ticked', hticked', hR₁⟩ := h.pushTicksBefore hfrom hR hticked
      obtain ⟨runtimes, hruntimes, hstep⟩ := bind_eq_ok.1 hstep
      obtain ⟨runtimes', hruntimes', hR₂⟩ := h.event _ _ _ _ _ hR₁ hruntimes
      rw [hticked', ok_bind, hruntimes', ok_bind]
      dsimp only at hstep ⊢
      -- a tick of this moment waits for the last of its events
      by_cases hnext : events.head?.any (fun e => decide (e.tsUs = event.tsUs)) = true
      · rw [if_pos hnext] at hstep ⊢
        rw [ok_bind] at hstep ⊢
        exact ih hsorted.2 hR₂ hstep
      · rw [if_neg hnext] at hstep ⊢
        obtain ⟨paused, hpaused, hstep⟩ := bind_eq_ok.1 hstep
        have hlater : ∀ e ∈ events, event.tsUs < e.tsUs := by
          cases events with
          | nil => exact fun e he => absurd he List.not_mem_nil
          | cons first events =>
            have hfirst : event.tsUs < first.tsUs := by
              have hle := hsorted.1 first List.mem_cons_self
              have hne : ¬ first.tsUs = event.tsUs := by simpa using hnext
              omega
            refine List.forall_mem_cons.2 ⟨hfirst, fun e he => ?_⟩
            have := (List.pairwise_cons.1 hsorted.2).1 e he
            omega
        obtain ⟨paused', hpaused', hR₃⟩ := h.pushTickAt hlater hR₂ hpaused
        rw [hpaused', ok_bind]
        exact ih hsorted.2 hR₃ hstep

/-- Two windows that agree on their first sample agree to the end. -/
theorem runWindow (h : WindowSimulation view view' R) {startTsUs : Int}
    {events : List (TimelineEvent F)} (hsorted : events.Pairwise fun a b => a.tsUs ≤ b.tsUs)
    {runtimes runtimes' : List (TimelineSourceState F)}
    (hfirst : ∀ first, pushTimelineSample view startTsUs
        { runtimes, points := [], pointsBySymbol := noPoints view.selectedSymbols,
          pointsByStrategy := noPoints view.availableStrategies, nextTickTsUs := 0 } = .ok first →
      ∃ first', pushTimelineSample view' startTsUs
          { runtimes := runtimes', points := [],
            pointsBySymbol := noPoints view'.selectedSymbols,
            pointsByStrategy := noPoints view'.availableStrategies, nextTickTsUs := 0 } =
            .ok first' ∧ R events first first')
    (hstep : runWindow view startTsUs events runtimes = .ok next) :
    ∃ next' rest, CtaManager.runWindow view' startTsUs events runtimes' = .ok next' ∧
      R rest next next' ∧ ∀ event ∈ rest, view.endTsUs < event.tsUs := by
  unfold CtaManager.runWindow at hstep ⊢
  obtain ⟨first, hsample, hstep⟩ := bind_eq_ok.1 hstep
  obtain ⟨first', hsample', hR₁⟩ := hfirst first hsample
  obtain ⟨⟨⟩, hinterval, hstep⟩ := bind_eq_ok.1 hstep
  have hR₂ := h.setTick _ _ _ (nextTimelineTick startTsUs view.tickIntervalUs) hR₁
  dsimp only at hstep ⊢
  obtain ⟨applied, happlied, hstep⟩ := bind_eq_ok.1 hstep
  obtain ⟨applied', rest, happlied', hR₃, hrest⟩ := h.applyWindow events hsorted hR₂ happlied
  obtain ⟨ticked, hticked, hstep⟩ := bind_eq_ok.1 hstep
  obtain ⟨ticked', hticked', hR₄⟩ := h.pushTicksBefore (fun e he => (hrest e he).le) hR₃ hticked
  obtain ⟨states, hstates, hstep⟩ := bind_eq_ok.1 hstep
  obtain ⟨states', hstates', hR₅⟩ := h.close _ _ _ _ hR₄ hrest hstates
  obtain ⟨next', hnext', hR₆⟩ := h.sample _ _ _ _ _ hR₅ le_rfl hrest hstep
  refine ⟨next', rest, ?_, hR₆, hrest⟩
  rw [hsample', ok_bind, h.interval_eq, hinterval, ok_bind, happlied', ok_bind, h.end_eq, hticked', ok_bind]
  show (ticked'.runtimes.mapM (closeRuntime view.endTsUs) >>= _) = _
  rw [hstates', ok_bind]
  exact hnext'

end WindowSimulation

end CtaManager
