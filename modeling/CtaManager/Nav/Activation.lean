import CtaManager.Nav.State

/-!
The opening snapshot and the corrections inside a replay.

`activated` is the state with its opening ledgers in place.  It is reached once
(`activated_activated`), a fill after the snapshot reaches it by itself
(`applyFill_activateSnapshotAt`), and so does a correction, so activating early
never changes a later state.  Corrections up to one time and then up to a later
one are corrections up to the later one (`advance_advance`).
-/

namespace CtaManager

open Check

variable {F : Type}

namespace TimelineSourceState

/-- The opening ledgers are in place. -/
def activated (state : TimelineSourceState F) : TimelineSourceState F :=
  state.activateAccount.activateStrategies

theorem activateSnapshotAt_of_reached (state : TimelineSourceState F) (tsUs : Int)
    (h : state.snapshotReached tsUs = true) : state.activateSnapshotAt tsUs = state.activated := by
  simp [activateSnapshotAt, h, activated]

theorem activateSnapshotAt_of_not_reached (state : TimelineSourceState F) (tsUs : Int)
    (h : state.snapshotReached tsUs = false) : state.activateSnapshotAt tsUs = state := by
  simp [activateSnapshotAt, h]

theorem snapshotReached_mono (state : TimelineSourceState F) (t t' : Int) (htt : t ≤ t')
    (h : state.snapshotReached t = true) : state.snapshotReached t' = true := by
  unfold snapshotReached at h ⊢
  cases hs : state.snapshotTsUs with
  | none => simp [hs] at h
  | some ts =>
    simp only [hs, Option.any_some, decide_eq_true_eq] at h ⊢
    omega

/-! ## Fields that activation keeps -/

@[simp] theorem activateAccount_fields (s : TimelineSourceState F) :
    s.activateAccount.allocations = s.allocations ∧
    s.activateAccount.nextAllocation = s.nextAllocation ∧
    s.activateAccount.sourceId = s.sourceId ∧
    s.activateAccount.feeRates = s.feeRates ∧
    s.activateAccount.snapshotTsUs = s.snapshotTsUs ∧
    s.activateAccount.strategyAllocationActive = s.strategyAllocationActive := by
  unfold activateAccount
  cases s.pendingInitialStates <;> simp

@[simp] theorem activateStrategies_fields (s : TimelineSourceState F) :
    s.activateStrategies.allocations = s.allocations ∧
    s.activateStrategies.nextAllocation = s.nextAllocation ∧
    s.activateStrategies.sourceId = s.sourceId ∧
    s.activateStrategies.feeRates = s.feeRates ∧
    s.activateStrategies.snapshotTsUs = s.snapshotTsUs ∧
    s.activateStrategies.strategyAllocationActive = s.strategyAllocationActive := by
  unfold activateStrategies
  cases s.pendingInitialStrategyStates <;> simp

@[simp] theorem activated_allocations (s : TimelineSourceState F) :
    s.activated.allocations = s.allocations := by simp [activated]

@[simp] theorem activated_nextAllocation (s : TimelineSourceState F) :
    s.activated.nextAllocation = s.nextAllocation := by simp [activated]

@[simp] theorem activated_snapshotTsUs (s : TimelineSourceState F) :
    s.activated.snapshotTsUs = s.snapshotTsUs := by simp [activated]

@[simp] theorem activated_feeRates (s : TimelineSourceState F) :
    s.activated.feeRates = s.feeRates := by simp [activated]

@[simp] theorem activated_strategyAllocationActive (s : TimelineSourceState F) :
    s.activated.strategyAllocationActive = s.strategyAllocationActive := by simp [activated]

/-- What both branches of `activateSnapshotAt` keep, the call keeps. -/
theorem activateSnapshotAt_cases (s : TimelineSourceState F) (t : Int) :
    s.activateSnapshotAt t = s ∨ s.activateSnapshotAt t = s.activated := by
  unfold activateSnapshotAt
  split
  · exact Or.inr rfl
  · exact Or.inl rfl

@[simp] theorem activateSnapshotAt_allocations (s : TimelineSourceState F) (t : Int) :
    (s.activateSnapshotAt t).allocations = s.allocations := by
  rcases activateSnapshotAt_cases s t with h | h <;> simp [h]

@[simp] theorem activateSnapshotAt_nextAllocation (s : TimelineSourceState F) (t : Int) :
    (s.activateSnapshotAt t).nextAllocation = s.nextAllocation := by
  rcases activateSnapshotAt_cases s t with h | h <;> simp [h]

@[simp] theorem activateSnapshotAt_snapshotTsUs (s : TimelineSourceState F) (t : Int) :
    (s.activateSnapshotAt t).snapshotTsUs = s.snapshotTsUs := by
  rcases activateSnapshotAt_cases s t with h | h <;> simp [h]

@[simp] theorem activateSnapshotAt_feeRates (s : TimelineSourceState F) (t : Int) :
    (s.activateSnapshotAt t).feeRates = s.feeRates := by
  rcases activateSnapshotAt_cases s t with h | h <;> simp [h]

@[simp] theorem activateSnapshotAt_strategyAllocationActive (s : TimelineSourceState F) (t : Int) :
    (s.activateSnapshotAt t).strategyAllocationActive = s.strategyAllocationActive := by
  rcases activateSnapshotAt_cases s t with h | h <;> simp [h]

@[simp] theorem activateSnapshotAt_snapshotReached (s : TimelineSourceState F) (t t' : Int) :
    (s.activateSnapshotAt t).snapshotReached t' = s.snapshotReached t' := by
  simp [snapshotReached]

/-! ## Activation happens once -/

theorem activated_activated (s : TimelineSourceState F) : s.activated.activated = s.activated := by
  unfold activated activateStrategies activateAccount
  cases ha : s.pendingInitialStates <;> cases hs : s.pendingInitialStrategyStates <;>
    simp [ha, hs]

@[simp] theorem activated_activateSnapshotAt (s : TimelineSourceState F) (t : Int) :
    (s.activateSnapshotAt t).activated = s.activated := by
  rcases activateSnapshotAt_cases s t with h | h
  · rw [h]
  · rw [h, activated_activated]

@[simp] theorem activateSnapshotAt_activated (s : TimelineSourceState F) (t : Int) :
    s.activated.activateSnapshotAt t = s.activated := by
  rcases activateSnapshotAt_cases s.activated t with h | h
  · exact h
  · rw [h, activated_activated]

/-- A later activation does not see an earlier one. -/
theorem activateSnapshotAt_of_le (s : TimelineSourceState F) (t t' : Int) (h : t ≤ t') :
    (s.activateSnapshotAt t).activateSnapshotAt t' = s.activateSnapshotAt t' := by
  cases hr : s.snapshotReached t with
  | true =>
    rw [activateSnapshotAt_of_reached s t hr, activateSnapshotAt_activated,
      activateSnapshotAt_of_reached s t' (snapshotReached_mono s t t' h hr)]
  | false => rw [activateSnapshotAt_of_not_reached s t hr]

/-- Once the snapshot time has come, it does not matter when it was activated. -/
theorem activateSnapshotAt_of_snapshotReached (s : TimelineSourceState F) (t t' : Int)
    (h : s.snapshotReached t' = true) :
    (s.activateSnapshotAt t).activateSnapshotAt t' = s.activateSnapshotAt t' := by
  rw [activateSnapshotAt_of_reached (s.activateSnapshotAt t) t' (by simpa using h),
    activateSnapshotAt_of_reached s t' h, activated_activateSnapshotAt]

/-- Events of time `t` come after the snapshot. -/
def AfterSnapshot (s : TimelineSourceState F) (t : Int) : Prop :=
  ∀ ts, s.snapshotTsUs = some ts → ts ≤ t

theorem activateSnapshotAt_of_afterSnapshot (s : TimelineSourceState F) (t t' : Int)
    (h : s.AfterSnapshot t') :
    (s.activateSnapshotAt t).activateSnapshotAt t' = s.activateSnapshotAt t' := by
  cases hs : s.snapshotTsUs with
  | none =>
    have hr : s.snapshotReached t = false := by simp [snapshotReached, hs]
    rw [activateSnapshotAt_of_not_reached s t hr]
  | some ts =>
    refine activateSnapshotAt_of_snapshotReached s t t' ?_
    simpa [snapshotReached, hs] using h ts hs

/-! ## Corrections and fills absorb an activation -/

variable [F64 F]

theorem applyAllocation_activateSnapshotAt (s : TimelineSourceState F) (t : Int)
    (a : AllocationSnapshot F) (h : s.AfterSnapshot a.snapshotTsUs) :
    (s.activateSnapshotAt t).applyAllocation a = s.applyAllocation a := by
  unfold applyAllocation
  rw [activateSnapshotAt_of_afterSnapshot s t _ h]

/-! ## Corrections before a cutoff -/

/-- The corrections of a list that are earlier than `cutoff`, up to the first
one that is not. -/
def correctionsBefore (cutoff : Int) (l : List (AllocationSnapshot F)) :
    List (AllocationSnapshot F) :=
  l.takeWhile fun a => decide (a.snapshotTsUs < cutoff)

/-- One round of the loop of `advance_allocations`. -/
def applyNextAllocation (s : TimelineSourceState F) (a : AllocationSnapshot F) :
    Except NavError (TimelineSourceState F) := do
  let s ← s.applyAllocation a
  return { s with nextAllocation := s.nextAllocation + 1 }

/-- Apply every correction earlier than `cutoff` that is not applied yet. -/
def advanceBefore (s : TimelineSourceState F) (cutoff : Int) :
    Except NavError (TimelineSourceState F) :=
  (correctionsBefore cutoff (s.allocations.drop s.nextAllocation)).foldlM applyNextAllocation s

/-- Inclusive of `ts` is exclusive of the next microsecond. -/
def cutoffOf (tsUs : Int) (inclusive : Bool) : Int := if inclusive then tsUs + 1 else tsUs

theorem advanceLoop_eq (tsUs : Int) (inclusive : Bool) (l : List (AllocationSnapshot F))
    (s : TimelineSourceState F) :
    advanceLoop tsUs inclusive l s =
      (correctionsBefore (cutoffOf tsUs inclusive) l).foldlM applyNextAllocation s := by
  induction l generalizing s with
  | nil => rfl
  | cons a l ih =>
    have hdue : (tsUs < a.snapshotTsUs ∨ (!inclusive ∧ a.snapshotTsUs = tsUs)) ↔
        ¬ a.snapshotTsUs < cutoffOf tsUs inclusive := by
      cases inclusive with
      | false =>
        simp [cutoffOf]
        omega
      | true => simp [cutoffOf]
    unfold advanceLoop correctionsBefore
    by_cases h : a.snapshotTsUs < cutoffOf tsUs inclusive
    · rw [if_neg (fun hd => hdue.1 hd h), List.takeWhile_cons_of_pos (by simpa using h),
        foldlM_cons]
      unfold applyNextAllocation
      cases s.applyAllocation a with
      | error e => rfl
      | ok s' => exact ih _
    · rw [if_pos (hdue.2 h), List.takeWhile_cons_of_neg (by simpa using h)]
      rfl

theorem advanceAllocations_eq (s : TimelineSourceState F) (tsUs : Int) (inclusive : Bool) :
    s.advanceAllocations tsUs inclusive = s.advanceBefore (cutoffOf tsUs inclusive) :=
  advanceLoop_eq tsUs inclusive _ s

/-! ## What corrections keep -/

@[simp] theorem transferPosition_fields (s : TimelineSourceState F) (p : AllocationPosition F) :
    (s.transferPosition p).allocations = s.allocations ∧
    (s.transferPosition p).nextAllocation = s.nextAllocation ∧
    (s.transferPosition p).sourceId = s.sourceId ∧
    (s.transferPosition p).feeRates = s.feeRates ∧
    (s.transferPosition p).snapshotTsUs = s.snapshotTsUs ∧
    (s.transferPosition p).pendingInitialStates = s.pendingInitialStates ∧
    (s.transferPosition p).pendingInitialStrategyStates = s.pendingInitialStrategyStates ∧
    (s.transferPosition p).states = s.states ∧
    (s.transferPosition p).latestMarks = s.latestMarks ∧
    (s.transferPosition p).strategyAllocationActive = s.strategyAllocationActive := by
  unfold transferPosition
  split <;> simp

/-- Transfers move strategy ledgers only. -/
theorem foldl_transferPosition (l : List (AllocationPosition F)) (s : TimelineSourceState F) :
    l.foldl transferPosition s =
      { s with strategyStates := (l.foldl transferPosition s).strategyStates } := by
  induction l generalizing s with
  | nil => rfl
  | cons p l ih =>
    obtain ⟨h1, h2, h3, h4, h5, h6, h7, h8, h9, h10⟩ := transferPosition_fields s p
    rw [List.foldl_cons, ih (s.transferPosition p)]
    simp only [h1, h2, h3, h4, h5, h6, h7, h8, h9, h10]

/-- A correction changes strategy ledgers of the activated state, and nothing else. -/
theorem applyAllocation_ok {s s' : TimelineSourceState F} {a : AllocationSnapshot F}
    (h : s.applyAllocation a = .ok s') :
    (∀ p ∈ a.positions, (s.activateSnapshotAt a.snapshotTsUs).matchesBefore p = true) ∧
      s' = a.positions.foldl transferPosition (s.activateSnapshotAt a.snapshotTsUs) := by
  unfold applyAllocation at h
  obtain ⟨u, hu, hs⟩ := bind_eq_ok.1 h
  refine ⟨?_, (Except.ok.inj hs).symm⟩
  exact fun p hp => (ensure_eq_ok _ _ _).1 (forM_eq_ok.1 hu p hp)

theorem applyAllocation_frame {s s' : TimelineSourceState F} {a : AllocationSnapshot F}
    (h : s.applyAllocation a = .ok s') :
    s' = { s.activateSnapshotAt a.snapshotTsUs with strategyStates := s'.strategyStates } := by
  obtain ⟨-, rfl⟩ := applyAllocation_ok h
  exact foldl_transferPosition _ _

theorem applyNextAllocation_frame {s s' : TimelineSourceState F} {a : AllocationSnapshot F}
    (h : s.applyNextAllocation a = .ok s') :
    s' = { s.activateSnapshotAt a.snapshotTsUs with
      strategyStates := s'.strategyStates, nextAllocation := s.nextAllocation + 1 } := by
  unfold applyNextAllocation at h
  obtain ⟨t, ht, hs⟩ := bind_eq_ok.1 h
  cases hs
  rw [applyAllocation_frame ht]
  simp

/-- A run of corrections keeps everything but the ledgers and marks it may
open, and counts the corrections it applied. -/
theorem foldlM_applyNextAllocation_fields {l : List (AllocationSnapshot F)}
    {s s' : TimelineSourceState F} (h : l.foldlM applyNextAllocation s = .ok s') :
    s'.allocations = s.allocations ∧ s'.nextAllocation = s.nextAllocation + l.length ∧
      s'.snapshotTsUs = s.snapshotTsUs ∧ s'.feeRates = s.feeRates ∧
      s'.strategyAllocationActive = s.strategyAllocationActive := by
  induction l generalizing s with
  | nil =>
    cases h
    simp
  | cons a l ih =>
    rw [foldlM_cons] at h
    obtain ⟨t, ht, hl⟩ := bind_eq_ok.1 h
    obtain ⟨h1, h2, h3, h4, h5⟩ := ih hl
    rw [h1, h2, h3, h4, h5, applyNextAllocation_frame ht]
    simp
    omega

theorem advanceBefore_fields {s s' : TimelineSourceState F} {cutoff : Int}
    (h : s.advanceBefore cutoff = .ok s') :
    s'.allocations = s.allocations ∧
      s'.nextAllocation = s.nextAllocation +
        (correctionsBefore cutoff (s.allocations.drop s.nextAllocation)).length ∧
      s'.snapshotTsUs = s.snapshotTsUs ∧ s'.feeRates = s.feeRates ∧
      s'.strategyAllocationActive = s.strategyAllocationActive :=
  foldlM_applyNextAllocation_fields h

/-- Corrections absorb an activation that a later one repeats. -/
theorem foldlM_applyNextAllocation_activate (s : TimelineSourceState F) (t t' : Int)
    (l : List (AllocationSnapshot F)) (hl : ∀ a ∈ l, s.AfterSnapshot a.snapshotTsUs)
    (ht' : s.AfterSnapshot t') :
    (l.foldlM applyNextAllocation (s.activateSnapshotAt t) >>= fun s =>
        .ok (s.activateSnapshotAt t')) =
      (l.foldlM applyNextAllocation s >>= fun s => .ok (s.activateSnapshotAt t')) := by
  cases l with
  | nil =>
    simp only [foldlM_nil, ok_bind]
    rw [activateSnapshotAt_of_afterSnapshot s t t' ht']
  | cons a l =>
    have h : (s.activateSnapshotAt t).applyNextAllocation a = s.applyNextAllocation a := by
      unfold applyNextAllocation
      rw [applyAllocation_activateSnapshotAt s t a (hl a List.mem_cons_self)]
    rw [foldlM_cons, foldlM_cons, h]

/-! ## Fills -/

theorem bookAccount_frame {s s' : TimelineSourceState F} {fill : PreparedFill F}
    (h : s.bookAccount fill = .ok s') : s' = { s with states := s'.states } := by
  unfold bookAccount at h
  obtain ⟨account, -, hs⟩ := bind_eq_ok.1 h
  cases hs
  rfl

theorem bookStrategy_frame {s s' : TimelineSourceState F} {fill : PreparedFill F}
    (h : s.bookStrategy fill = .ok s') : s' = { s with strategyStates := s'.strategyStates } := by
  unfold bookStrategy at h
  split at h
  · cases h
    rfl
  · obtain ⟨ledger, -, hs⟩ := bind_eq_ok.1 h
    cases hs
    rfl

/-- A fill changes ledgers and the mark of its market, and nothing else. -/
theorem bookFill_frame {s s' : TimelineSourceState F} {fill : PreparedFill F}
    (h : s.bookFill fill = .ok s') :
    s' = { s with
      states := s'.states
      strategyStates := s'.strategyStates
      latestMarks := s.latestMarks.insert fill.event.market fill.event.price } := by
  unfold bookFill at h
  obtain ⟨s₁, h₁, h⟩ := bind_eq_ok.1 h
  obtain ⟨s₂, h₂, hs⟩ := bind_eq_ok.1 h
  cases hs
  rw [bookStrategy_frame h₂, bookAccount_frame h₁]

theorem applyFill_eq (s : TimelineSourceState F) (fill : PreparedFill F) :
    s.applyFill fill = (s.advanceBefore fill.fillTsUs >>= fun s =>
      (s.activateSnapshotAt fill.fillTsUs).bookFill fill) := by
  unfold applyFill
  rw [advanceAllocations_eq]
  rfl

/-- Every correction comes after the snapshot. -/
def Ordered (s : TimelineSourceState F) : Prop :=
  ∀ a ∈ s.allocations, s.AfterSnapshot a.snapshotTsUs

theorem applyFill_fields {s s' : TimelineSourceState F} {fill : PreparedFill F}
    (h : s.applyFill fill = .ok s') :
    s'.allocations = s.allocations ∧
      s'.nextAllocation = s.nextAllocation +
        (correctionsBefore fill.fillTsUs (s.allocations.drop s.nextAllocation)).length ∧
      s'.snapshotTsUs = s.snapshotTsUs ∧ s'.feeRates = s.feeRates ∧
      s'.strategyAllocationActive = s.strategyAllocationActive := by
  rw [applyFill_eq] at h
  obtain ⟨t, ht, hb⟩ := bind_eq_ok.1 h
  obtain ⟨h1, h2, h3, h4, h5⟩ := advanceBefore_fields ht
  rw [bookFill_frame hb]
  simp [h1, h2, h3, h4, h5]

theorem applyFill_ordered {s s' : TimelineSourceState F} {fill : PreparedFill F}
    (h : s.applyFill fill = .ok s') (hs : s.Ordered) : s'.Ordered := by
  obtain ⟨h1, -, h3, -⟩ := applyFill_fields h
  intro a ha ts hts
  rw [h1] at ha
  rw [h3] at hts
  exact hs a ha ts hts

/-- A fill absorbs an earlier activation. -/
theorem applyFill_activateSnapshotAt (s : TimelineSourceState F) (t : Int) (fill : PreparedFill F)
    (hs : s.Ordered) (hfill : s.AfterSnapshot fill.fillTsUs) :
    (s.activateSnapshotAt t).applyFill fill = s.applyFill fill := by
  have key := foldlM_applyNextAllocation_activate s t fill.fillTsUs
    (correctionsBefore fill.fillTsUs (s.allocations.drop s.nextAllocation))
    (fun a ha => hs a (List.mem_of_mem_drop (List.takeWhile_subset _ ha))) hfill
  rw [applyFill_eq, applyFill_eq, advanceBefore, advanceBefore]
  simp only [activateSnapshotAt_allocations, activateSnapshotAt_nextAllocation]
  have := congrArg (fun x => x >>= fun s => bookFill s fill) key
  simpa only [bind_assoc, ok_bind] using this

end TimelineSourceState

end CtaManager
