import CtaManager.Nav.CachedSource

/-!
A replay with its corrections and the same replay without them.

`accountOnly` is the part of a state that a correction cannot reach.  The two
replays agree on it (`Uncorrected`), fill by fill; their strategy ledgers differ,
but not in what the checks of a fill read (`SameBooks`), so the replay without
corrections books every fill the other one books.
-/

namespace CtaManager

open Check

variable {F : Type} [F64 F]

namespace TimelineSourceState

/-! ## Ledgers that differ by transfers -/

/-- The amounts of a ledger that only fills move. -/
def amounts (ledger : VenueState F) : F × F × F × F × F :=
  (ledger.volumeQuote, ledger.makerVolumeQuote, ledger.takerVolumeQuote,
    ledger.unknownLiquidityVolumeQuote, ledger.estimatedFeeQuote)

/-- The amounts of the ledger a fill finds, or opens. -/
def amountsOf (ledger : Option (VenueState F)) : F × F × F × F × F :=
  ledger.elim (0, 0, 0, 0, 0) amounts

/-- The first ledger may have been opened by a correction, before any fill; to the
checks of a fill the two are alike. -/
structure SameBooks (ledger ledger' : Option (VenueState F)) : Prop where
  amounts_eq : amountsOf ledger = amountsOf ledger'
  venue : ∀ opened', ledger' = some opened' → ∃ opened, ledger = some opened ∧
    opened.venue = opened'.venue

theorem SameBooks.refl (ledger : Option (VenueState F)) : SameBooks ledger ledger :=
  ⟨rfl, fun opened h => ⟨opened, h, rfl⟩⟩

theorem amounts_booked (ledger ledger' : VenueState F) (h : amounts ledger = amounts ledger')
    (event : NavEvent F) (side : Side) (feeRates : FeeRates F) (liquidity : LiquidityRole)
    (fillTsUs : Int) :
    amounts (ledger.booked event side feeRates liquidity fillTsUs) =
      amounts (ledger'.booked event side feeRates liquidity fillTsUs) := by
  unfold amounts at h
  simp only [Prod.mk.injEq] at h
  obtain ⟨h1, h2, h3, h4, h5⟩ := h
  unfold amounts VenueState.booked VenueState.countFill
  cases liquidity <;> simp only [h1, h2, h3, h4, h5]

theorem isFinite_of_amounts (ledger ledger' : VenueState F) (h : amounts ledger = amounts ledger') :
    ledger.isFinite = ledger'.isFinite := by
  unfold amounts at h
  simp only [Prod.mk.injEq] at h
  obtain ⟨h1, h2, h3, h4, h5⟩ := h
  unfold VenueState.isFinite
  rw [h1, h2, h3, h4, h5]

theorem amounts_getD_new (ledger : Option (VenueState F)) (event : NavEvent F) :
    amounts (ledger.getD (VenueState.new event)) = amountsOf ledger := by
  cases ledger with
  | none => rfl
  | some opened => rfl

/-- A fill that the one ledger books, the other books as well. -/
theorem SameBooks.bookOn {ledger ledger' : Option (VenueState F)} (h : SameBooks ledger ledger')
    {feeRates : FeeRates F} {fill : PreparedFill F} {booked : VenueState F}
    (hbook : bookOn feeRates fill ledger = .ok booked) :
    ∃ booked', bookOn feeRates fill ledger' = .ok booked' ∧
      SameBooks (some booked) (some booked') := by
  unfold TimelineSourceState.bookOn VenueState.applyFill at hbook ⊢
  obtain ⟨⟨⟩, hvenue, hbook⟩ := bind_eq_ok.1 hbook
  obtain ⟨⟨⟩, hquantity, hbook⟩ := bind_eq_ok.1 hbook
  obtain ⟨⟨⟩, hnotional, hbook⟩ := bind_eq_ok.1 hbook
  obtain ⟨⟨⟩, hfinite, hbook⟩ := bind_eq_ok.1 hbook
  obtain rfl := Except.ok.inj hbook
  have hbooked := amounts_booked _ (ledger'.getD (VenueState.new fill.event))
    (((amounts_getD_new ledger fill.event).trans h.amounts_eq).trans
      (amounts_getD_new ledger' fill.event).symm) fill.event fill.side feeRates fill.liquidity
    fill.fillTsUs
  rw [ensure_eq_ok, beq_iff_eq] at hvenue
  have hvenue' : (ledger'.getD (VenueState.new fill.event)).venue = fill.event.venue := by
    cases hledger : ledger' with
    | none => rfl
    | some opened' =>
      obtain ⟨opened, rfl, heq⟩ := h.venue opened' hledger
      exact heq.symm.trans hvenue
  rw [ensure_eq_ok, isFinite_of_amounts _ _ hbooked] at hfinite
  refine ⟨(ledger'.getD (VenueState.new fill.event)).booked fill.event fill.side feeRates
    fill.liquidity fill.fillTsUs, ?_, ?_⟩
  · rw [hvenue', beq_self_eq_true, ensure_true, ok_bind, hquantity, ok_bind]
    dsimp only
    rw [hnotional, ok_bind, hfinite]
    rfl
  · refine ⟨hbooked, fun opened' h' => ⟨_, rfl, ?_⟩⟩
    obtain rfl := Option.some.inj h'
    have hkeep : ∀ state : VenueState F, (state.booked fill.event fill.side feeRates
        fill.liquidity fill.fillTsUs).venue = state.venue := by
      intro state
      unfold VenueState.booked VenueState.countFill
      cases fill.liquidity <;> rfl
    rw [hkeep, hkeep, hvenue, hvenue']

/-- A transfer is invisible to the checks of a fill. -/
theorem SameBooks.transfer {ledger ledger' : Option (VenueState F)} (h : SameBooks ledger ledger')
    (p : AllocationPosition F) :
    SameBooks (some (transferTo (ledger.getD (transferState p)) p.afterQty p.referencePrice))
      ledger' := by
  constructor
  · rw [← h.amounts_eq]
    cases ledger with
    | none => rfl
    | some opened => rfl
  · intro opened' hledger
    obtain ⟨opened, rfl, heq⟩ := h.venue opened' hledger
    exact ⟨_, rfl, heq⟩

/-! ## States that differ by corrections -/

/-- The part of a state that no correction reaches. -/
def accountOnly (s : TimelineSourceState F) : TimelineSourceState F :=
  { s with allocations := [], nextAllocation := 0, strategyStates := ∅ }

/-- `s'` is `s` without its corrections. -/
structure Uncorrected (s s' : TimelineSourceState F) : Prop where
  account : s'.accountOnly = s.accountOnly
  removed : s'.allocations = []
  ordered : s.Ordered
  ledgers : ∀ key : StrategyMarket, SameBooks s.strategyStates[key]? s'.strategyStates[key]?

omit [F64 F] in
theorem accountOnly_eq {s s' : TimelineSourceState F} (h : s'.accountOnly = s.accountOnly) :
    s'.sourceId = s.sourceId ∧ s'.feeRates = s.feeRates ∧ s'.snapshotTsUs = s.snapshotTsUs ∧
      s'.pendingInitialStates = s.pendingInitialStates ∧
      s'.pendingInitialStrategyStates = s.pendingInitialStrategyStates ∧ s'.states = s.states ∧
      s'.latestMarks = s.latestMarks ∧
      s'.strategyAllocationActive = s.strategyAllocationActive := by
  unfold accountOnly at h
  rw [TimelineSourceState.mk.injEq] at h
  obtain ⟨-, -, h3, h4, h5, h6, h7, h8, -, h10, h11⟩ := h
  exact ⟨h3, h4, h5, h6, h7, h8, h10, h11⟩

/-- The activated states differ by corrections only as well. -/
theorem Uncorrected.activated {s s' : TimelineSourceState F} (h : Uncorrected s s') :
    Uncorrected s.activated s'.activated := by
  obtain ⟨h1, h2, h3, h4, h5, h6, h7, h8⟩ := accountOnly_eq h.account
  refine ⟨?_, by rw [activated_allocations]; exact h.removed, ?_, fun key => ?_⟩
  · unfold TimelineSourceState.activated activateStrategies activateAccount accountOnly
    rw [h4]
    cases s.pendingInitialStates <;> cases hs : s.pendingInitialStrategyStates <;>
      simp [h1, h2, h3, h4, h5, h6, h7, h8, hs]
  · intro a ha ts hts
    rw [activated_allocations] at ha
    rw [activated_snapshotTsUs] at hts
    exact h.ordered a ha ts hts
  · have hpending : ∀ t : TimelineSourceState F, t.activated.strategyStates =
        t.pendingInitialStrategyStates.getD t.strategyStates := by
      intro t
      unfold TimelineSourceState.activated activateStrategies activateAccount
      cases t.pendingInitialStates <;> cases t.pendingInitialStrategyStates <;> simp
    rw [hpending, hpending, h5]
    cases s.pendingInitialStrategyStates with
    | none => exact h.ledgers key
    | some opened => exact SameBooks.refl _

theorem Uncorrected.activateSnapshotAt {s s' : TimelineSourceState F} (h : Uncorrected s s')
    (tsUs : Int) : Uncorrected (s.activateSnapshotAt tsUs) (s'.activateSnapshotAt tsUs) := by
  have hsnap := (accountOnly_eq h.account).2.2.1
  have hreached : s'.snapshotReached tsUs = s.snapshotReached tsUs := by
    unfold snapshotReached
    rw [hsnap]
  unfold TimelineSourceState.activateSnapshotAt
  rw [hreached]
  split
  · exact h.activated
  · exact h

/-- The corrections due by now find the snapshot activated. -/
def SettledBy (s : TimelineSourceState F) (tsUs : Int) : Prop := s.activateSnapshotAt tsUs = s

omit [F64 F] in
theorem SettledBy.mono {s : TimelineSourceState F} {t t' : Int} (h : s.SettledBy t') (htt : t ≤ t') :
    s.SettledBy t := by
  unfold SettledBy at h ⊢
  cases hr : s.snapshotReached t with
  | false => exact activateSnapshotAt_of_not_reached s t hr
  | true =>
    rw [activateSnapshotAt_of_reached s t hr]
    rwa [activateSnapshotAt_of_reached s t' (snapshotReached_mono s t t' htt hr)] at h

/-- A correction changes strategy ledgers only. -/
theorem Uncorrected.applyNextAllocation {s s' t : TimelineSourceState F} (h : Uncorrected s s')
    {a : AllocationSnapshot F} (hsettled : s.SettledBy a.snapshotTsUs)
    (hstep : s.applyNextAllocation a = .ok t) :
    Uncorrected t s' ∧ t = { s with
      strategyStates := t.strategyStates, nextAllocation := s.nextAllocation + 1 } := by
  have hframe := applyNextAllocation_frame hstep
  rw [hsettled] at hframe
  refine ⟨⟨?_, h.removed, ?_, ?_⟩, hframe⟩
  · rw [h.account, hframe]
    rfl
  · rw [hframe]
    exact h.ordered
  · unfold TimelineSourceState.applyNextAllocation at hstep
    obtain ⟨u, hu, hstep⟩ := bind_eq_ok.1 hstep
    obtain ⟨-, rfl⟩ := applyAllocation_ok hu
    cases hstep
    rw [hsettled]
    have hfold : ∀ (l : List (AllocationPosition F)) (u : TimelineSourceState F),
        (∀ key : StrategyMarket, SameBooks u.strategyStates[key]? s'.strategyStates[key]?) →
        ∀ key : StrategyMarket, SameBooks (l.foldl transferPosition u).strategyStates[key]?
          s'.strategyStates[key]? := by
      intro l
      induction l with
      | nil => exact fun u hu => hu
      | cons p l ih =>
        intro u hu
        refine ih _ fun key => ?_
        unfold transferPosition
        split
        · exact hu key
        · rw [OrdMap.getElem?_upsert]
          split
          · rename_i heq
            subst heq
            exact (hu p.key).transfer p
          · exact hu key
    exact hfold a.positions s h.ledgers

/-- The corrections before a cutoff change strategy ledgers only, when the snapshot
does not wait for them. -/
theorem Uncorrected.advanceBefore {s s' t : TimelineSourceState F} (h : Uncorrected s s')
    {cutoff : Int} (hsettled : ∀ ts, ts < cutoff → s.SettledBy ts)
    (hstep : s.advanceBefore cutoff = .ok t) : Uncorrected t s' := by
  have hfold : ∀ (l : List (AllocationSnapshot F)) (s : TimelineSourceState F),
      (∀ a ∈ l, s.SettledBy a.snapshotTsUs) → Uncorrected s s' →
      l.foldlM TimelineSourceState.applyNextAllocation s = .ok t → Uncorrected t s' := by
    intro l
    induction l with
    | nil =>
      intro s _ h hstep
      cases hstep
      exact h
    | cons a l ih =>
      intro s hl h hstep
      rw [foldlM_cons] at hstep
      obtain ⟨u, hu, hrest⟩ := bind_eq_ok.1 hstep
      obtain ⟨hunc, hframe⟩ := h.applyNextAllocation (hl a List.mem_cons_self) hu
      refine ih u (fun b hb => ?_) hunc hrest
      have hb := hl b (List.mem_cons_of_mem _ hb)
      unfold SettledBy at hb ⊢
      rcases Bool.eq_false_or_eq_true (u.snapshotReached b.snapshotTsUs) with hr | hr
      · rw [activateSnapshotAt_of_reached u _ hr]
        have hsr : s.snapshotReached b.snapshotTsUs = true := by
          rw [hframe] at hr
          exact hr
        rw [activateSnapshotAt_of_reached s _ hsr] at hb
        obtain ⟨h1, h2⟩ := activated_settled s
        rw [hb] at h1 h2
        rw [hframe]
        exact activated_of_settled h1 h2
      · exact activateSnapshotAt_of_not_reached u _ hr
  refine hfold _ s (fun a ha => hsettled _ ?_) h hstep
  simpa using List.mem_takeWhile_imp ha

theorem Uncorrected.advanceBefore_eq {s s' : TimelineSourceState F} (h : Uncorrected s s')
    (cutoff : Int) : s'.advanceBefore cutoff = .ok s' := by
  unfold TimelineSourceState.advanceBefore
  rw [h.removed, List.drop_nil]
  rfl

theorem Uncorrected.bookFill {s s' t : TimelineSourceState F} (h : Uncorrected s s')
    {fill : PreparedFill F} (hstep : s.bookFill fill = .ok t) :
    ∃ t', s'.bookFill fill = .ok t' ∧ Uncorrected t t' := by
  obtain ⟨h1, h2, h3, h4, h5, h6, h7, h8⟩ := accountOnly_eq h.account
  unfold TimelineSourceState.bookFill bookAccount at hstep ⊢
  obtain ⟨s₁, hs₁, hstep⟩ := bind_eq_ok.1 hstep
  obtain ⟨account, haccount, hs₁⟩ := bind_eq_ok.1 hs₁
  cases hs₁
  obtain ⟨s₂, hs₂, hstep⟩ := bind_eq_ok.1 hstep
  cases hstep
  rw [h2, h6, haccount]
  simp only [ok_bind, pure_eq_ok]
  unfold bookStrategy at hs₂ ⊢
  simp only [h8] at hs₂ ⊢
  cases howner : fillOwner s.strategyAllocationActive fill with
  | none =>
    rw [howner] at hs₂
    cases hs₂
    refine ⟨_, rfl, ?_, h.removed, h.ordered, h.ledgers⟩
    unfold accountOnly
    simp only [h1, h3, h4, h5, h7]
  | some owner =>
    rw [howner] at hs₂
    obtain ⟨ledger, hledger, hs₂⟩ := bind_eq_ok.1 hs₂
    cases hs₂
    obtain ⟨ledger', hledger', hbooks⟩ := (h.ledgers owner).bookOn hledger
    dsimp only
    rw [hledger']
    refine ⟨_, rfl, ?_, h.removed, h.ordered, fun key => ?_⟩
    · unfold accountOnly
      simp only [h1, h3, h4, h5, h7]
    · simp only [OrdMap.getElem?_insert_of_key]
      split
      · exact hbooks
      · exact h.ledgers key

/-- The replay without corrections books every fill. -/
theorem Uncorrected.applyFill {s s' t : TimelineSourceState F} (h : Uncorrected s s')
    {fill : PreparedFill F} (hafter : s.AfterSnapshot fill.fillTsUs)
    (hstep : s.applyFill fill = .ok t) :
    ∃ t', s'.applyFill fill = .ok t' ∧ Uncorrected t t' := by
  -- a fill absorbs an activation at its own time, and then no correction activates anything
  rw [← applyFill_activateSnapshotAt s fill.fillTsUs fill h.ordered hafter, applyFill_eq] at hstep
  obtain ⟨u, hu, hstep⟩ := bind_eq_ok.1 hstep
  have hopen := h.activateSnapshotAt fill.fillTsUs
  have hself : (s.activateSnapshotAt fill.fillTsUs).SettledBy fill.fillTsUs :=
    activateSnapshotAt_of_le s fill.fillTsUs fill.fillTsUs le_rfl
  have hadvanced := hopen.advanceBefore (fun ts hts => hself.mono hts.le) hu
  have hself' : (s'.activateSnapshotAt fill.fillTsUs).activateSnapshotAt fill.fillTsUs =
      s'.activateSnapshotAt fill.fillTsUs := activateSnapshotAt_of_le s' _ _ le_rfl
  have hready := hadvanced.activateSnapshotAt fill.fillTsUs
  rw [hself'] at hready
  obtain ⟨t', ht', hunc⟩ := hready.bookFill hstep
  refine ⟨t', ?_, hunc⟩
  rw [applyFill_eq, h.advanceBefore_eq, ok_bind]
  exact ht'

end TimelineSourceState

/-! ## The preparation without corrections -/

/-- The same source without stored corrections. -/
def PreparedSourceEvents.uncorrected {F : Type} (p : PreparedSourceEvents F) :
    PreparedSourceEvents F :=
  { p with allocations := [] }

theorem prepareAllocations_nil [Fingerprint F] (source : SourceConfig F)
    (snapshotTsUs : Option Int) (active : Bool) :
    prepareAllocations source snapshotTsUs active [] = .ok [] := by
  unfold prepareAllocations
  cases active <;> rfl

theorem prepareSourceEvents_uncorrected [Fingerprint F] {source : SourceConfig F}
    {events : List (NavEvent F)} {snapshot : Option (PositionSnapshot F)}
    {strategySnapshot : Option (StrategyPositionSnapshot F)} {roles : LiquidityByOrder}
    {allocations : List (AllocationSnapshot F)} {p : PreparedSourceEvents F}
    (h : prepareSourceEvents source events snapshot strategySnapshot roles allocations = .ok p) :
    prepareSourceEvents source events snapshot strategySnapshot roles [] = .ok p.uncorrected := by
  obtain ⟨effective, hp⟩ := prepareSourceEvents_eq_ok.1 h
  refine prepareSourceEvents_eq_ok.2 ⟨effective, ?_⟩
  exact { hp with allocations_eq := prepareAllocations_nil _ _ _ }

theorem uncorrected_initialTimelineState {source : SourceConfig F} {p : PreparedSourceEvents F}
    {s : TimelineSourceState F} (hcorr : CorrectionsAfter p)
    (h : initialTimelineState source p = .ok s) :
    ∃ s', initialTimelineState source p.uncorrected = .ok s' ∧ s.Uncorrected s' := by
  obtain ⟨h1, h2, -⟩ := CachedTimelineSource.initialTimelineState_fields h
  unfold initialTimelineState at h ⊢
  obtain ⟨feeRates, hrates, h⟩ := bind_eq_ok.1 h
  rw [hrates]
  refine ⟨_, rfl, ?_⟩
  cases h
  exact ⟨rfl, rfl, fun a ha ts hts => (hcorr a ha ts hts).le, fun key =>
    TimelineSourceState.SameBooks.refl _⟩

end CtaManager
