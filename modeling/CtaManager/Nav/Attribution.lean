import CtaManager.Nav.ExactTotals
import CtaManager.Nav.Checkpoint
import CtaManager.Nav.PreparedForm
import CtaManager.Nav.Shares

/-!
Strategy rows against the account row, in exact arithmetic.

Along a run whose corrections find the quantities they were audited against
(`ExactRun`), the strategy ledgers of a linear market never count more fills than
the account, and without a strategy anchor they come to exactly what the account
does (`RunInv`).  With the residual that an anchor adds, the rows of a market add
up to the account (`strategyRows_add_up`).
-/

namespace CtaManager

open Check

namespace TimelineSourceState

/-! ## Runs -/

/-- The quantities before a correction are the audited ones. -/
def MatchesExactly (s : TimelineSourceState ℚ) (a : AllocationSnapshot ℚ) : Prop :=
  ∀ p ∈ a.positions,
    (s.activateSnapshotAt a.snapshotTsUs).allocationQuantity p.strategy p.market = p.beforeQty

/-- The corrections of the list match, each after the ones before it. -/
def ExactFrom : List (AllocationSnapshot ℚ) → TimelineSourceState ℚ → Prop
  | [], _ => True
  | a :: rest, s =>
    s.MatchesExactly a ∧ ∀ s', s.applyNextAllocation a = .ok s' → ExactFrom rest s'

/-- The corrections that become due before `cutoff` match. -/
def ExactBefore (s : TimelineSourceState ℚ) (cutoff : Int) : Prop :=
  ExactFrom (correctionsBefore cutoff (s.allocations.drop s.nextAllocation)) s

/-- The states a source goes through: activations, fills and corrections in any
order, the corrections matching exactly. -/
inductive ExactRun (initial : TimelineSourceState ℚ) : TimelineSourceState ℚ → Prop
  | start : ExactRun initial initial
  | activate {s : TimelineSourceState ℚ} (tsUs : Int) (run : ExactRun initial s) :
      ExactRun initial (s.activateSnapshotAt tsUs)
  | fill {s s' : TimelineSourceState ℚ} (prepared : PreparedFill ℚ) (run : ExactRun initial s)
      (exact : s.ExactBefore prepared.fillTsUs) (step : s.applyFill prepared = .ok s') :
      ExactRun initial s'
  | advance {s s' : TimelineSourceState ℚ} (tsUs : Int) (inclusive : Bool)
      (run : ExactRun initial s) (exact : s.ExactBefore (cutoffOf tsUs inclusive))
      (step : s.advanceAllocations tsUs inclusive = .ok s') : ExactRun initial s'

/-! ## Opening ledgers -/

/-- A ledger that holds an opening position and no fill yet. -/
def IsOpening {F : Type} [F64 F] (venueCode : Int) (state : VenueState F) : Prop :=
  ∃ venue quantity referencePrice priceSource, state =
    VenueState.fromInitialPosition venueCode venue quantity referencePrice priceSource

/-- A counter: transfers do not move it, fills do not lower it, and it opens at zero. -/
structure Counting (μ : Measure) : Prop where
  weight : ∀ referencePrice, μ.weight referencePrice = 0
  nonneg : ∀ feeRates fill, 0 ≤ μ.ofFill feeRates fill
  opening : ∀ venueCode state, IsOpening venueCode state → μ.of state = 0

theorem counting_fillCount : Counting Measure.fillCount where
  weight _ := rfl
  nonneg _ _ := zero_le_one
  opening venueCode state h := by
    obtain ⟨venue, quantity, referencePrice, priceSource, rfl⟩ := h
    simp [Measure.fillCount, Measure.ofField, VenueState.fromInitialPosition]

theorem countsAs_nonneg (roles : List LiquidityRole) (fill : PreparedFill ℚ) :
    0 ≤ Measure.countsAs roles fill := by
  unfold Measure.countsAs
  split
  · exact zero_le_one
  · exact le_rfl

theorem counting_makerCount : Counting Measure.makerCount where
  weight _ := rfl
  nonneg _ fill := countsAs_nonneg _ fill
  opening venueCode state h := by
    obtain ⟨venue, quantity, referencePrice, priceSource, rfl⟩ := h
    simp [Measure.makerCount, Measure.ofField, VenueState.fromInitialPosition]

theorem counting_takerCount : Counting Measure.takerCount where
  weight _ := rfl
  nonneg _ fill := countsAs_nonneg _ fill
  opening venueCode state h := by
    obtain ⟨venue, quantity, referencePrice, priceSource, rfl⟩ := h
    simp [Measure.takerCount, Measure.ofField, VenueState.fromInitialPosition]

theorem counting_unknownCount : Counting Measure.unknownCount where
  weight _ := rfl
  nonneg _ fill := countsAs_nonneg _ fill
  opening venueCode state h := by
    obtain ⟨venue, quantity, referencePrice, priceSource, rfl⟩ := h
    simp [Measure.unknownCount, Measure.ofField, VenueState.fromInitialPosition]

/-- The opening of a prepared source, and the shape of its corrections. -/
structure Opened (p : PreparedSourceEvents ℚ) : Prop where
  accounts : ∀ (market : Market) (state : VenueState ℚ), p.initialStates[market]? = some state →
    IsOpening market.venueCode state
  owners : ∀ (key : StrategyMarket) (state : VenueState ℚ),
    p.initialStrategyStates[key]? = some state → IsOpening key.market.venueCode state
  shared : p.strategyAllocationActive = false →
    p.initialStrategyStates = initialPositionStates p.initialStates
  keys : ∀ a ∈ p.allocations, (a.positions.map AllocationPosition.key).Nodup
  named : p.strategyAllocationActive = false → ∀ a ∈ p.allocations, ∀ q ∈ a.positions,
    q.strategy ≠ UNALLOCATED_STRATEGY

theorem IsOpening.oneSided {venueCode : Int} {state : VenueState ℚ} (h : IsOpening venueCode state)
    (hlinear : isInverseVenue venueCode = false) : state.fifo.OneSided := by
  obtain ⟨venue, quantity, referencePrice, priceSource, rfl⟩ := h
  exact oneSided_fromInitialPosition _ _ _ _ _ hlinear

theorem Opened.accountShare_eq {p : PreparedSourceEvents ℚ} (h : Opened p) {μ : Measure}
    (hμ : Counting μ) (market : Market) : accountShare μ market p.initialStates = 0 := by
  unfold accountShare
  cases hlookup : p.initialStates[market]? with
  | none => rfl
  | some state => exact hμ.opening _ _ (h.accounts market state hlookup)

theorem Opened.ownerShare_eq {p : PreparedSourceEvents ℚ} (h : Opened p) {μ : Measure}
    (hμ : Counting μ) (market : Market) : ownerShare μ market p.initialStrategyStates = 0 := by
  refine OrdMap.sumOf_eq_zero fun key state hlookup => ?_
  rw [hμ.opening _ _ (h.owners key state hlookup)]
  split
  · rfl
  · rfl

/-- Without an anchor one reserved owner holds what the account opens with. -/
theorem ownerShare_initialPositionStates (μ : Measure) (market : Market)
    (states : OrdMap Market (VenueState ℚ)) :
    ownerShare μ market (initialPositionStates states) = accountShare μ market states := by
  have hfold : ∀ (l : List (Market × VenueState ℚ)) (m : OrdMap StrategyMarket (VenueState ℚ)),
      (l.map Prod.fst).Nodup →
      (∀ q ∈ l, m[(⟨INITIAL_POSITION_STRATEGY, q.1⟩ : StrategyMarket)]? = none) →
      ownerShare μ market (l.foldl (fun states p =>
          states.insert ⟨INITIAL_POSITION_STRATEGY, p.1⟩ p.2) m) =
        ownerShare μ market m +
          (l.map fun q => if q.1 = market then μ.of q.2 else 0).sum := by
    intro l
    induction l with
    | nil => intro m _ _; simp
    | cons q l ih =>
      intro m hnodup hnew
      rw [List.map_cons, List.nodup_cons] at hnodup
      rw [List.foldl_cons, ih _ hnodup.2 fun r hr => ?_, ownerShare_insert,
        hnew q List.mem_cons_self, List.map_cons, List.sum_cons]
      · simp only [Option.elim_none, sub_zero]
        ring
      · rw [OrdMap.getElem?_insert_of_key, if_neg]
        · exact hnew r (List.mem_cons_of_mem _ hr)
        · rw [StrategyMarket.mk.injEq]
          rintro ⟨-, heq⟩
          exact hnodup.1 (heq ▸ List.mem_map_of_mem hr)
  unfold initialPositionStates
  rw [hfold _ ∅ (OrdMap.nodup_keys_toList states) fun q _ => by simp]
  have hempty : ownerShare μ market ∅ = 0 := OrdMap.sumOf_empty _
  rw [hempty, zero_add]
  unfold accountShare
  rw [← OrdMap.sumOf_single μ.of states market]
  refine congrArg List.sum (List.map_congr_left fun q _ => ?_)
  by_cases hq : q.1 = market
  · simp only [if_pos hq]
  · simp only [if_neg hq]

/-! ## What a preparation opens -/

/-- The positions of a valid correction are of different ledgers. -/
theorem nodup_keys_of_validatePosition {F : Type} [F64 F] (l : List (AllocationPosition F))
    {seen seen' : OrdSet StrategyMarket × OrdMap Market (F × F)}
    (h : l.foldlM AllocationSnapshot.validatePosition seen = .ok seen') :
    (l.map AllocationPosition.key).Nodup ∧
      ∀ key ∈ l.map AllocationPosition.key, seen.1.contains key = false := by
  induction l generalizing seen with
  | nil => exact ⟨List.nodup_nil, fun key hkey => absurd hkey List.not_mem_nil⟩
  | cons p l ih =>
    rw [foldlM_cons] at h
    obtain ⟨t, ht, hrest⟩ := bind_eq_ok.1 h
    obtain ⟨hnodup, hnew⟩ := ih hrest
    unfold AllocationSnapshot.validatePosition at ht
    obtain ⟨⟨⟩, -, ht⟩ := bind_eq_ok.1 ht
    obtain ⟨⟨⟩, -, ht⟩ := bind_eq_ok.1 ht
    obtain ⟨⟨⟩, -, ht⟩ := bind_eq_ok.1 ht
    obtain ⟨⟨⟩, -, ht⟩ := bind_eq_ok.1 ht
    obtain ⟨⟨⟩, hp, ht⟩ := bind_eq_ok.1 ht
    obtain ⟨⟨⟩, -, ht⟩ := bind_eq_ok.1 ht
    cases ht
    rw [ensure_eq_ok] at hp
    rw [List.map_cons, List.nodup_cons]
    refine ⟨⟨fun hmem => ?_, hnodup⟩, fun key hkey => ?_⟩
    · have := hnew p.key hmem
      simp at this
    · rcases List.mem_cons.1 hkey with rfl | hkey
      · simpa using hp
      · have := hnew key hkey
        simp only [Std.ExtTreeSet.contains_insert, Bool.or_eq_false_iff] at this
        exact this.2

theorem nodup_keys_of_validate {F : Type} [F64 F] {a : AllocationSnapshot F}
    (h : a.validate = .ok ()) : (a.positions.map AllocationPosition.key).Nodup := by
  unfold AllocationSnapshot.validate at h
  obtain ⟨⟨⟩, -, h⟩ := bind_eq_ok.1 h
  obtain ⟨⟨⟩, -, h⟩ := bind_eq_ok.1 h
  obtain ⟨⟨⟩, -, h⟩ := bind_eq_ok.1 h
  obtain ⟨seen, hseen, -⟩ := bind_eq_ok.1 h
  exact (nodup_keys_of_validatePosition _ hseen).1

theorem isOpening_openPosition {source : SourceConfig ℚ}
    {references : OrdMap Market (FirstFillReference ℚ)} {positions : List (SnapshotPosition ℚ)}
    {states : OrdMap Market (VenueState ℚ)}
    (h : positions.foldlM (openPosition source references) ∅ = .ok states) (market : Market)
    (state : VenueState ℚ) (hlookup : states[market]? = some state) :
    IsOpening market.venueCode state := by
  have hinv := foldlM_invariant (P := fun states : OrdMap Market (VenueState ℚ) =>
      ∀ (market : Market) (state : VenueState ℚ), states[market]? = some state →
        IsOpening market.venueCode state) (fun states position _ states' hstates hstep => by
    unfold openPosition at hstep
    obtain ⟨⟨price, priceSource⟩, -, hstep⟩ := bind_eq_ok.1 hstep
    obtain ⟨⟨⟩, -, hstep⟩ := bind_eq_ok.1 hstep
    cases hstep
    intro market state hlookup
    rw [OrdMap.getElem?_insert_of_key] at hlookup
    split at hlookup
    · rename_i heq
      subst heq
      exact ⟨_, _, _, _, (Option.some.inj hlookup).symm⟩
    · exact hstates market state hlookup) h
  exact hinv (fun market state hlookup => by simp at hlookup) market state hlookup

theorem isOpening_openStrategyPosition (references : OrdMap Market (FirstFillReference ℚ))
    (positions : List (StrategySnapshotPosition ℚ)) (states : OrdMap StrategyMarket (VenueState ℚ))
    (hstates : ∀ (key : StrategyMarket) (state : VenueState ℚ), states[key]? = some state →
      IsOpening key.market.venueCode state) (key : StrategyMarket) (state : VenueState ℚ)
    (hlookup : (positions.foldl (openStrategyPosition references) states)[key]? = some state) :
    IsOpening key.market.venueCode state := by
  induction positions generalizing states with
  | nil => exact hstates key state hlookup
  | cons position positions ih =>
    refine ih _ (fun key state hlookup => ?_) hlookup
    unfold openStrategyPosition at hlookup
    split at hlookup
    · exact hstates key state hlookup
    · rw [OrdMap.getElem?_insert_of_key] at hlookup
      split at hlookup
      · rename_i heq
        subst heq
        exact ⟨_, _, _, _, (Option.some.inj hlookup).symm⟩
      · exact hstates key state hlookup

theorem isOpening_initialPositionStates {states : OrdMap Market (VenueState ℚ)}
    (hstates : ∀ (market : Market) (state : VenueState ℚ), states[market]? = some state →
      IsOpening market.venueCode state) (key : StrategyMarket) (state : VenueState ℚ)
    (hlookup : (initialPositionStates states)[key]? = some state) :
    IsOpening key.market.venueCode state := by
  have hfold : ∀ (l : List (Market × VenueState ℚ)) (m : OrdMap StrategyMarket (VenueState ℚ)),
      (∀ q ∈ l, IsOpening q.1.venueCode q.2) →
      (∀ (key : StrategyMarket) (state : VenueState ℚ), m[key]? = some state →
        IsOpening key.market.venueCode state) →
      ∀ (key : StrategyMarket) (state : VenueState ℚ),
        (l.foldl (fun states p => states.insert ⟨INITIAL_POSITION_STRATEGY, p.1⟩ p.2) m)[key]? =
          some state → IsOpening key.market.venueCode state := by
    intro l
    induction l with
    | nil => exact fun m _ hm => hm
    | cons q l ih =>
      intro m hl hm
      refine ih _ (fun r hr => hl r (List.mem_cons_of_mem _ hr)) fun key state hlookup => ?_
      rw [OrdMap.getElem?_insert_of_key] at hlookup
      split at hlookup
      · rename_i heq
        subst heq
        obtain rfl := Option.some.inj hlookup
        exact hl q List.mem_cons_self
      · exact hm key state hlookup
  exact hfold _ ∅ (fun q hq => hstates q.1 q.2 (OrdMap.mem_toList.1 hq))
    (fun key state h => by simp at h) key state hlookup

theorem opened_of_prepareSourceEvents [Fingerprint ℚ] {source : SourceConfig ℚ}
    {events : List (NavEvent ℚ)} {snapshot : Option (PositionSnapshot ℚ)}
    {strategySnapshot : Option (StrategyPositionSnapshot ℚ)} {roles : LiquidityByOrder}
    {allocations : List (AllocationSnapshot ℚ)} {p : PreparedSourceEvents ℚ}
    (h : prepareSourceEvents source events snapshot strategySnapshot roles allocations = .ok p) :
    Opened p := by
  obtain ⟨effective, hp⟩ := prepareSourceEvents_eq_ok.1 h
  have haccounts := isOpening_openPosition hp.initialStates_eq
  obtain ⟨hvalid, happlies⟩ := hp.allocations_valid
  refine ⟨haccounts, ?_, ?_, fun a ha => nodup_keys_of_validate (hvalid a ha), ?_⟩
  · intro key state hlookup
    rw [hp.initialStrategyStates_eq] at hlookup
    unfold openStrategyPositions at hlookup
    split at hlookup
    · exact isOpening_openStrategyPosition _ _ _ (fun key state h => by simp at h) key state hlookup
    · exact isOpening_initialPositionStates haccounts key state hlookup
  · intro hinactive
    rw [hp.active_eq, Option.isSome_eq_false_iff, Option.isNone_iff_eq_none] at hinactive
    rw [hp.initialStrategyStates_eq, hinactive]
    rfl
  · intro hinactive a ha q hq hname
    have hresidual := happlies a ha
    unfold appliesTo at hresidual
    rw [hinactive, Bool.false_or, Bool.and_eq_true, Bool.not_eq_true'] at hresidual
    have husesResidual : a.usesResidual = true := List.any_eq_true.2 ⟨q, hq, by simpa using hname⟩
    rw [husesResidual] at hresidual
    exact absurd hresidual.2 (by decide)

/-! ## The invariant -/

/-- What every run of a prepared source keeps. -/
structure RunInv (p : PreparedSourceEvents ℚ) (s : TimelineSourceState ℚ) : Prop where
  active_eq : s.strategyAllocationActive = p.strategyAllocationActive
  allocations_eq : s.allocations = p.allocations
  /-- The opening ledgers are both in place, or both still to come. -/
  pending : (s.pendingInitialStates = none ∧ s.pendingInitialStrategyStates = none) ∨
    (s.pendingInitialStates = some p.initialStates ∧
      s.pendingInitialStrategyStates = some p.initialStrategyStates)
  accounts : OneSidedAccounts s.states
  owners : OneSidedOwners s.strategyStates
  /-- Without an anchor the strategies hold what the account holds. -/
  balanced : p.strategyAllocationActive = false → ∀ (μ : Measure) (market : Market),
    isInverseVenue market.venueCode = false →
      ownerShare μ market s.strategyStates = accountShare μ market s.states
  /-- The strategies never count more fills than the account. -/
  covered : ∀ (μ : Measure), Counting μ → ∀ market : Market,
    isInverseVenue market.venueCode = false →
      ownerShare μ market s.strategyStates ≤ accountShare μ market s.states

theorem runInv_initial {source : SourceConfig ℚ} {p : PreparedSourceEvents ℚ}
    {s : TimelineSourceState ℚ} (h : initialTimelineState source p = .ok s) :
    RunInv p s := by
  unfold initialTimelineState at h
  obtain ⟨feeRates, -, h⟩ := bind_eq_ok.1 h
  cases h
  have haccount : ∀ (μ : Measure) (market : Market), accountShare μ market ∅ = 0 :=
    fun μ market => by simp [accountShare]
  have howner : ∀ (μ : Measure) (market : Market), ownerShare μ market ∅ = 0 :=
    fun μ market => OrdMap.sumOf_empty _
  refine ⟨rfl, rfl, ?_, oneSidedAccounts_empty, oneSidedOwners_empty, ?_, ?_⟩
  · cases p.snapshotTsUs with
    | none => exact Or.inl ⟨rfl, rfl⟩
    | some ts => exact Or.inr ⟨rfl, rfl⟩
  · intro _ μ market _
    rw [howner, haccount]
  · intro μ _ market _
    rw [howner, haccount]

section Steps

variable {p : PreparedSourceEvents ℚ} {s s' : TimelineSourceState ℚ}

theorem RunInv.activateSnapshotAt (hs : RunInv p s) (hp : Opened p) (tsUs : Int) :
    RunInv p (s.activateSnapshotAt tsUs) := by
  rcases activateSnapshotAt_cases s tsUs with h | h
  · rw [h]
    exact hs
  · rw [h]
    rcases hs.pending with ⟨h1, h2⟩ | ⟨h1, h2⟩
    · have hsame : s.activated = s := by
        unfold activated activateStrategies activateAccount
        simp only [h1, h2]
      rw [hsame]
      exact hs
    · have hopen : s.activated = { s with
          latestMarks := openingMarks p.initialStates s.latestMarks
          states := p.initialStates
          pendingInitialStates := none
          strategyStates := p.initialStrategyStates
          pendingInitialStrategyStates := none } := by
        unfold activated activateStrategies activateAccount
        simp only [h1, h2]
      rw [hopen]
      refine ⟨hs.active_eq, hs.allocations_eq, Or.inl ⟨rfl, rfl⟩, ?_, ?_, ?_, ?_⟩
      · exact fun market state hlookup => (hp.accounts market state hlookup).oneSided
      · exact fun key state hlookup => (hp.owners key state hlookup).oneSided
      · intro hinactive μ market _
        rw [hp.shared hinactive]
        exact ownerShare_initialPositionStates μ market _
      · intro μ hμ market _
        show ownerShare μ market p.initialStrategyStates ≤ accountShare μ market p.initialStates
        rw [hp.ownerShare_eq hμ, hp.accountShare_eq hμ]

theorem sum_legAmount_of_weight_zero {weight : ℚ → ℚ} (hweight : ∀ price, weight price = 0)
    (l : List (AllocationPosition ℚ)) (market : Market) :
    (l.map (legAmount market weight)).sum = 0 := by
  refine List.sum_eq_zero fun x hx => ?_
  obtain ⟨q, -, rfl⟩ := List.mem_map.1 hx
  unfold legAmount
  rw [hweight, mul_zero]
  split
  · rfl
  · split
    · rfl
    · rfl

theorem RunInv.applyNextAllocation (hs : RunInv p s) (hp : Opened p)
    (hbalanced : p.strategyAllocationActive = false → ∀ a ∈ p.allocations, BalancedLegs a.positions)
    {a : AllocationSnapshot ℚ} (ha : a ∈ p.allocations) (hexact : s.MatchesExactly a)
    (h : s.applyNextAllocation a = .ok s') : RunInv p s' := by
  have ht := hs.activateSnapshotAt hp a.snapshotTsUs
  have hframe := applyNextAllocation_frame h
  unfold TimelineSourceState.applyNextAllocation at h
  obtain ⟨s₁, h₁, h⟩ := bind_eq_ok.1 h
  obtain ⟨-, rfl⟩ := applyAllocation_ok h₁
  have hstates : s'.strategyStates = (a.positions.foldl transferPosition
      (s.activateSnapshotAt a.snapshotTsUs)).strategyStates := by
    cases h
    rfl
  have hmoved : ∀ (μ : Measure) (market : Market), isInverseVenue market.venueCode = false →
      ownerShare μ market s'.strategyStates =
          ownerShare μ market (s.activateSnapshotAt a.snapshotTsUs).strategyStates +
            (a.positions.map (legAmount market μ.weight)).sum ∧
        OneSidedOwners s'.strategyStates := by
    intro μ market hlinear
    rw [hstates]
    refine ownerShare_foldl_transferPosition μ a.positions ht.owners market hlinear (hp.keys a ha)
      fun q hq hname => ?_
    have := hexact q hq
    unfold allocationQuantity at this
    rwa [if_neg (by simpa using hname)] at this
  rw [hframe]
  refine ⟨ht.active_eq, ht.allocations_eq, ht.pending, ht.accounts, ?_, ?_, ?_⟩
  · exact (hmoved Measure.netQuantity ⟨"", 0⟩ rfl).2
  · intro hinactive μ market hlinear
    have hlegs := sum_legAmount_of_balanced (hbalanced hinactive a ha) (hp.named hinactive a ha)
      market μ.weight
    show ownerShare μ market s'.strategyStates = _
    rw [(hmoved μ market hlinear).1, hlegs, add_zero]
    exact ht.balanced hinactive μ market hlinear
  · intro μ hμ market hlinear
    have hlegs := sum_legAmount_of_weight_zero hμ.weight a.positions market
    show ownerShare μ market s'.strategyStates ≤ _
    rw [(hmoved μ market hlinear).1, hlegs, add_zero]
    exact ht.covered μ hμ market hlinear

theorem RunInv.bookFill (hs : RunInv p s) {fill : PreparedFill ℚ} (h : s.bookFill fill = .ok s') :
    RunInv p s' := by
  have hframe := bookFill_frame h
  obtain ⟨haccounts, howners⟩ := oneSided_bookFill h hs.accounts hs.owners
  refine ⟨?_, ?_, ?_, haccounts, howners, ?_, ?_⟩
  · rw [hframe]
    exact hs.active_eq
  · rw [hframe]
    exact hs.allocations_eq
  · rw [hframe]
    exact hs.pending
  · intro hinactive μ market hlinear
    have howned : (fillOwner s.strategyAllocationActive fill).isSome = true := by
      unfold fillOwner
      rw [hs.active_eq, hinactive]
      rfl
    rw [accountShare_bookFill μ h hs.accounts market hlinear,
      ownerShare_bookFill μ h hs.owners market hlinear, hs.balanced hinactive μ market hlinear,
      howned]
    simp only [and_true]
  · intro μ hμ market hlinear
    have hle := hs.covered μ hμ market hlinear
    have hfill := hμ.nonneg s.feeRates fill
    rw [accountShare_bookFill μ h hs.accounts market hlinear,
      ownerShare_bookFill μ h hs.owners market hlinear]
    by_cases hm : fill.event.market = market
    · rw [if_pos hm]
      by_cases howned : (fillOwner s.strategyAllocationActive fill).isSome = true
      · rw [if_pos ⟨hm, howned⟩]
        linarith
      · rw [if_neg fun hand => howned hand.2]
        linarith
    · rw [if_neg hm, if_neg fun hand => hm hand.1]
      linarith

theorem RunInv.foldlM_applyNextAllocation (hs : RunInv p s) (hp : Opened p)
    (hbalanced : p.strategyAllocationActive = false → ∀ a ∈ p.allocations, BalancedLegs a.positions)
    {l : List (AllocationSnapshot ℚ)} (hl : ∀ a ∈ l, a ∈ p.allocations) (hexact : ExactFrom l s)
    (h : l.foldlM TimelineSourceState.applyNextAllocation s = .ok s') : RunInv p s' := by
  induction l generalizing s with
  | nil =>
    cases h
    exact hs
  | cons a l ih =>
    rw [foldlM_cons] at h
    obtain ⟨t, ht, hrest⟩ := bind_eq_ok.1 h
    refine ih (hs.applyNextAllocation hp hbalanced (hl a List.mem_cons_self) hexact.1 ht)
      (fun b hb => hl b (List.mem_cons_of_mem _ hb)) (hexact.2 t ht) hrest

theorem RunInv.advanceBefore (hs : RunInv p s) (hp : Opened p)
    (hbalanced : p.strategyAllocationActive = false → ∀ a ∈ p.allocations, BalancedLegs a.positions)
    {cutoff : Int} (hexact : s.ExactBefore cutoff) (h : s.advanceBefore cutoff = .ok s') :
    RunInv p s' := by
  refine hs.foldlM_applyNextAllocation hp hbalanced (fun a ha => ?_) hexact h
  rw [← hs.allocations_eq]
  exact List.mem_of_mem_drop (List.takeWhile_subset _ ha)

theorem RunInv.applyFill (hs : RunInv p s) (hp : Opened p)
    (hbalanced : p.strategyAllocationActive = false → ∀ a ∈ p.allocations, BalancedLegs a.positions)
    {fill : PreparedFill ℚ} (hexact : s.ExactBefore fill.fillTsUs)
    (h : s.applyFill fill = .ok s') : RunInv p s' := by
  rw [applyFill_eq] at h
  obtain ⟨t, ht, h⟩ := bind_eq_ok.1 h
  exact ((hs.advanceBefore hp hbalanced hexact ht).activateSnapshotAt hp _).bookFill h

end Steps

/-- Every state of an exact run keeps the invariant. -/
theorem ExactRun.runInv {p : PreparedSourceEvents ℚ} {initial s : TimelineSourceState ℚ}
    (hp : Opened p)
    (hbalanced : p.strategyAllocationActive = false → ∀ a ∈ p.allocations, BalancedLegs a.positions)
    (hinitial : RunInv p initial) (h : ExactRun initial s) : RunInv p s := by
  induction h with
  | start => exact hinitial
  | activate tsUs _ ih => exact ih.activateSnapshotAt hp tsUs
  | fill prepared _ hexact hstep ih => exact ih.applyFill hp hbalanced hexact hstep
  | advance tsUs inclusive _ hexact hstep ih =>
    rw [advanceAllocations_eq] at hstep
    exact ih.advanceBefore hp hbalanced hexact hstep

end TimelineSourceState

end CtaManager
