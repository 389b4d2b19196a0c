import CtaManager.Nav.Activation
import CtaManager.Nav.LedgerMeasure

/-!
The share of a market that the account and the strategies hold, by any measure.

A fill raises the account's share and the share of the ledger that owns it by the
same amount (`accountShare_bookFill`, `ownerShare_bookFill`).  The legs of a
correction whose `before` quantities are exact raise the strategies' share by what
the legs move (`ownerShare_foldl_transferPosition`).
-/

namespace CtaManager

open Check

namespace TimelineSourceState

/-! ## Shares -/

/-- What the account ledger of a market comes to. -/
def accountShare (μ : Measure) (market : Market) (states : OrdMap Market (VenueState ℚ)) : ℚ :=
  states[market]?.elim 0 μ.of

/-- What the strategy ledgers of a market come to. -/
def ownerShare (μ : Measure) (market : Market)
    (strategyStates : OrdMap StrategyMarket (VenueState ℚ)) : ℚ :=
  OrdMap.sumOf (fun key state => if key.market = market then μ.of state else 0) strategyStates

/-- Every account ledger of a linear market has lots on one side only. -/
def OneSidedAccounts (states : OrdMap Market (VenueState ℚ)) : Prop :=
  ∀ (market : Market) (state : VenueState ℚ), states[market]? = some state →
    isInverseVenue market.venueCode = false → state.fifo.OneSided

def OneSidedOwners (strategyStates : OrdMap StrategyMarket (VenueState ℚ)) : Prop :=
  ∀ (key : StrategyMarket) (state : VenueState ℚ), strategyStates[key]? = some state →
    isInverseVenue key.market.venueCode = false → state.fifo.OneSided

theorem oneSidedAccounts_empty : OneSidedAccounts ∅ := by
  intro market state h
  simp at h

theorem oneSidedOwners_empty : OneSidedOwners ∅ := by
  intro key state h
  simp at h

theorem OneSidedAccounts.insert {states : OrdMap Market (VenueState ℚ)} (h : OneSidedAccounts states)
    (market : Market) (state : VenueState ℚ)
    (hstate : isInverseVenue market.venueCode = false → state.fifo.OneSided) :
    OneSidedAccounts (states.insert market state) := by
  intro market' state' hlookup hlinear
  rw [OrdMap.getElem?_insert_of_key] at hlookup
  split at hlookup
  · rename_i heq
    subst heq
    obtain rfl := Option.some.inj hlookup
    exact hstate hlinear
  · exact h market' state' hlookup hlinear

theorem OneSidedOwners.insert {strategyStates : OrdMap StrategyMarket (VenueState ℚ)}
    (h : OneSidedOwners strategyStates) (key : StrategyMarket) (state : VenueState ℚ)
    (hstate : isInverseVenue key.market.venueCode = false → state.fifo.OneSided) :
    OneSidedOwners (strategyStates.insert key state) := by
  intro key' state' hlookup hlinear
  rw [OrdMap.getElem?_insert_of_key] at hlookup
  split at hlookup
  · rename_i heq
    subst heq
    obtain rfl := Option.some.inj hlookup
    exact hstate hlinear
  · exact h key' state' hlookup hlinear

theorem accountShare_insert (μ : Measure) (market market' : Market)
    (states : OrdMap Market (VenueState ℚ)) (state : VenueState ℚ) :
    accountShare μ market (states.insert market' state) =
      if market' = market then μ.of state else accountShare μ market states := by
  unfold accountShare
  rw [OrdMap.getElem?_insert_of_key]
  split
  · rfl
  · rfl

/-- A ledger that changes, changes the share of its market. -/
theorem ownerShare_insert (μ : Measure) (market : Market)
    (strategyStates : OrdMap StrategyMarket (VenueState ℚ)) (key : StrategyMarket)
    (state : VenueState ℚ) :
    ownerShare μ market (strategyStates.insert key state) = ownerShare μ market strategyStates +
      if key.market = market then μ.of state - strategyStates[key]?.elim 0 μ.of else 0 := by
  have h := OrdMap.sumOf_insert (fun (key : StrategyMarket) (state : VenueState ℚ) =>
    if key.market = market then μ.of state else 0) strategyStates key state
  unfold ownerShare
  by_cases hm : key.market = market
  · rw [if_pos hm] at h ⊢
    have helim : strategyStates[key]?.elim 0 (fun state =>
        if key.market = market then μ.of state else 0) = strategyStates[key]?.elim 0 μ.of := by
      cases strategyStates[key]? with
      | none => rfl
      | some state => simp [hm]
    rw [helim] at h
    linarith
  · rw [if_neg hm] at h ⊢
    have helim : strategyStates[key]?.elim 0 (fun state =>
        if key.market = market then μ.of state else 0) = 0 := by
      cases strategyStates[key]? with
      | none => rfl
      | some state => simp [hm]
    rw [helim] at h
    linarith

/-! ## Fills -/

/-- Booking a fill on a ledger: what it adds, and that the ledger stays one-sided. -/
theorem bookOn_measure (μ : Measure) {feeRates : FeeRates ℚ} {fill : PreparedFill ℚ}
    {ledger : Option (VenueState ℚ)} {booked : VenueState ℚ}
    (h : bookOn feeRates fill ledger = .ok booked)
    (hlinear : isInverseVenue fill.event.venueCode = false)
    (hledger : ∀ state, ledger = some state → state.fifo.OneSided) :
    μ.of booked = ledger.elim 0 μ.of + μ.ofFill feeRates fill ∧ booked.fifo.OneSided := by
  obtain ⟨hquantity, -, rfl⟩ := bookOn_ok h
  have hside : (ledgerFor fill ledger).fifo.OneSided := by
    cases ledger with
    | none =>
      unfold ledgerFor VenueState.new
      simp only [Option.getD_none, hlinear]
      exact QuantityFifo.OneSided.empty
    | some state => exact hledger state rfl
  have hof : μ.of (ledgerFor fill ledger) = ledger.elim 0 μ.of := by
    cases ledger with
    | none => exact μ.new_eq fill.event hlinear
    | some state => rfl
  refine ⟨?_, ?_⟩
  · rw [μ.booked_eq _ feeRates fill hside.linear hquantity.le, hof]
  · rw [booked_fifo]
    exact hside.applyFill _ _ _ hquantity.le

theorem accountShare_bookFill (μ : Measure) {s s' : TimelineSourceState ℚ} {fill : PreparedFill ℚ}
    (h : s.bookFill fill = .ok s') (hs : OneSidedAccounts s.states) (market : Market)
    (hlinear : isInverseVenue market.venueCode = false) :
    accountShare μ market s'.states = accountShare μ market s.states +
      if fill.event.market = market then μ.ofFill s.feeRates fill else 0 := by
  unfold bookFill at h
  obtain ⟨s₁, h₁, h⟩ := bind_eq_ok.1 h
  obtain ⟨s₂, h₂, h⟩ := bind_eq_ok.1 h
  cases h
  rw [bookStrategy_frame h₂]
  unfold bookAccount at h₁
  obtain ⟨account, haccount, h₁⟩ := bind_eq_ok.1 h₁
  cases h₁
  simp only
  rw [accountShare_insert]
  by_cases hm : fill.event.market = market
  · subst hm
    rw [if_pos rfl, if_pos rfl]
    exact (bookOn_measure μ haccount hlinear fun state hstate => hs _ state hstate hlinear).1
  · rw [if_neg hm, if_neg hm, add_zero]

theorem fillOwner_market {active : Bool} {fill : PreparedFill ℚ} {owner : StrategyMarket}
    (h : fillOwner active fill = some owner) : owner.market = fill.event.market := by
  unfold fillOwner at h
  split at h
  · cases h
  · rw [← Option.some.inj h]

theorem ownerShare_bookFill (μ : Measure) {s s' : TimelineSourceState ℚ} {fill : PreparedFill ℚ}
    (h : s.bookFill fill = .ok s') (hs : OneSidedOwners s.strategyStates) (market : Market)
    (hlinear : isInverseVenue market.venueCode = false) :
    ownerShare μ market s'.strategyStates = ownerShare μ market s.strategyStates +
      if fill.event.market = market ∧ (fillOwner s.strategyAllocationActive fill).isSome then
        μ.ofFill s.feeRates fill else 0 := by
  unfold bookFill at h
  obtain ⟨s₁, h₁, h⟩ := bind_eq_ok.1 h
  obtain ⟨s₂, h₂, h⟩ := bind_eq_ok.1 h
  cases h
  simp only
  have hs₁ := bookAccount_frame h₁
  unfold bookStrategy at h₂
  rw [hs₁] at h₂
  simp only at h₂
  cases howner : fillOwner s.strategyAllocationActive fill with
  | none =>
    rw [howner] at h₂
    cases h₂
    simp
  | some owner =>
    rw [howner] at h₂
    obtain ⟨ledger, hledger, h₂⟩ := bind_eq_ok.1 h₂
    cases h₂
    have hmarket := fillOwner_market howner
    simp only [Option.isSome_some, and_true]
    rw [ownerShare_insert, hmarket]
    by_cases hm : fill.event.market = market
    · subst hm
      rw [if_pos rfl, if_pos rfl, (bookOn_measure μ hledger hlinear fun state hstate =>
        hs owner state hstate (by rw [hmarket]; exact hlinear)).1]
      ring
    · rw [if_neg hm, if_neg hm]

theorem oneSided_bookFill {s s' : TimelineSourceState ℚ} {fill : PreparedFill ℚ}
    (h : s.bookFill fill = .ok s') (haccounts : OneSidedAccounts s.states)
    (howners : OneSidedOwners s.strategyStates) :
    OneSidedAccounts s'.states ∧ OneSidedOwners s'.strategyStates := by
  unfold bookFill at h
  obtain ⟨s₁, h₁, h⟩ := bind_eq_ok.1 h
  obtain ⟨s₂, h₂, h⟩ := bind_eq_ok.1 h
  cases h
  simp only
  have hs₁ := bookAccount_frame h₁
  constructor
  · rw [bookStrategy_frame h₂]
    unfold bookAccount at h₁
    obtain ⟨account, haccount, h₁⟩ := bind_eq_ok.1 h₁
    cases h₁
    exact haccounts.insert _ _ fun hlinear => (bookOn_measure Measure.netQuantity haccount hlinear
      fun state hstate => haccounts _ state hstate hlinear).2
  · unfold bookStrategy at h₂
    rw [hs₁] at h₂
    simp only at h₂
    cases howner : fillOwner s.strategyAllocationActive fill with
    | none =>
      rw [howner] at h₂
      cases h₂
      exact howners
    | some owner =>
      rw [howner] at h₂
      obtain ⟨ledger, hledger, h₂⟩ := bind_eq_ok.1 h₂
      cases h₂
      have hmarket := fillOwner_market howner
      refine howners.insert _ _ fun hlinear => (bookOn_measure Measure.netQuantity hledger
        (by rw [hmarket] at hlinear; exact hlinear) fun state hstate =>
          howners owner state hstate hlinear).2

/-! ## Corrections -/

/-- The quantity a strategy ledger holds. -/
def ownerQuantity (strategyStates : OrdMap StrategyMarket (VenueState ℚ)) (key : StrategyMarket) :
    ℚ :=
  strategyStates[key]?.elim 0 fun owner => owner.fifo.netQuantity

/-- What a leg moves. -/
def legAmount (market : Market) (weight : ℚ → ℚ) (p : AllocationPosition ℚ) : ℚ :=
  if p.strategy = UNALLOCATED_STRATEGY then 0
  else if p.market = market then (p.afterQty - p.beforeQty) * weight p.referencePrice else 0

/-- The ledger of a leg after the transfer. -/
theorem transferPosition_strategyStates {s : TimelineSourceState ℚ} {p : AllocationPosition ℚ}
    (hp : p.strategy ≠ UNALLOCATED_STRATEGY) :
    (s.transferPosition p).strategyStates = s.strategyStates.insert p.key
      (transferTo (s.strategyStates[p.key]?.getD (transferState p)) p.afterQty p.referencePrice) := by
  unfold transferPosition
  rw [if_neg (by simpa using hp)]
  rfl

theorem ownerOf_oneSided {s : TimelineSourceState ℚ} (hs : OneSidedOwners s.strategyStates)
    (p : AllocationPosition ℚ) (hlinear : isInverseVenue p.venueCode = false) :
    (s.strategyStates[p.key]?.getD (transferState p)).fifo.OneSided := by
  cases hlookup : s.strategyStates[p.key]? with
  | none => exact oneSided_fromInitialPosition _ _ _ _ _ hlinear
  | some owner => exact hs p.key owner hlookup hlinear

theorem netQuantity_ownerOf (s : TimelineSourceState ℚ) (p : AllocationPosition ℚ)
    (hlinear : isInverseVenue p.venueCode = false) :
    (s.strategyStates[p.key]?.getD (transferState p)).fifo.netQuantity =
      ownerQuantity s.strategyStates p.key := by
  unfold ownerQuantity
  cases s.strategyStates[p.key]? with
  | none => exact netQuantity_fromInitialPosition _ _ _ _ _ hlinear
  | some owner => rfl

theorem oneSidedOwners_transferPosition {s : TimelineSourceState ℚ}
    (hs : OneSidedOwners s.strategyStates) (p : AllocationPosition ℚ) :
    OneSidedOwners (s.transferPosition p).strategyStates := by
  by_cases hp : p.strategy = UNALLOCATED_STRATEGY
  · unfold transferPosition
    rw [if_pos (by simpa using hp)]
    exact hs
  · rw [transferPosition_strategyStates hp]
    exact hs.insert _ _ fun hlinear =>
      (transferTo_linear (ownerOf_oneSided hs p hlinear) p.afterQty p.referencePrice).1

/-- A leg whose `before` quantity is exact moves what it says. -/
theorem ownerShare_transferPosition (μ : Measure) {s : TimelineSourceState ℚ}
    (hs : OneSidedOwners s.strategyStates) (p : AllocationPosition ℚ) (market : Market)
    (hlinear : isInverseVenue market.venueCode = false)
    (hbefore : p.strategy ≠ UNALLOCATED_STRATEGY →
      ownerQuantity s.strategyStates p.key = p.beforeQty) :
    ownerShare μ market (s.transferPosition p).strategyStates =
      ownerShare μ market s.strategyStates + legAmount market μ.weight p := by
  unfold legAmount
  by_cases hp : p.strategy = UNALLOCATED_STRATEGY
  · rw [if_pos hp, add_zero]
    unfold transferPosition
    rw [if_pos (by simpa using hp)]
  · rw [if_neg hp, transferPosition_strategyStates hp, ownerShare_insert]
    by_cases hm : p.market = market
    · have hvenue : isInverseVenue p.venueCode = false := by
        rw [← hm] at hlinear
        exact hlinear
      rw [if_pos hm, if_pos (show p.key.market = market from hm),
        μ.transfer_eq _ _ _ (ownerOf_oneSided hs p hvenue), netQuantity_ownerOf s p hvenue,
        hbefore hp]
      have hof : μ.of (s.strategyStates[p.key]?.getD (transferState p)) =
          s.strategyStates[p.key]?.elim 0 μ.of := by
        cases s.strategyStates[p.key]? with
        | none => exact μ.opened_eq p hvenue
        | some owner => rfl
      rw [hof]
      ring
    · rw [if_neg hm, if_neg (show ¬ p.key.market = market from hm)]

/-- The transfer of one leg leaves the other ledgers alone. -/
theorem ownerQuantity_transferPosition_of_ne (s : TimelineSourceState ℚ)
    (p : AllocationPosition ℚ) (key : StrategyMarket) (hkey : p.key ≠ key) :
    ownerQuantity (s.transferPosition p).strategyStates key =
      ownerQuantity s.strategyStates key := by
  by_cases hp : p.strategy = UNALLOCATED_STRATEGY
  · unfold transferPosition
    rw [if_pos (by simpa using hp)]
  · unfold ownerQuantity
    rw [transferPosition_strategyStates hp, OrdMap.getElem?_insert_of_key, if_neg hkey]

/-- The legs of a correction, each of its own ledger and with an exact `before`
quantity, move what they say. -/
theorem ownerShare_foldl_transferPosition (μ : Measure) (l : List (AllocationPosition ℚ))
    {s : TimelineSourceState ℚ} (hs : OneSidedOwners s.strategyStates) (market : Market)
    (hlinear : isInverseVenue market.venueCode = false)
    (hkeys : (l.map AllocationPosition.key).Nodup)
    (hbefore : ∀ p ∈ l, p.strategy ≠ UNALLOCATED_STRATEGY →
      ownerQuantity s.strategyStates p.key = p.beforeQty) :
    ownerShare μ market (l.foldl transferPosition s).strategyStates =
        ownerShare μ market s.strategyStates + (l.map (legAmount market μ.weight)).sum ∧
      OneSidedOwners (l.foldl transferPosition s).strategyStates := by
  induction l generalizing s with
  | nil => exact ⟨by simp, hs⟩
  | cons p l ih =>
    rw [List.map_cons, List.nodup_cons] at hkeys
    obtain ⟨h1, h2⟩ := ih (oneSidedOwners_transferPosition hs p) hkeys.2 fun q hq hname => by
      have hne : p.key ≠ q.key := fun h => hkeys.1 (h ▸ List.mem_map_of_mem hq)
      rw [ownerQuantity_transferPosition_of_ne s p q.key hne]
      exact hbefore q (List.mem_cons_of_mem _ hq) hname
    refine ⟨?_, h2⟩
    rw [List.foldl_cons, h1, ownerShare_transferPosition μ hs p market hlinear
      (hbefore p List.mem_cons_self), List.map_cons, List.sum_cons, add_assoc]

/-- The legs of each market move nothing in sum, all at one reference price. -/
def BalancedLegs (l : List (AllocationPosition ℚ)) : Prop :=
  ∀ market : Market,
    ((l.filter fun p => decide (p.market = market)).map fun p => p.afterQty - p.beforeQty).sum = 0 ∧
    ∀ p ∈ l, ∀ q ∈ l, p.market = market → q.market = market →
      p.referencePrice = q.referencePrice

theorem sum_legAmount_of_balanced {l : List (AllocationPosition ℚ)} (h : BalancedLegs l)
    (hnamed : ∀ p ∈ l, p.strategy ≠ UNALLOCATED_STRATEGY) (market : Market) (weight : ℚ → ℚ) :
    (l.map (legAmount market weight)).sum = 0 := by
  obtain ⟨hsum, hprice⟩ := h market
  -- with one reference price the legs are the moved quantities times one weight
  obtain ⟨w, hw⟩ : ∃ w, ∀ p ∈ l, p.market = market → weight p.referencePrice = w := by
    rcases hl : l.filter (fun p => decide (p.market = market)) with _ | ⟨p, rest⟩
    · refine ⟨0, fun p hp hm => ?_⟩
      have : p ∈ l.filter (fun p => decide (p.market = market)) :=
        List.mem_filter.2 ⟨hp, by simpa using hm⟩
      rw [hl] at this
      exact absurd this List.not_mem_nil
    · have hp : p ∈ l.filter (fun p => decide (p.market = market)) := by
        rw [hl]
        exact List.mem_cons_self
      obtain ⟨hpl, hpm⟩ := List.mem_filter.1 hp
      exact ⟨weight p.referencePrice, fun q hq hm => by
        rw [hprice q hq p hpl hm (by simpa using hpm)]⟩
  have hlegs : ∀ m : List (AllocationPosition ℚ), (∀ p ∈ m, p ∈ l) →
      (m.map (legAmount market weight)).sum =
        ((m.filter fun p => decide (p.market = market)).map fun p =>
          p.afterQty - p.beforeQty).sum * w := by
    intro m hm
    induction m with
    | nil => simp
    | cons p m ih =>
      have hpl := hm p List.mem_cons_self
      rw [List.map_cons, List.sum_cons, ih fun q hq => hm q (List.mem_cons_of_mem _ hq)]
      unfold legAmount
      rw [if_neg (hnamed p hpl)]
      by_cases hpm : p.market = market
      · rw [if_pos hpm, hw p hpl hpm, List.filter_cons_of_pos (by simpa using hpm), List.map_cons,
          List.sum_cons]
        ring
      · rw [if_neg hpm, List.filter_cons_of_neg (by simpa using hpm), zero_add]
  rw [hlegs l fun p hp => hp, hsum, zero_mul]

end TimelineSourceState

end CtaManager
