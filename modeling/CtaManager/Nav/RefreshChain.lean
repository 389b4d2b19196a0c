import CtaManager.Nav.Refresh

/-!
A chain of refreshes is a full rebuild.

Each change of the history brings new events and new order roles.  The cached
source is refreshed, or rebuilt when `refresh` asks for it; after any number of
changes it is the one a rebuild from the last history gives
(`refreshChain_eq_rebuild`).
-/

namespace CtaManager

open Check StableSort FirstSeen PartitionPoint CachedTimelineSource

variable {F : Type} [F64 F]

/-! ## Changes of a history -/

/-- The new events start before the last known record key. -/
def outOfOrder (known new : List (NavEvent F)) : Bool :=
  match known.getLast?, new.head? with
  | some last, some first => decide (first.recordKey < last.recordKey)
  | _, _ => false

/-- Events are kept in record key order. -/
def appendEvents (known new : List (NavEvent F)) : List (NavEvent F) :=
  if outOfOrder known new then stableSort NavEvent.recordKey (known ++ new) else known ++ new

/-- A fill whose role comes from its order, when that order changed its role. -/
def isChangedLegacyFill (old new : LiquidityByOrder) (event : NavEvent F) : Bool :=
  event.fillLiquidity.isNone && decide (0 < event.amountUpdate) &&
    decide (old[event.orderKey]? ≠ new[event.orderKey]?)

/-- The earliest known fill that changes its role. -/
def earliestLiquidityFillTsUs (events : List (NavEvent F)) (old new : LiquidityByOrder) :
    Option Int :=
  ((events.filter (isChangedLegacyFill old new)).map fifoTsUs).min?

/-- What one read of the source adds. -/
structure HistoryUpdate (F : Type) where
  events : List (NavEvent F)
  liquidityByOrder : LiquidityByOrder

def NavSourceHistory.update (history : NavSourceHistory F) (update : HistoryUpdate F) :
    NavSourceHistory F :=
  { allocations := history.allocations
    events := appendEvents history.events update.events
    liquidityByOrder := update.liquidityByOrder
    revision := history.revision + 1
    change := some
      { previousRevision := history.revision
        events := update.events
        earliestLiquidityFillTsUs := earliestLiquidityFillTsUs history.events
          history.liquidityByOrder update.liquidityByOrder } }

/-! ## The chain -/

section Chain

variable [Fingerprint F] (source : SourceConfig F) (snapshot : Option (PositionSnapshot F))
  (strategySnapshot : Option (StrategyPositionSnapshot F)) (initialPositionCount : Nat)

/-- The full rebuild of a source from its history. -/
def rebuildSource (history : NavSourceHistory F) : Except NavError (CachedTimelineSource F) := do
  let prepared ← prepareSourceEvents source history.events snapshot strategySnapshot
    history.liquidityByOrder history.allocations
  build source prepared initialPositionCount

/-- A refresh of what there is, with the rebuild to fall back on. -/
def refreshOrRebuild (cached : Option (CachedTimelineSource F)) (history : NavSourceHistory F) :
    Except NavError (CachedTimelineSource F) :=
  match cached with
  | none => rebuildSource source snapshot strategySnapshot initialPositionCount history
  | some cached => do
    let refreshed ← cached.refresh source history initialPositionCount
    refreshed.elim
      (rebuildSource source snapshot strategySnapshot initialPositionCount history) .ok

/-- One change; after a failure there is nothing to refresh. -/
def refreshStep (state : Option (CachedTimelineSource F) × NavSourceHistory F)
    (update : HistoryUpdate F) : Option (CachedTimelineSource F) × NavSourceHistory F :=
  let history := state.2.update update
  ((refreshOrRebuild source snapshot strategySnapshot initialPositionCount state.1 history).toOption,
    history)

end Chain

/-! ## Roles -/

omit [F64 F] in
theorem liquidityRoleForEvent_congr {event : NavEvent F} {old new : LiquidityByOrder}
    (h : event.fillLiquidity = none → old[event.orderKey]? = new[event.orderKey]?) :
    liquidityRoleForEvent event new = liquidityRoleForEvent event old := by
  unfold liquidityRoleForEvent
  split
  · rfl
  · cases hl : event.fillLiquidity with
    | some role => cases role <;> rfl
    | none => simp only [h hl]

omit [F64 F] in
theorem recomputeLiquidity_preparedFill (old new : LiquidityByOrder) (event : NavEvent F)
    (side : Side) :
    recomputeLiquidity new (preparedFill old event side) = preparedFill new event side := rfl

omit [F64 F] in
theorem recomputeLiquidity_attribute (roles : LiquidityByOrder) (active : Bool)
    (initialStates : OrdMap Market (VenueState F)) (fill : PreparedFill F) :
    recomputeLiquidity roles (fill.attributeInitialPosition active initialStates) =
      (recomputeLiquidity roles fill).attributeInitialPosition active initialStates := rfl

/-- The fills of the same events under other roles. -/
theorem fillsOf_recompute (source : SourceConfig F) (snapshotTsUs : Option Int)
    (old new : LiquidityByOrder) (events : List (NavEvent F)) :
    fillsOf source snapshotTsUs new events =
      (fillsOf source snapshotTsUs old events).map (recomputeLiquidity new) := by
  unfold fillsOf
  rw [List.map_filterMap]
  refine List.filterMap_congr fun event _ => ?_
  unfold eventFill
  split
  · rfl
  · split <;> rfl

theorem earliestLiquidityFillTsUs_le {events : List (NavEvent F)} {old new : LiquidityByOrder}
    {event : NavEvent F} (he : event ∈ events) (hc : isChangedLegacyFill old new event = true) :
    ∃ t, earliestLiquidityFillTsUs events old new = some t ∧ t ≤ fifoTsUs event := by
  have hm : fifoTsUs event ∈ (events.filter (isChangedLegacyFill old new)).map fifoTsUs :=
    List.mem_map_of_mem (List.mem_filter.2 ⟨he, hc⟩)
  unfold earliestLiquidityFillTsUs
  cases ht : ((events.filter (isChangedLegacyFill old new)).map fifoTsUs).min? with
  | none =>
    rw [List.min?_eq_none_iff] at ht
    rw [ht] at hm
    exact absurd hm List.not_mem_nil
  | some t => exact ⟨t, rfl, (List.min?_eq_some_iff.1 ht).2 _ hm⟩

/-- A known fill before the earliest change keeps its role. -/
theorem recomputeLiquidity_of_lt {source : SourceConfig F} {snapshotTsUs : Option Int}
    {old new : LiquidityByOrder} {events : List (NavEvent F)} {fill : PreparedFill F}
    (hfill : fill ∈ fillsOf source snapshotTsUs old events)
    (hlt : ∀ t, earliestLiquidityFillTsUs events old new = some t → fill.fillTsUs < t) :
    recomputeLiquidity new fill = fill := by
  obtain ⟨event, hevent, hev⟩ := List.mem_filterMap.1 hfill
  unfold eventFill at hev
  split at hev
  · cases hev
  split at hev
  · rename_i hb side hside
    rw [Option.some.injEq] at hev
    subst hev
    -- an accepted fill has a positive amount
    have hpos : 0 < event.amountUpdate := by
      unfold validatedFillSide at hside
      split at hside
      · cases hside
      · rename_i hfinite
        split at hside
        · cases hside
        · rename_i hzero
          simp only [Bool.or_eq_true, Bool.not_eq_true', decide_eq_true_eq, not_or,
            Bool.not_eq_false] at hfinite
          exact F64.pos_of_finite _ hfinite.1 hfinite.2 (by simpa using hzero)
    have hrole : liquidityRoleForEvent event new = liquidityRoleForEvent event old := by
      refine liquidityRoleForEvent_congr fun hnone => ?_
      by_contra hne
      have hc : isChangedLegacyFill old new event = true := by
        simp [isChangedLegacyFill, hnone, hpos, hne]
      obtain ⟨t, ht, hle⟩ := earliestLiquidityFillTsUs_le hevent hc
      have := hlt t ht
      change fifoTsUs event < t at this
      omega
    rw [recomputeLiquidity_preparedFill]
    unfold preparedFill
    rw [hrole]
  · cases hev

/-! ## The events of a change -/

/-- The counters after a change. -/
def countEvents (source : SourceConfig F) (p : PreparedSourceEvents F)
    (events : List (NavEvent F)) : PreparedSourceEvents F :=
  { p with
    orderEventCount := p.orderEventCount + events.length
    ignoredAtOrBeforeSnapshotEventCount := p.ignoredAtOrBeforeSnapshotEventCount +
      events.countP (isBeforeSnapshot p.snapshotTsUs)
    ignoredNonFillEventCount := p.ignoredNonFillEventCount +
      events.countP (isNonFill source p.snapshotTsUs) }

theorem changeEvent_eq_ok {source : SourceConfig F} {roles : LiquidityByOrder}
    {p : PreparedSourceEvents F} {added : List (PreparedFill F)} {event : NavEvent F}
    {result : PreparedSourceEvents F × List (PreparedFill F)} :
    changeEvent source roles (p, added) event = .ok result ↔
      Acceptable source p.snapshotTsUs event ∧
        result = (countEvents source p [event], added ++
          (fillsOf source p.snapshotTsUs roles [event]).map
            (PreparedFill.attributeInitialPosition p.strategyAllocationActive p.initialStates)) := by
  unfold changeEvent Acceptable countEvents fillsOf
  simp only
  by_cases hb : isBeforeSnapshot p.snapshotTsUs event = true
  · simp [hb, eventFill, isNonFill]
    exact eq_comm
  · rw [if_neg hb]
    cases hv : validatedFillSide source event with
    | error e => simp [hb]
    | ok o =>
      cases o with
      | none =>
        simp [hb, hv, eventFill, isNonFill, pure_eq_ok]
        exact eq_comm
      | some side =>
        simp [hb, hv, eventFill, isNonFill, pure_eq_ok]
        exact eq_comm

theorem changeEvents_eq {source : SourceConfig F} {roles : LiquidityByOrder}
    {p : PreparedSourceEvents F} {added : List (PreparedFill F)} {events : List (NavEvent F)}
    {result : PreparedSourceEvents F × List (PreparedFill F)} :
    events.foldlM (changeEvent source roles) (p, added) = .ok result ↔
      (∀ event ∈ events, Acceptable source p.snapshotTsUs event) ∧
        result = (countEvents source p events, added ++
          (fillsOf source p.snapshotTsUs roles events).map
            (PreparedFill.attributeInitialPosition p.strategyAllocationActive p.initialStates)) := by
  induction events generalizing p added with
  | nil =>
    rw [foldlM_nil]
    simp [countEvents, fillsOf]
    exact eq_comm
  | cons event events ih =>
    have hcons : fillsOf source p.snapshotTsUs roles (event :: events) =
        fillsOf source p.snapshotTsUs roles [event] ++
          fillsOf source p.snapshotTsUs roles events := by
      rw [← fillsOf_append, List.singleton_append]
    have hcount : countEvents source (countEvents source p [event]) events =
        countEvents source p (event :: events) := by
      simp only [countEvents, List.countP_cons, List.countP_nil, List.length_cons, List.length_nil]
      congr 1 <;> omega
    rw [foldlM_cons, bind_eq_ok, hcons, ← hcount]
    constructor
    · rintro ⟨t, ht, hrest⟩
      obtain ⟨hev, rfl⟩ := changeEvent_eq_ok.1 ht
      obtain ⟨hall, rfl⟩ := ih.1 hrest
      refine ⟨List.forall_mem_cons.2 ⟨hev, hall⟩, ?_⟩
      simp [countEvents]
    · rintro ⟨hall, rfl⟩
      obtain ⟨hev, hrest⟩ := List.forall_mem_cons.1 hall
      refine ⟨_, changeEvent_eq_ok.2 ⟨hev, rfl⟩, ih.2 ⟨hrest, ?_⟩⟩
      simp [countEvents]

/-! ## The preparation of the longer history -/

omit [F64 F] in
/-- The events in replay order do not depend on how the history keeps them. -/
theorem stableSort_appendEvents (known new : List (NavEvent F)) :
    stableSort eventOrder (appendEvents known new) = stableSort eventOrder (known ++ new) := by
  unfold appendEvents
  split
  · refine stableSort_stableSort eventOrder NavEvent.recordKey (fun a b h => ?_) _
    have := congrArg (fun k : EventOrder => (ofLex (ofLex k).2).2) h
    exact this
  · rfl

omit [F64 F] in
theorem perm_appendEvents (known new : List (NavEvent F)) :
    (appendEvents known new).Perm (known ++ new) := by
  unfold appendEvents
  split
  · exact perm_stableSort _ _
  · exact List.Perm.refl _

theorem sortedFillsOf_appendEvents (source : SourceConfig F) (snapshotTsUs : Option Int)
    (roles : LiquidityByOrder) (known new : List (NavEvent F)) :
    stableSort fillOrder (fillsOf source snapshotTsUs roles (appendEvents known new)) =
      stableSort fillOrder (fillsOf source snapshotTsUs roles known ++
        fillsOf source snapshotTsUs roles new) := by
  rw [← fillsOf_stableSort, stableSort_appendEvents, fillsOf_stableSort, fillsOf_append]

omit [F64 F] in
theorem fillOrder_le_of_fillTsUs_lt {a b : PreparedFill F} (h : a.fillTsUs < b.fillTsUs) :
    fillOrder a ≤ fillOrder b :=
  Prod.Lex.le_iff.2 (Or.inl h)

omit [F64 F] in
theorem stableSort_map_recompute (roles : LiquidityByOrder) (l : List (PreparedFill F)) :
    (stableSort fillOrder l).map (recomputeLiquidity roles) =
      stableSort fillOrder (l.map (recomputeLiquidity roles)) :=
  map_stableSort fillOrder fillOrder (recomputeLiquidity roles) (fun _ => rfl) l

/-- The fills after a change: the known ones with their roles now, and the new ones. -/
def mergedFills (p : PreparedSourceEvents F) (roles : LiquidityByOrder)
    (added : List (PreparedFill F)) : List (PreparedFill F) :=
  stableSort fillOrder (p.fillEvents.map (recomputeLiquidity roles) ++ added)

omit [F64 F] in
/-- The reference of a market under other roles. -/
theorem references_recompute (roles : LiquidityByOrder) (fills : List (PreparedFill F))
    (market : Market) :
    (references (fills.map (recomputeLiquidity roles)))[market]? =
      (references fills)[market]? := by
  rw [getElem?_references, getElem?_references, List.find?_map, Option.map_map]
  rfl

omit [F64 F] in
/-- Later fills do not change a reference there is. -/
theorem references_append_of_isSome (l₁ l₂ : List (PreparedFill F)) (market : Market)
    (h : (references l₁)[market]?.isSome) :
    (references (l₁ ++ l₂))[market]? = (references l₁)[market]? := by
  rw [getElem?_references] at h ⊢
  rw [getElem?_references, List.find?_append]
  cases hf : l₁.find? fun fill => fill.event.market = market with
  | none => simp [hf] at h
  | some fill => rfl

omit [F64 F] in
/-- The new fills start after the known ones, or no opening price comes from a fill. -/
theorem not_mayChangeReference {cached : CachedTimelineSource F} {added : List (PreparedFill F)}
    (hfills : SortedFills cached.prepared.fillEvents) (hadded : SortedFills added)
    (h : cached.mayChangeReference (added.head?.map PreparedFill.fillTsUs) = false) :
    (∀ old ∈ cached.prepared.fillEvents, ∀ new ∈ added, old.fillTsUs < new.fillTsUs) ∨
      ∀ (market : Market) (state : VenueState F),
        cached.prepared.initialStates[market]? = some state →
          state.initialReferencePriceSource ≠ some .firstFill := by
  unfold mayChangeReference at h
  rw [Bool.and_eq_false_iff] at h
  rcases h with h | h
  · left
    intro old hold new hnew
    obtain ⟨first, rest, rfl⟩ := List.exists_cons_of_ne_nil (List.ne_nil_of_mem hnew)
    rcases List.eq_nil_or_concat cached.prepared.fillEvents with hnil | ⟨init, last, hlast⟩
    · rw [hnil] at hold
      exact absurd hold List.not_mem_nil
    · rw [List.concat_eq_append] at hlast
      rw [hlast] at h hold hfills
      simp only [List.head?_cons, Option.map_some, Option.any_some, List.getLast?_concat,
        decide_eq_false_iff_not, not_le] at h
      have h1 : old.fillTsUs ≤ last.fillTsUs := by
        rcases List.mem_append.1 hold with hold | hold
        · exact (List.pairwise_append.1 hfills).2.2 old hold last (List.mem_singleton_self _)
        · rw [List.mem_singleton.1 hold]
      have h2 : first.fillTsUs ≤ new.fillTsUs := by
        rcases List.mem_cons.1 hnew with rfl | hnew
        · exact le_rfl
        · exact (List.pairwise_cons.1 hadded).1 new hnew
      omega
  · right
    intro market state hstate hsource
    rw [List.any_eq_false] at h
    refine h (market, state) (OrdMap.mem_toList.2 hstate) ?_
    simp [hsource]

/-- The longer history has the same opening, and the merged fills. -/
theorem PreparedAs.update [Fingerprint F] {source : SourceConfig F}
    {known new : List (NavEvent F)} {snapshot : Option (PositionSnapshot F)}
    {strategySnapshot : Option (StrategyPositionSnapshot F)} {old roles : LiquidityByOrder}
    {allocations : List (AllocationSnapshot F)} {effective : Option (PositionSnapshot F)}
    {p : PreparedSourceEvents F} {added : List (PreparedFill F)}
    (h : PreparedAs source known snapshot strategySnapshot old allocations effective p)
    (hnamed : VenuesNamed (known ++ new))
    (hacc : ∀ event ∈ new, Acceptable source p.snapshotTsUs event)
    (hadded : added = stableSort fillOrder ((fillsOf source p.snapshotTsUs roles new).map
      (PreparedFill.attributeInitialPosition p.strategyAllocationActive p.initialStates)))
    (href : (∀ old ∈ p.fillEvents, ∀ new ∈ added, old.fillTsUs < new.fillTsUs) ∨
      ∀ (market : Market) (state : VenueState F), p.initialStates[market]? = some state →
        state.initialReferencePriceSource ≠ some .firstFill) :
    PreparedAs source (appendEvents known new) snapshot strategySnapshot roles allocations effective
      { countEvents source p new with fillEvents := mergedFills p roles added } := by
  have hperm := perm_appendEvents known new
  have hknown : stableSort fillOrder (fillsOf source p.snapshotTsUs roles known) =
      (stableSort fillOrder (fillsOf source p.snapshotTsUs old known)).map
        (recomputeLiquidity roles) := by
    rw [fillsOf_recompute source p.snapshotTsUs old roles known, stableSort_map_recompute]
  have hfills := sortedFillsOf_appendEvents source p.snapshotTsUs roles known new
  have hvenue : ∀ (events : List (NavEvent F)) (liquidity : LiquidityByOrder),
      (∀ event ∈ events, event ∈ known ++ new) →
      ∀ fill ∈ stableSort fillOrder (fillsOf source p.snapshotTsUs liquidity events),
        fill.event.venue = venueName fill.event.venueCode := by
    intro events liquidity hsub fill hfill
    rw [mem_stableSort] at hfill
    obtain ⟨event, hevent, hev⟩ := List.mem_filterMap.1 hfill
    obtain ⟨-, side, rfl⟩ := eventFill_eq_some hev
    exact hnamed event (hsub event hevent)
  have hvenues : ∀ market : Market,
      initialVenue market.venueCode (references (stableSort fillOrder
        (fillsOf source p.snapshotTsUs old known)))[market]? =
      initialVenue market.venueCode (references (stableSort fillOrder
        (fillsOf source p.snapshotTsUs roles (appendEvents known new))))[market]? := by
    intro market
    rw [initialVenue_references (hvenue known old fun e he => List.mem_append_left _ he),
      initialVenue_references (hvenue _ roles fun e he => hperm.mem_iff.1 he)]
  refine ⟨h.snapshotChecked, h.strategySnapshotChecked, h.effective_eq, h.snapshotTsUs_eq,
    h.active_eq, fun event hevent => ?_, ?_, ?_, ?_, h.allocations_eq, ?_, ?_, ?_⟩
  · rcases List.mem_append.1 (hperm.mem_iff.1 hevent) with he | he
    · exact h.acceptable event he
    · exact hacc event he
  · change mergedFills p roles added = (stableSort fillOrder (fillsOf source p.snapshotTsUs roles
      (appendEvents known new))).map (PreparedFill.attributeInitialPosition
        p.strategyAllocationActive p.initialStates)
    have hmerged : p.fillEvents.map (recomputeLiquidity roles) =
        stableSort fillOrder ((fillsOf source p.snapshotTsUs roles known).map
          (PreparedFill.attributeInitialPosition p.strategyAllocationActive p.initialStates)) := by
      rw [← stableSort_map_attribute, hknown, h.fillEvents_eq, List.map_map, List.map_map]
      rfl
    rw [hfills, stableSort_map_attribute, List.map_append, mergedFills, hadded, hmerged,
      stableSort_append_stableSort]
  · change _ = Except.ok p.initialStates
    rw [← h.initialStates_eq]
    refine foldlM_congr (fun position hposition states => ?_) _
    refine openPosition_congr ?_ (hvenues position.targetMarket).symm states
    cases hprice : position.referencePrice with
    | some price => simp only [initialReference, hprice]
    | none =>
      -- the opening price comes from a fill, so the new fills are all later
      obtain ⟨price, priceSource, state, href1, hstate, hsource⟩ :=
        (openPosition_mem h.initialStates_eq).2 position hposition
      have hsome : (references (stableSort fillOrder
          (fillsOf source p.snapshotTsUs old known)))[position.targetMarket]?.isSome ∧
          priceSource = .firstFill := by
        simp only [initialReference, hprice] at href1
        split at href1
        · rename_i heq
          simp only [Except.ok.injEq, Prod.mk.injEq] at href1
          exact ⟨by simp [heq], href1.2.symm⟩
        · cases href1
      rcases href with hlt | hnone
      · have hsplit : stableSort fillOrder (fillsOf source p.snapshotTsUs roles known ++
            fillsOf source p.snapshotTsUs roles new) =
            stableSort fillOrder (fillsOf source p.snapshotTsUs roles known) ++
              stableSort fillOrder (fillsOf source p.snapshotTsUs roles new) := by
          refine stableSort_append_of_le fillOrder _ _ fun a ha b hb => ?_
          rw [fillsOf_recompute source p.snapshotTsUs old roles known] at ha
          obtain ⟨a', ha', rfl⟩ := List.mem_map.1 ha
          refine fillOrder_le_of_fillTsUs_lt ?_
          refine hlt (a'.attributeInitialPosition p.strategyAllocationActive p.initialStates) ?_
            (b.attributeInitialPosition p.strategyAllocationActive p.initialStates) ?_
          · rw [h.fillEvents_eq]
            exact List.mem_map_of_mem ((mem_stableSort _ _ _).2 ha')
          · rw [hadded, mem_stableSort]
            exact List.mem_map_of_mem hb
        have hold : (references (stableSort fillOrder
            (fillsOf source p.snapshotTsUs roles known)))[position.targetMarket]? =
            (references (stableSort fillOrder
              (fillsOf source p.snapshotTsUs old known)))[position.targetMarket]? := by
          rw [hknown, references_recompute]
        rw [hfills, hsplit, references_append_of_isSome _ _ _ (by rw [hold]; exact hsome.1), hold]
      · exact absurd (hsource.trans (congrArg some hsome.2)) (hnone _ _ hstate)
  · change p.initialStrategyStates = _
    rw [h.initialStrategyStates_eq]
    exact openStrategyPositions_congr hvenues _
  · change p.orderEventCount + new.length = _
    rw [hperm.length_eq, List.length_append, h.orderEventCount_eq]
  · change p.ignoredAtOrBeforeSnapshotEventCount + _ = List.countP _ _
    rw [hperm.countP_eq, List.countP_append, h.ignoredBefore_eq]
    rfl
  · change p.ignoredNonFillEventCount + _ = List.countP _ _
    rw [hperm.countP_eq, List.countP_append, h.ignoredNonFill_eq]
    rfl

/-! ## One refresh -/

/-- The new fills of a change, in order. -/
def addedFills (source : SourceConfig F) (p : PreparedSourceEvents F) (roles : LiquidityByOrder)
    (events : List (NavEvent F)) : List (PreparedFill F) :=
  stableSort fillOrder ((fillsOf source p.snapshotTsUs roles events).map
    (PreparedFill.attributeInitialPosition p.strategyAllocationActive p.initialStates))

theorem build_prepared {source : SourceConfig F} {p : PreparedSourceEvents F} {count : Nat}
    {cached : CachedTimelineSource F} (h : build source p count = .ok cached) :
    cached.prepared = p := by
  unfold build replay finish at h
  obtain ⟨_, -, h⟩ := bind_eq_ok.1 h
  obtain ⟨_, -, h⟩ := bind_eq_ok.1 h
  obtain ⟨_, -, h⟩ := bind_eq_ok.1 h
  cases h
  rfl

omit [F64 F] in
theorem earlier_le {a b : Option Int} {t : Int} (h : earlier a b = some t) :
    (∀ x, a = some x → t ≤ x) ∧ ∀ x, b = some x → t ≤ x := by
  cases a with
  | none =>
    cases h
    exact ⟨fun _ h => (nomatch h), fun x hx => by rw [Option.some.injEq] at hx; omega⟩
  | some a =>
    cases b with
    | none =>
      cases h
      exact ⟨fun x hx => by rw [Option.some.injEq] at hx; omega, fun _ h => (nomatch h)⟩
    | some b =>
      cases h
      exact ⟨fun x hx => by rw [Option.some.injEq] at hx; omega,
        fun x hx => by rw [Option.some.injEq] at hx; omega⟩

section Step

variable {source : SourceConfig F} {p : PreparedSourceEvents F} {old roles : LiquidityByOrder}
  {known : List (NavEvent F)}

/-- The known fills that a change of roles at `t` or later leaves alone. -/
theorem map_recompute_of_lt
    (hp : p.fillEvents = (stableSort fillOrder (fillsOf source p.snapshotTsUs old known)).map
      (PreparedFill.attributeInitialPosition p.strategyAllocationActive p.initialStates))
    {l : List (PreparedFill F)} (hl : ∀ fill ∈ l, fill ∈ p.fillEvents)
    (hlt : ∀ fill ∈ l, ∀ t, earliestLiquidityFillTsUs known old roles = some t → fill.fillTsUs < t) :
    l.map (recomputeLiquidity roles) = l := by
  refine (List.map_congr_left fun fill hfill => ?_).trans (List.map_id l)
  have hmem := hl fill hfill
  rw [hp] at hmem
  obtain ⟨fill', hfill', rfl⟩ := List.mem_map.1 hmem
  have hsame : recomputeLiquidity roles fill' = fill' :=
    recomputeLiquidity_of_lt ((mem_stableSort _ _ _).1 hfill') fun t ht => hlt _ hfill t ht
  rw [recomputeLiquidity_attribute, hsame]
  rfl

theorem sorted_fillOrder
    (hp : p.fillEvents = (stableSort fillOrder (fillsOf source p.snapshotTsUs old known)).map
      (PreparedFill.attributeInitialPosition p.strategyAllocationActive p.initialStates)) :
    Sorted fillOrder p.fillEvents := by
  rw [hp, stableSort_map_attribute]
  exact sorted_stableSort _ _

/-- Nothing known changes and the new fills come last. -/
theorem mergedFills_append
    (hp : p.fillEvents = (stableSort fillOrder (fillsOf source p.snapshotTsUs old known)).map
      (PreparedFill.attributeInitialPosition p.strategyAllocationActive p.initialStates))
    (hnone : earliestLiquidityFillTsUs known old roles = none) {added : List (PreparedFill F)}
    (hadded : Sorted fillOrder added)
    (hlast : ∀ first, added.head? = some first → ∀ last, p.fillEvents.getLast? = some last →
      fillOrder last ≤ fillOrder first) :
    mergedFills p roles added = p.fillEvents ++ added := by
  have hsorted := sorted_fillOrder hp
  unfold mergedFills
  rw [map_recompute_of_lt hp (fun _ h => h) (fun _ _ t ht => by rw [hnone] at ht; cases ht)]
  refine stableSort_of_sorted fillOrder _ (sorted_append fillOrder _ _ hsorted hadded ?_)
  intro a ha b hb
  obtain ⟨first, rest, rfl⟩ := List.exists_cons_of_ne_nil (List.ne_nil_of_mem hb)
  rcases List.eq_nil_or_concat p.fillEvents with hnil | ⟨init, last, hconcat⟩
  · rw [hnil] at ha
    exact absurd ha List.not_mem_nil
  · rw [List.concat_eq_append] at hconcat
    have h1 : fillOrder a ≤ fillOrder last := by
      rw [hconcat] at ha hsorted
      rcases List.mem_append.1 ha with ha | ha
      · exact (List.pairwise_append.1 hsorted).2.2 a ha last (List.mem_singleton_self _)
      · rw [List.mem_singleton.1 ha]
    have h2 : fillOrder first ≤ fillOrder b := by
      rcases List.mem_cons.1 hb with rfl | hb
      · exact le_rfl
      · exact (List.pairwise_cons.1 hadded).1 b hb
    exact h1.trans ((hlast first rfl last (by rw [hconcat, List.getLast?_concat])).trans h2)

/-- The fills are cut at the first change; everything from there on is sorted anew. -/
theorem changedFills_eq_mergedFills
    (hp : p.fillEvents = (stableSort fillOrder (fillsOf source p.snapshotTsUs old known)).map
      (PreparedFill.attributeInitialPosition p.strategyAllocationActive p.initialStates))
    {added : List (PreparedFill F)} (hadded : Sorted fillOrder added) {firstChangedTs : Int}
    (hfirst : earlier (added.head?.map PreparedFill.fillTsUs)
      (earliestLiquidityFillTsUs known old roles) = some firstChangedTs) :
    ∃ kept old' new, p.fillEvents = kept ++ old' ∧ mergedFills p roles added = kept ++ new ∧
      changedFills p.fillEvents added roles (earliestLiquidityFillTsUs known old roles).isSome
        firstChangedTs = kept ++ new ∧
      (∀ fill ∈ old', firstChangedTs ≤ fill.fillTsUs) ∧
      (∀ fill ∈ new, firstChangedTs ≤ fill.fillTsUs) ∧
      (∀ fill ∈ old', ∃ fill' ∈ new, fill'.fillTsUs = fill.fillTsUs) := by
  obtain ⟨hle1, hle2⟩ := earlier_le hfirst
  have hsorted := sorted_fillOrder hp
  have hpart : Partitioned (fun fill : PreparedFill F => decide (fill.fillTsUs < firstChangedTs))
      p.fillEvents := by
    refine hsorted.imp fun {a b} hab => ?_
    have := fillTsUs_le_of_fillOrder_le hab
    simp only [decide_eq_true_eq]
    omega
  let k := partitionPoint (fun fill : PreparedFill F => decide (fill.fillTsUs < firstChangedTs))
    p.fillEvents
  have hkept : ∀ fill ∈ p.fillEvents.take k, fill.fillTsUs < firstChangedTs := fun fill hfill => by
    simpa using take_partitionPoint _ _ hpart fill hfill
  have hold : ∀ fill ∈ p.fillEvents.drop k, firstChangedTs ≤ fill.fillTsUs := fun fill hfill => by
    simpa using drop_partitionPoint _ _ hpart fill hfill
  have hnew : ∀ fill ∈ added, firstChangedTs ≤ fill.fillTsUs := by
    intro fill hfill
    obtain ⟨first, rest, rfl⟩ := List.exists_cons_of_ne_nil (List.ne_nil_of_mem hfill)
    have h1 := hle1 first.fillTsUs rfl
    rcases List.mem_cons.1 hfill with rfl | hfill
    · exact h1
    · have := fillTsUs_le_of_fillOrder_le ((List.pairwise_cons.1 hadded).1 fill hfill)
      omega
  have htail : (if (earliestLiquidityFillTsUs known old roles).isSome then
      (p.fillEvents.drop k).map (recomputeLiquidity roles) else p.fillEvents.drop k) =
      (p.fillEvents.drop k).map (recomputeLiquidity roles) := by
    split
    · rfl
    · rename_i hnone
      rw [map_recompute_of_lt hp (fun _ h => List.mem_of_mem_drop h)]
      intro fill _ t ht
      rw [ht] at hnone
      exact absurd rfl hnone
  have hall : ∀ fill ∈ (p.fillEvents.drop k).map (recomputeLiquidity roles) ++ added,
      firstChangedTs ≤ fill.fillTsUs := by
    intro fill hfill
    rcases List.mem_append.1 hfill with h | h
    · obtain ⟨fill', hfill', rfl⟩ := List.mem_map.1 h
      exact hold fill' hfill'
    · exact hnew fill h
  refine ⟨p.fillEvents.take k, p.fillEvents.drop k, stableSort fillOrder
    ((p.fillEvents.drop k).map (recomputeLiquidity roles) ++ added),
    (List.take_append_drop k _).symm, ?_, ?_, hold, ?_, ?_⟩
  · have hmap : p.fillEvents.map (recomputeLiquidity roles) =
        p.fillEvents.take k ++ (p.fillEvents.drop k).map (recomputeLiquidity roles) := by
      have htake : (p.fillEvents.take k).map (recomputeLiquidity roles) = p.fillEvents.take k :=
        map_recompute_of_lt hp (fun _ h => List.mem_of_mem_take h)
          (fun fill hfill t ht => lt_of_lt_of_le (hkept fill hfill) (hle2 t ht))
      conv_lhs => rw [← List.take_append_drop k p.fillEvents, List.map_append, htake]
    unfold mergedFills
    rw [hmap, List.append_assoc, stableSort_append_of_le, stableSort_of_sorted]
    · exact hsorted.sublist (List.take_sublist k _)
    · intro a ha b hb
      exact fillOrder_le_of_fillTsUs_lt (lt_of_lt_of_le (hkept a ha) (hall b hb))
  · unfold changedFills
    simp only
    rw [htail]
  · intro fill hfill
    exact hall fill ((mem_stableSort _ _ _).1 hfill)
  · intro fill hfill
    refine ⟨recomputeLiquidity roles fill, ?_, rfl⟩
    rw [mem_stableSort]
    exact List.mem_append_left _ (List.mem_map_of_mem hfill)

end Step

section Chain

variable [Fingerprint F] {source : SourceConfig F} {snapshot : Option (PositionSnapshot F)}
  {strategySnapshot : Option (StrategyPositionSnapshot F)} {initialPositionCount : Nat}

/-- A refresh of a rebuilt source is a rebuild from the longer history. -/
theorem refreshOrRebuild_toOption {history : NavSourceHistory F}
    {cached : CachedTimelineSource F}
    (hcached : rebuildSource source snapshot strategySnapshot initialPositionCount history =
      .ok cached)
    (update : HistoryUpdate F) (hnamed : VenuesNamed (history.events ++ update.events)) :
    (refreshOrRebuild source snapshot strategySnapshot initialPositionCount (some cached)
        (history.update update)).toOption =
      (rebuildSource source snapshot strategySnapshot initialPositionCount
        (history.update update)).toOption := by
  obtain ⟨p, hp, hbuild⟩ := bind_eq_ok.1 hcached
  obtain ⟨effective, hpa⟩ := prepareSourceEvents_eq_ok.1 hp
  have hprepared : cached.prepared = p := build_prepared hbuild
  unfold refreshOrRebuild
  simp only
  by_cases hall : p.allocations = []
  swap
  · -- a source with corrections is rebuilt
    have hrefresh : cached.refresh source (history.update update) initialPositionCount =
        .ok none := by
      unfold refresh
      rw [if_pos (by simpa [hprepared] using hall)]
    rw [hrefresh]
    rfl
  have hempty : (!cached.prepared.allocations.isEmpty) = false := by simp [hprepared, hall]
  by_cases hacc : ∀ event ∈ update.events, Acceptable source p.snapshotTsUs event
  swap
  · -- a new event that is not acceptable stops both
    have hleft : ∀ result, cached.refresh source (history.update update) initialPositionCount ≠
        .ok result := by
      intro result h
      unfold refresh at h
      rw [if_neg (by simp [hempty])] at h
      obtain ⟨⟨q, added⟩, hq, -⟩ := bind_eq_ok.1 h
      exact hacc (hprepared ▸ (changeEvents_eq.1 hq).1)
    have hright : ∀ result, rebuildSource source snapshot strategySnapshot initialPositionCount
        (history.update update) ≠ .ok result := by
      intro result h
      obtain ⟨p', hp', -⟩ := bind_eq_ok.1 h
      obtain ⟨effective', hpa'⟩ := prepareSourceEvents_eq_ok.1 hp'
      have heff : effective' = effective :=
        Except.ok.inj (hpa'.effective_eq.symm.trans hpa.effective_eq)
      refine hacc fun event hevent => ?_
      have := hpa'.acceptable event
        ((perm_appendEvents _ _).mem_iff.2 (List.mem_append_right _ hevent))
      rwa [hpa'.snapshotTsUs_eq, heff, ← hpa.snapshotTsUs_eq] at this
    have hnone : ∀ {α : Type} {x : Except NavError α}, (∀ a, x ≠ .ok a) → x.toOption = none := by
      intro α x hx
      cases x with
      | error e => rfl
      | ok a => exact absurd rfl (hx a)
    rw [hnone hright]
    refine hnone fun result h => ?_
    obtain ⟨o, ho, -⟩ := bind_eq_ok.1 h
    exact hleft o ho
  -- from here on the change is acceptable
  let roles := update.liquidityByOrder
  let added := addedFills source p roles update.events
  have haddedSorted : Sorted fillOrder added := sorted_stableSort _ _
  have hscan : update.events.foldlM (changeEvent source roles) (cached.prepared, []) =
      .ok (countEvents source p update.events,
        (fillsOf source p.snapshotTsUs roles update.events).map
          (PreparedFill.attributeInitialPosition p.strategyAllocationActive p.initialStates)) := by
    rw [hprepared]
    exact changeEvents_eq.2 ⟨hacc, by rw [List.nil_append]⟩
  have hrefresh : cached.refresh source (history.update update) initialPositionCount =
      cached.refreshFills source (countEvents source p update.events) added roles
        (earliestLiquidityFillTsUs history.events history.liquidityByOrder roles)
        initialPositionCount := by
    unfold refresh
    rw [if_neg (by simp [hempty])]
    change (update.events.foldlM (changeEvent source roles) (cached.prepared, []) >>= _) = _
    rw [hscan, ok_bind]
    rfl
  rw [hrefresh]
  unfold refreshFills
  simp only
  by_cases hmay : cached.mayChangeReference (added.head?.map PreparedFill.fillTsUs) = true
  · rw [if_pos hmay]
    rfl
  rw [if_neg hmay]
  have href := not_mayChangeReference (hprepared ▸ hpa.fillsInOrder.sorted)
    (haddedSorted.imp fun hab => fillTsUs_le_of_fillOrder_le hab) (by simpa using hmay)
  rw [hprepared] at href
  have hpaq : PreparedAs source (appendEvents history.events update.events) snapshot
      strategySnapshot roles history.allocations effective
      { countEvents source p update.events with fillEvents := mergedFills p roles added } :=
    hpa.update hnamed hacc rfl href
  have hsameOpening : SameOpening p
      { countEvents source p update.events with fillEvents := mergedFills p roles added } :=
    ⟨rfl, rfl, rfl, rfl, rfl⟩
  have hrebuild : rebuildSource source snapshot strategySnapshot initialPositionCount
      (history.update update) =
      build source { countEvents source p update.events with
        fillEvents := mergedFills p roles added } initialPositionCount := by
    unfold rebuildSource
    change (prepareSourceEvents source (appendEvents history.events update.events) snapshot
      strategySnapshot roles history.allocations >>= _) = _
    rw [prepareSourceEvents_eq_ok.2 ⟨effective, hpaq⟩]
    rfl
  have hmap : ∀ x rebuilt : Except NavError (CachedTimelineSource F),
      (x.map some >>= fun refreshed => refreshed.elim rebuilt .ok) = x := by
    intro x rebuilt
    cases x <;> rfl
  by_cases happend : appendOnly (countEvents source p update.events) added
      (earliestLiquidityFillTsUs history.events history.liquidityByOrder roles) = true
  · rw [if_pos happend, hmap, hrebuild]
    unfold appendOnly at happend
    rw [Bool.and_eq_true, Option.isNone_iff_eq_none] at happend
    have hmerged := mergedFills_append hpa.fillEvents_eq happend.1 haddedSorted
      (fun first hfirst last hlast => by
        have h := happend.2
        rw [hfirst, Option.all_some] at h
        change p.fillEvents.getLast?.all _ = true at h
        rw [hlast, Option.all_some] at h
        simpa using h)
    have hcounted : SameOpening p (countEvents source p update.events) :=
      ⟨rfl, rfl, rfl, rfl, rfl⟩
    exact congrArg Except.toOption (refreshAppend_eq_build hbuild hall hcounted rfl added
      (mergedFills p roles added) hmerged hpaq.fillsInOrder)
  · rw [if_neg happend]
    cases hfirst : earlier (added.head?.map PreparedFill.fillTsUs)
        (earliestLiquidityFillTsUs history.events history.liquidityByOrder roles) with
    | none => rfl
    | some firstChangedTs =>
      simp only
      rw [hmap, hrebuild]
      obtain ⟨kept, old', new, h1, h2, h3, h4, h5, h6⟩ :=
        changedFills_eq_mergedFills hpa.fillEvents_eq haddedSorted hfirst
      change (cached.refreshTail source { countEvents source p update.events with
        fillEvents := changedFills p.fillEvents added roles _ firstChangedTs } firstChangedTs
          initialPositionCount).toOption = _
      rw [h3, ← h2]
      exact congrArg Except.toOption (refreshTail_eq_build hbuild hall hsameOpening
        hpa.fillsInOrder hpaq.fillsInOrder firstChangedTs kept old' new h1 h2 h4 h5 h6)

/-- After any number of changes the cached source is the full rebuild from the
last history, whichever way each refresh went. -/
theorem refreshChain_eq_rebuild (source : SourceConfig F) (snapshot : Option (PositionSnapshot F))
    (strategySnapshot : Option (StrategyPositionSnapshot F)) (initialPositionCount : Nat)
    (start : NavSourceHistory F) (updates : List (HistoryUpdate F))
    (hstart : VenuesNamed start.events)
    (hupdates : ∀ update ∈ updates, VenuesNamed update.events) :
    updates.foldl (refreshStep source snapshot strategySnapshot initialPositionCount)
        ((rebuildSource source snapshot strategySnapshot initialPositionCount start).toOption,
          start) =
      ((rebuildSource source snapshot strategySnapshot initialPositionCount
          (updates.foldl NavSourceHistory.update start)).toOption,
        updates.foldl NavSourceHistory.update start) := by
  induction updates generalizing start with
  | nil => rfl
  | cons update updates ih =>
    have hnamed : VenuesNamed (start.events ++ update.events) := by
      intro event hevent
      rcases List.mem_append.1 hevent with h | h
      · exact hstart event h
      · exact hupdates update List.mem_cons_self event h
    have hstep : refreshStep source snapshot strategySnapshot initialPositionCount
        ((rebuildSource source snapshot strategySnapshot initialPositionCount start).toOption,
          start) update =
        ((rebuildSource source snapshot strategySnapshot initialPositionCount
          (start.update update)).toOption, start.update update) := by
      unfold refreshStep
      cases hcached : rebuildSource source snapshot strategySnapshot initialPositionCount start with
      | error e => rfl
      | ok cached =>
        exact congrArg (·, start.update update)
          (refreshOrRebuild_toOption hcached update hnamed)
    rw [List.foldl_cons, List.foldl_cons, hstep]
    refine ih (start.update update) (fun event hevent => ?_)
      (fun u hu => hupdates u (List.mem_cons_of_mem _ hu))
    exact hnamed event ((perm_appendEvents _ _).mem_iff.1 hevent)

end Chain

/-! ## A chain -/

namespace Sample

def start : NavSourceHistory ℚ :=
  { allocations := []
    events := [fill "2" 7200000000 "alpha" "BTCUSDT" 1 100 2,
      fill "3" 10900000000 "beta" "BTCUSDT" 2 110 1]
    liquidityByOrder := ∅, revision := 1, change := none }

/-- A fill that is older than all known ones, and then a role for the order of all of them. -/
def updates : List (HistoryUpdate ℚ) :=
  [{ events := [fill "4" 3600000001 "alpha" "BTCUSDT" 1 90 1], liquidityByOrder := ∅ },
    { events := [], liquidityByOrder :=
        (∅ : LiquidityByOrder).insert ⟨⟨"BTCUSDT", 1⟩, 7⟩ LiquidityRole.maker }]

end Sample

theorem refreshChain_eq_rebuild_sample :
    (@rebuildSource ℚ _ Sample.noFingerprint Sample.source none none 0
        (Sample.updates.foldl NavSourceHistory.update Sample.start)).toOption.isSome = true ∧
    Sample.updates.foldl (@refreshStep ℚ _ Sample.noFingerprint Sample.source none none 0)
        ((@rebuildSource ℚ _ Sample.noFingerprint Sample.source none none 0
          Sample.start).toOption, Sample.start) =
      ((@rebuildSource ℚ _ Sample.noFingerprint Sample.source none none 0
          (Sample.updates.foldl NavSourceHistory.update Sample.start)).toOption,
        Sample.updates.foldl NavSourceHistory.update Sample.start) :=
  ⟨by decide +kernel,
    @refreshChain_eq_rebuild ℚ _ Sample.noFingerprint Sample.source none none 0 Sample.start
      Sample.updates (by unfold VenuesNamed; decide +kernel)
      (by unfold VenuesNamed; decide +kernel)⟩

end CtaManager
