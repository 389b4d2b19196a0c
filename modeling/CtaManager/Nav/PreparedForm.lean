import CtaManager.Nav.Prepare

/-!
What `prepareSourceEvents` returns, without its loops.

The loop over the events succeeds when every event after the snapshot is
acceptable (`Acceptable`), and then it collects the fills of the events in order
(`scan_eq`).  Sorting the events first sorts the fills (`fillsOf_stableSort`).
-/

namespace CtaManager

open Check StableSort

variable {F : Type} [F64 F]

section Scan

variable (source : SourceConfig F) (snapshotTsUs : Option Int) (liquidityByOrder : LiquidityByOrder)

/-- The event does not stop the preparation. -/
def Acceptable (event : NavEvent F) : Prop :=
  isBeforeSnapshot snapshotTsUs event = true ∨ ∃ side, validatedFillSide source event = .ok side

/-- An event after the snapshot that filled nothing. -/
def isNonFill (event : NavEvent F) : Bool :=
  !isBeforeSnapshot snapshotTsUs event &&
    match validatedFillSide source event with
    | .ok none => true
    | _ => false

/-- The fill of an event. -/
def eventFill (event : NavEvent F) : Option (PreparedFill F) :=
  if isBeforeSnapshot snapshotTsUs event then none
  else
    match validatedFillSide source event with
    | .ok (some side) => some (preparedFill liquidityByOrder event side)
    | _ => none

def fillsOf (events : List (NavEvent F)) : List (PreparedFill F) :=
  events.filterMap (eventFill source snapshotTsUs liquidityByOrder)

variable {source snapshotTsUs liquidityByOrder}

theorem eventFill_eq_some {event : NavEvent F} {fill : PreparedFill F}
    (h : eventFill source snapshotTsUs liquidityByOrder event = some fill) :
    isBeforeSnapshot snapshotTsUs event = false ∧
      ∃ side, fill = preparedFill liquidityByOrder event side := by
  unfold eventFill at h
  split at h
  · cases h
  · rename_i hb
    refine ⟨by simpa using hb, ?_⟩
    split at h
    · rename_i side _
      exact ⟨side, (Option.some.inj h).symm⟩
    · cases h

/-- The fills of the sorted events are the sorted fills. -/
theorem fillsOf_stableSort (events : List (NavEvent F)) :
    fillsOf source snapshotTsUs liquidityByOrder (stableSort eventOrder events) =
      stableSort fillOrder (fillsOf source snapshotTsUs liquidityByOrder events) := by
  refine filterMap_stableSort eventOrder fillOrder _ (fun event fill h => ?_) events
  obtain ⟨-, side, rfl⟩ := eventFill_eq_some h
  rfl

theorem fillsOf_append (l₁ l₂ : List (NavEvent F)) :
    fillsOf source snapshotTsUs liquidityByOrder (l₁ ++ l₂) =
      fillsOf source snapshotTsUs liquidityByOrder l₁ ++
        fillsOf source snapshotTsUs liquidityByOrder l₂ :=
  List.filterMap_append

/-- A fill comes after the snapshot. -/
theorem snapshot_lt_of_mem_fillsOf {events : List (NavEvent F)} {fill : PreparedFill F}
    (h : fill ∈ fillsOf source snapshotTsUs liquidityByOrder events) (ts : Int)
    (hts : snapshotTsUs = some ts) : ts < fill.fillTsUs := by
  obtain ⟨event, -, hev⟩ := List.mem_filterMap.1 h
  obtain ⟨hb, side, rfl⟩ := eventFill_eq_some hev
  simp only [isBeforeSnapshot, hts, Option.any_some, decide_eq_false_iff_not, not_le] at hb
  exact hb

/-! ## The loop over the events -/

/-- The result of the loop over acceptable events. -/
def scanned (source : SourceConfig F) (snapshotTsUs : Option Int)
    (liquidityByOrder : LiquidityByOrder) (scan : EventScan F) (events : List (NavEvent F)) :
    EventScan F :=
  let fills := fillsOf source snapshotTsUs liquidityByOrder events
  { ignoredAtOrBeforeSnapshotEventCount :=
      scan.ignoredAtOrBeforeSnapshotEventCount + events.countP (isBeforeSnapshot snapshotTsUs)
    ignoredNonFillEventCount :=
      scan.ignoredNonFillEventCount + events.countP (isNonFill source snapshotTsUs)
    fillEvents := scan.fillEvents ++ fills
    firstFillReferences := fills.foldl (fun references fill =>
      OrdMap.upsert references fill.event.market fun o =>
        o.getD { price := fill.event.price, venue := fill.event.venue }) scan.firstFillReferences }

theorem scanEvent_eq_ok {scan scan' : EventScan F} {event : NavEvent F} :
    scanEvent source snapshotTsUs liquidityByOrder scan event = .ok scan' ↔
      Acceptable source snapshotTsUs event ∧
        scan' = scanned source snapshotTsUs liquidityByOrder scan [event] := by
  unfold scanEvent Acceptable scanned fillsOf
  by_cases hb : isBeforeSnapshot snapshotTsUs event = true
  · simp [hb, eventFill, isNonFill]
    exact eq_comm
  · rw [if_neg hb]
    cases hv : validatedFillSide source event with
    | error e => simp [hb]
    | ok o =>
      cases o with
      | none =>
        simp [hb, hv, eventFill, isNonFill, pure_eq_ok]
        exact eq_comm
      | some side =>
        simp [hb, hv, eventFill, isNonFill, pure_eq_ok, EventScan.pushFill, preparedFill]
        exact eq_comm

theorem scanned_cons (scan : EventScan F) (event : NavEvent F) (events : List (NavEvent F)) :
    scanned source snapshotTsUs liquidityByOrder scan (event :: events) =
      scanned source snapshotTsUs liquidityByOrder
        (scanned source snapshotTsUs liquidityByOrder scan [event]) events := by
  have happ : fillsOf source snapshotTsUs liquidityByOrder (event :: events) =
      fillsOf source snapshotTsUs liquidityByOrder [event] ++
        fillsOf source snapshotTsUs liquidityByOrder events := by
    rw [← fillsOf_append, List.singleton_append]
  unfold scanned
  rw [happ]
  simp only [List.foldl_append, List.countP_cons, List.countP_nil, List.append_assoc]
  congr 1
  · omega
  · omega

theorem scan_eq {scan scan' : EventScan F} {events : List (NavEvent F)} :
    events.foldlM (scanEvent source snapshotTsUs liquidityByOrder) scan = .ok scan' ↔
      (∀ event ∈ events, Acceptable source snapshotTsUs event) ∧
        scan' = scanned source snapshotTsUs liquidityByOrder scan events := by
  induction events generalizing scan with
  | nil =>
    rw [foldlM_nil]
    simp [scanned, fillsOf, eq_comm]
  | cons event events ih =>
    rw [foldlM_cons, bind_eq_ok]
    constructor
    · rintro ⟨t, ht, hrest⟩
      obtain ⟨hev, rfl⟩ := scanEvent_eq_ok.1 ht
      obtain ⟨hall, rfl⟩ := ih.1 hrest
      exact ⟨List.forall_mem_cons.2 ⟨hev, hall⟩, (scanned_cons _ _ _).symm⟩
    · rintro ⟨hall, rfl⟩
      obtain ⟨hev, hrest⟩ := List.forall_mem_cons.1 hall
      exact ⟨_, scanEvent_eq_ok.2 ⟨hev, rfl⟩, ih.2 ⟨hrest, scanned_cons _ _ _⟩⟩

end Scan

/-! ## First fills and opening ledgers -/

def FirstFillReference.of (fill : PreparedFill F) : FirstFillReference F :=
  { price := fill.event.price, venue := fill.event.venue }

/-- The references a list of fills leaves behind. -/
def references (fills : List (PreparedFill F)) : OrdMap Market (FirstFillReference F) :=
  fills.foldl (fun references fill =>
    OrdMap.upsert references fill.event.market fun o =>
      o.getD { price := fill.event.price, venue := fill.event.venue }) ∅

omit [F64 F] in
theorem getElem?_references (fills : List (PreparedFill F)) (market : Market) :
    (references fills)[market]? =
      (fills.find? fun fill => fill.event.market = market).map FirstFillReference.of := by
  suffices h : ∀ m : OrdMap Market (FirstFillReference F),
      (fills.foldl (fun references fill =>
        OrdMap.upsert references fill.event.market fun o =>
          o.getD { price := fill.event.price, venue := fill.event.venue }) m)[market]? =
        m[market]?.or
          ((fills.find? fun fill => fill.event.market = market).map FirstFillReference.of) by
    have h0 := h ∅
    rwa [Std.ExtTreeMap.getElem?_empty, Option.none_or] at h0
  induction fills with
  | nil => simp
  | cons fill fills ih =>
    intro m
    rw [List.foldl_cons, ih, OrdMap.getElem?_upsert]
    by_cases hm : fill.event.market = market
    · subst hm
      cases m[fill.event.market]? with
      | none => simp [FirstFillReference.of]
      | some v => simp
    · simp [hm]

/-- The events name their venue by its code. -/
def VenuesNamed (events : List (NavEvent F)) : Prop :=
  ∀ event ∈ events, event.venue = venueName event.venueCode

omit [F64 F] in
/-- Then an opening ledger has the name of its venue code, with or without a fill. -/
theorem initialVenue_references {fills : List (PreparedFill F)}
    (h : ∀ fill ∈ fills, fill.event.venue = venueName fill.event.venueCode) (market : Market) :
    initialVenue market.venueCode (references fills)[market]? = venueName market.venueCode := by
  rw [getElem?_references]
  cases hf : fills.find? fun fill => fill.event.market = market with
  | none => rfl
  | some fill =>
    have hmarket : fill.event.market = market := by simpa using List.find?_some hf
    subst hmarket
    exact h fill (List.mem_of_find?_eq_some hf)

theorem openPosition_congr {source : SourceConfig F}
    {references references' : OrdMap Market (FirstFillReference F)} {position : SnapshotPosition F}
    (hr : initialReference source position references[position.targetMarket]? =
      initialReference source position references'[position.targetMarket]?)
    (hv : initialVenue position.venueCode references[position.targetMarket]? =
      initialVenue position.venueCode references'[position.targetMarket]?)
    (states : OrdMap Market (VenueState F)) :
    openPosition source references states position =
      openPosition source references' states position := by
  unfold openPosition
  simp only [hr, hv]

/-- Every opening position has its ledger, at its reference price. -/
theorem openPosition_mem {source : SourceConfig F}
    {references : OrdMap Market (FirstFillReference F)} {positions : List (SnapshotPosition F)}
    {states states' : OrdMap Market (VenueState F)}
    (h : positions.foldlM (openPosition source references) states = .ok states') :
    (∀ (market : Market) (state : VenueState F),
        states[market]? = some state → states'[market]? = some state) ∧
      ∀ position ∈ positions, ∃ price priceSource state,
        initialReference source position references[position.targetMarket]? =
          .ok (price, priceSource) ∧
        states'[position.targetMarket]? = some state ∧
        state.initialReferencePriceSource = some priceSource := by
  induction positions generalizing states with
  | nil =>
    cases h
    exact ⟨fun _ _ h => h, fun p hp => absurd hp List.not_mem_nil⟩
  | cons position positions ih =>
    rw [foldlM_cons] at h
    obtain ⟨t, ht, hrest⟩ := bind_eq_ok.1 h
    obtain ⟨hkeep, hmem⟩ := ih hrest
    unfold openPosition at ht
    obtain ⟨⟨price, priceSource⟩, hprice, ht⟩ := bind_eq_ok.1 ht
    obtain ⟨_, hnew, ht⟩ := bind_eq_ok.1 ht
    rw [ensure_eq_ok] at hnew
    cases ht
    have hself := fun market => OrdMap.getElem?_insert_of_key states position.targetMarket market
      (VenueState.fromInitialPosition position.venueCode
        (initialVenue position.venueCode references[position.targetMarket]?) position.quantity
        price priceSource)
    refine ⟨fun market state hs => hkeep market state ?_, fun p hp => ?_⟩
    · rw [hself, if_neg, hs]
      rintro rfl
      have : states.contains position.targetMarket = true := by
        rw [Std.ExtTreeMap.contains_eq_isSome_getElem?, hs]
        rfl
      simp [this] at hnew
    · rcases List.mem_cons.1 hp with rfl | hp
      · exact ⟨price, priceSource, _, hprice, hkeep _ _ (by rw [hself, if_pos rfl]), rfl⟩
      · exact hmem p hp

theorem openStrategyPositions_congr {anchor : Option (StrategyPositionSnapshot F)}
    {references references' : OrdMap Market (FirstFillReference F)}
    (h : ∀ market : Market, initialVenue market.venueCode references[market]? =
      initialVenue market.venueCode references'[market]?)
    (initialStates : OrdMap Market (VenueState F)) :
    openStrategyPositions anchor references initialStates =
      openStrategyPositions anchor references' initialStates := by
  cases anchor with
  | none => rfl
  | some snapshot =>
    have hstep : openStrategyPosition references = openStrategyPosition references' := by
      funext states position
      unfold openStrategyPosition
      rw [show initialVenue position.venueCode references[position.targetMarket]? =
        initialVenue position.venueCode references'[position.targetMarket]? from
          h position.targetMarket]
    simp only [openStrategyPositions, hstep]

/-! ## The prepared source -/

/-- `prepared` is what the source's events, snapshots and corrections come to. -/
structure PreparedAs [Fingerprint F] (source : SourceConfig F) (events : List (NavEvent F))
    (snapshot : Option (PositionSnapshot F))
    (strategySnapshot : Option (StrategyPositionSnapshot F)) (liquidityByOrder : LiquidityByOrder)
    (allocations : List (AllocationSnapshot F)) (effective : Option (PositionSnapshot F))
    (prepared : PreparedSourceEvents F) : Prop where
  snapshotChecked : snapshot.forM (checkSnapshot source) = .ok ()
  strategySnapshotChecked : strategySnapshot.forM (checkStrategySnapshot source) = .ok ()
  effective_eq : effectivePositionSnapshot snapshot strategySnapshot = .ok effective
  snapshotTsUs_eq : prepared.snapshotTsUs = effective.map PositionSnapshot.snapshotTsUs
  active_eq : prepared.strategyAllocationActive =
    (strategySnapshot.filter (supersedes snapshot)).isSome
  acceptable : ∀ event ∈ events, Acceptable source prepared.snapshotTsUs event
  fillEvents_eq : prepared.fillEvents =
    (stableSort fillOrder (fillsOf source prepared.snapshotTsUs liquidityByOrder events)).map
      (PreparedFill.attributeInitialPosition prepared.strategyAllocationActive
        prepared.initialStates)
  initialStates_eq : ((effective.map PositionSnapshot.positions).getD []).foldlM
    (openPosition source (references
      (stableSort fillOrder (fillsOf source prepared.snapshotTsUs liquidityByOrder events)))) ∅ =
      .ok prepared.initialStates
  initialStrategyStates_eq : prepared.initialStrategyStates =
    openStrategyPositions (strategySnapshot.filter (supersedes snapshot)) (references
      (stableSort fillOrder (fillsOf source prepared.snapshotTsUs liquidityByOrder events)))
      prepared.initialStates
  allocations_eq : prepareAllocations source prepared.snapshotTsUs
    prepared.strategyAllocationActive allocations = .ok prepared.allocations
  orderEventCount_eq : prepared.orderEventCount = events.length
  ignoredBefore_eq : prepared.ignoredAtOrBeforeSnapshotEventCount =
    events.countP (isBeforeSnapshot prepared.snapshotTsUs)
  ignoredNonFill_eq : prepared.ignoredNonFillEventCount =
    events.countP (isNonFill source prepared.snapshotTsUs)

theorem prepareSourceEvents_eq_ok [Fingerprint F] {source : SourceConfig F}
    {events : List (NavEvent F)} {snapshot : Option (PositionSnapshot F)}
    {strategySnapshot : Option (StrategyPositionSnapshot F)} {liquidityByOrder : LiquidityByOrder}
    {allocations : List (AllocationSnapshot F)} {prepared : PreparedSourceEvents F} :
    prepareSourceEvents source events snapshot strategySnapshot liquidityByOrder allocations =
        .ok prepared ↔
      ∃ effective, PreparedAs source events snapshot strategySnapshot liquidityByOrder allocations
        effective prepared := by
  have hperm := perm_stableSort eventOrder events
  have hscan : ∀ (effective : Option (PositionSnapshot F)) (scan : EventScan F),
      (stableSort eventOrder events).foldlM (scanEvent source
          (effective.map PositionSnapshot.snapshotTsUs) liquidityByOrder) EventScan.empty =
          .ok scan ↔
        (∀ event ∈ events,
          Acceptable source (effective.map PositionSnapshot.snapshotTsUs) event) ∧
        scan = scanned source (effective.map PositionSnapshot.snapshotTsUs) liquidityByOrder
          EventScan.empty (stableSort eventOrder events) := by
    intro effective scan
    rw [scan_eq]
    simp only [mem_stableSort]
  unfold prepareSourceEvents
  constructor
  · intro h
    obtain ⟨⟨⟩, h1, h⟩ := bind_eq_ok.1 h
    obtain ⟨⟨⟩, h2, h⟩ := bind_eq_ok.1 h
    obtain ⟨effective, h3, h⟩ := bind_eq_ok.1 h
    obtain ⟨scan, h4, h⟩ := bind_eq_ok.1 h
    obtain ⟨initialStates, h5, h⟩ := bind_eq_ok.1 h
    obtain ⟨allocations', h6, h⟩ := bind_eq_ok.1 h
    obtain ⟨hacc, rfl⟩ := (hscan effective scan).1 h4
    cases h
    simp only [scanned, EventScan.empty, fillsOf_stableSort, hperm.countP_eq, List.nil_append,
      Nat.zero_add] at h5 ⊢
    exact ⟨effective, h1, h2, h3, rfl, rfl, hacc, rfl, h5, rfl, h6, rfl, rfl, rfl⟩
  · rintro ⟨effective, h⟩
    obtain ⟨h1, h2, h3, h4, h5, h6, h7, h8, h9, h10, h11, h12, h13⟩ := h
    obtain ⟨p1, p2, p3, p4, p5, p6, p7, p8, p9⟩ := prepared
    simp only at h4 h5 h6 h7 h8 h9 h10 h11 h12 h13
    subst h4 h5 h7 h9 h11 h12 h13
    dsimp only
    rw [h1, ok_bind, h2, ok_bind, h3, ok_bind, (hscan effective _).2 ⟨h6, rfl⟩, ok_bind]
    simp only [scanned, EventScan.empty, fillsOf_stableSort, hperm.countP_eq, List.nil_append,
      Nat.zero_add]
    change (List.foldlM (openPosition source (references _)) ∅ _ >>= _) = _
    rw [h8, ok_bind, h10, ok_bind]
    rfl

/-! ## Order -/

/-- Fills in nondecreasing time. -/
abbrev SortedFills (fills : List (PreparedFill F)) : Prop :=
  fills.Pairwise fun a b => a.fillTsUs ≤ b.fillTsUs

/-- The fills of a preparation: in time order, all of them after the snapshot. -/
structure FillsInOrder (p : PreparedSourceEvents F) : Prop where
  sorted : SortedFills p.fillEvents
  after : ∀ fill ∈ p.fillEvents, ∀ ts, p.snapshotTsUs = some ts → ts < fill.fillTsUs

/-- The corrections of a preparation come after the snapshot. -/
def CorrectionsAfter (p : PreparedSourceEvents F) : Prop :=
  ∀ a ∈ p.allocations, ∀ ts, p.snapshotTsUs = some ts → ts < a.snapshotTsUs

omit [F64 F] in
theorem correctionsAfter_of_nil {p : PreparedSourceEvents F} (h : p.allocations = []) :
    CorrectionsAfter p := by
  intro a ha
  rw [h] at ha
  exact absurd ha List.not_mem_nil

omit [F64 F] in
theorem fillTsUs_le_of_fillOrder_le {a b : PreparedFill F} (h : fillOrder a ≤ fillOrder b) :
    a.fillTsUs ≤ b.fillTsUs := by
  rcases Prod.Lex.le_iff.1 h with h | h
  · exact le_of_lt h
  · exact le_of_eq h.1

omit [F64 F] in
theorem stableSort_map_attribute (active : Bool) (initialStates : OrdMap Market (VenueState F))
    (l : List (PreparedFill F)) :
    (stableSort fillOrder l).map (PreparedFill.attributeInitialPosition active initialStates) =
      stableSort fillOrder (l.map (PreparedFill.attributeInitialPosition active initialStates)) :=
  map_stableSort fillOrder fillOrder (PreparedFill.attributeInitialPosition active initialStates)
    (fun _ => rfl) l

section Order

variable [Fingerprint F] {source : SourceConfig F} {events : List (NavEvent F)}
  {snapshot : Option (PositionSnapshot F)}
  {strategySnapshot : Option (StrategyPositionSnapshot F)} {roles : LiquidityByOrder}
  {allocations : List (AllocationSnapshot F)} {effective : Option (PositionSnapshot F)}
  {p : PreparedSourceEvents F}

theorem PreparedAs.sorted_fillOrder (h : PreparedAs source events snapshot strategySnapshot roles
    allocations effective p) : Sorted fillOrder p.fillEvents := by
  rw [h.fillEvents_eq, stableSort_map_attribute]
  exact sorted_stableSort _ _

theorem PreparedAs.fillsInOrder (h : PreparedAs source events snapshot strategySnapshot roles
    allocations effective p) : FillsInOrder p := by
  refine ⟨h.sorted_fillOrder.imp fun hab => fillTsUs_le_of_fillOrder_le hab,
    fun fill hfill ts hts => ?_⟩
  rw [h.fillEvents_eq] at hfill
  obtain ⟨fill', hfill', rfl⟩ := List.mem_map.1 hfill
  exact snapshot_lt_of_mem_fillsOf ((mem_stableSort _ _ _).1 hfill') ts hts

/-- The corrections of a preparation are valid and belong to its projection. -/
theorem PreparedAs.allocations_valid (h : PreparedAs source events snapshot strategySnapshot roles
    allocations effective p) :
    (∀ a ∈ p.allocations, a.validate = .ok ()) ∧
      ∀ a ∈ p.allocations, appliesTo p.snapshotTsUs p.strategyAllocationActive a = true := by
  have hall := h.allocations_eq
  unfold prepareAllocations at hall
  obtain ⟨resolved, -, hall⟩ := bind_eq_ok.1 hall
  obtain ⟨⟨⟩, hvalid, hall⟩ := bind_eq_ok.1 hall
  obtain ⟨⟨⟩, -, hall⟩ := bind_eq_ok.1 hall
  have hp : resolved.filter (appliesTo p.snapshotTsUs p.strategyAllocationActive) =
      p.allocations := by
    split at hall
    · obtain ⟨⟨⟩, -, hall⟩ := bind_eq_ok.1 hall
      exact Except.ok.inj hall
    · exact Except.ok.inj hall
  rw [hp] at hvalid
  refine ⟨fun a ha => ?_, fun a ha => ?_⟩
  · obtain ⟨⟨⟩, ha, -⟩ := bind_eq_ok.1 (forM_eq_ok.1 hvalid a ha)
    exact ha
  · rw [← hp] at ha
    exact (List.mem_filter.1 ha).2

theorem PreparedAs.correctionsAfter (h : PreparedAs source events snapshot strategySnapshot roles
    allocations effective p) : CorrectionsAfter p := by
  intro a ha ts hts
  have happ := h.allocations_valid.2 a ha
  unfold appliesTo at happ
  rw [hts, Bool.and_eq_true] at happ
  simpa using happ.1

end Order

end CtaManager
