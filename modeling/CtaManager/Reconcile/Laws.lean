import CtaManager.Reconcile.Counting

/-!
What the reconciliation of a source depends on.

The counts and the quantities of a report are a function of the multiset of observations
in each column family, and storing an observation again changes numbers of observations
only.  Observations without an exchange id are filed under their client id, as entries of their
own; `reconcile_laws` says exactly when every order is still counted once.
-/

namespace CtaManager.Reconcile

open Check Model OrdMap

/-! ## Sizes -/

/-- The number of observations that are filed. -/
def observationsOf (orders : RawOrders) : ℤ :=
  sumOf (fun _ order => (order.observationCount : ℤ)) orders

theorem size_step {orders orders' : RawOrders} {c : Option RawObservation}
    (h : applyContent orders c = some orders') :
    orders'.size ≤ orders.size + 1 ∧ observationsOf orders' ≤ observationsOf orders + 1 := by
  obtain ⟨o, rfl, -, h⟩ := applyContent_eq_some h
  cases hkey : keyOf o with
  | none =>
    rw [hkey] at h
    rw [show orders' = orders from h]
    exact ⟨Nat.le_succ _, by omega⟩
  | some key =>
    rw [hkey] at h
    obtain ⟨-, rfl⟩ := h
    refine ⟨Std.ExtTreeMap.size_insert_le, ?_⟩
    have hinsert := sumOf_insert_getD (fun _ order => (order.observationCount : ℤ)) orders key
      (((orders[key]?).getD (newOrder o)).grow o (quantityOf o)) (newOrder o) rfl
    unfold observationsOf
    rw [hinsert]
    show _ - _ + (((((orders[key]?).getD (newOrder o)).observationCount + 1 : ℕ) : ℤ)) ≤ _
    omega

theorem size_run {l : List (Option RawObservation)} {orders orders' : RawOrders}
    (h : l.foldlM applyContent orders = some orders') :
    orders'.size ≤ orders.size + l.length ∧
      observationsOf orders' ≤ observationsOf orders + l.length := by
  induction l generalizing orders with
  | nil =>
    cases h
    exact ⟨le_rfl, by simp⟩
  | cons c l ih =>
    rw [List.foldlM_cons] at h
    obtain ⟨t, ht, h⟩ := Option.bind_eq_some_iff.1 h
    obtain ⟨hsize, hcount⟩ := ih h
    obtain ⟨hsize', hcount'⟩ := size_step ht
    have hlength : (c :: l).length = l.length + 1 := rfl
    exact ⟨by omega, by omega⟩

theorem size_ordersOf {l : List (Option RawObservation)} {orders : RawOrders}
    (h : ordersOf l = some orders) :
    orders.size ≤ l.length ∧ observationsOf orders ≤ l.length := by
  obtain ⟨hsize, hcount⟩ := size_run h
  have hempty : observationsOf ∅ = 0 := sumOf_empty _
  rw [hempty] at hcount
  rw [Std.ExtTreeMap.size_empty] at hsize
  exact ⟨by omega, by omega⟩

theorem length_contents (records : Records) : (contents records.raw).length ≤ maxU64 := by
  have hfits := records.fits
  have hlength : (contents records.raw).length =
      (rawColumnFamilies.map fun cf => (records.raw cf).length).sum := by
    unfold contents
    rw [List.length_flatMap]
    simp only [List.length_map]
  rw [hlength]
  exact le_trans (Nat.le_add_left _ _) hfits

/-! ## Uniform fills leave the raw part alone -/

/-- Builders without a raw part. -/
def Fresh (builders : OrdMap Market SymbolBuilder) : Prop :=
  ∀ market : Market,
    ((builders[market]?).getD .empty).raw = .empty ∧
    ((builders[market]?).getD .empty).rawPositiveOrderCount = 0 ∧
    ((builders[market]?).getD .empty).rawObservationCount = 0 ∧
    ((builders[market]?).getD .empty).rawOrdersWithoutPositiveUniformFill = 0

theorem Fresh.addUniform {source : Source} {totals totals' : UniformTotals}
    {record : RawRocksRecord} (hfresh : Fresh totals.builders)
    (h : addUniform source totals record = .ok totals') : Fresh totals'.builders := by
  unfold Reconcile.addUniform at h
  obtain ⟨event, -, h⟩ := bind_eq_ok.1 h
  obtain ⟨amount, -, h⟩ := bind_eq_ok.1 h
  split at h
  · cases h
    exact hfresh
  · obtain ⟨uniform, -, h⟩ := bind_eq_ok.1 h
    obtain ⟨count, -, h⟩ := bind_eq_ok.1 h
    obtain ⟨positive, -, h⟩ := bind_eq_ok.1 h
    cases h
    intro market
    show (((totals.builders.insert _ _)[market]?).getD .empty).raw = _ ∧
      (((totals.builders.insert _ _)[market]?).getD .empty).rawPositiveOrderCount = 0 ∧
      (((totals.builders.insert _ _)[market]?).getD .empty).rawObservationCount = 0 ∧
      (((totals.builders.insert _ _)[market]?).getD .empty).rawOrdersWithoutPositiveUniformFill = 0
    rw [getElem?_insert_of_key]
    split
    · exact hfresh ⟨event.symbol, event.venueCode⟩
    · exact hfresh market

theorem fresh_uniformTotals {source : Source} {records : List RawRocksRecord}
    {totals : UniformTotals} (h : uniformTotals source records = .ok totals) :
    Fresh totals.builders := by
  refine foldlM_invariant (P := fun t : UniformTotals => Fresh t.builders)
    (fun record _ _ _ hs hstep => hs.addUniform hstep) h fun market => ?_
  show (((∅ : OrdMap Market SymbolBuilder)[market]?).getD .empty).raw = .empty ∧
    (((∅ : OrdMap Market SymbolBuilder)[market]?).getD .empty).rawPositiveOrderCount = 0 ∧
    (((∅ : OrdMap Market SymbolBuilder)[market]?).getD .empty).rawObservationCount = 0 ∧
    (((∅ : OrdMap Market SymbolBuilder)[market]?).getD .empty).rawOrdersWithoutPositiveUniformFill = 0
  rw [Std.ExtTreeMap.getElem?_empty]
  exact ⟨rfl, rfl, rfl, rfl⟩

/-! ## The report -/

/-- The report of the parts. -/
def reportOf (source : Source) (records : Records) (uniform : UniformTotals) (raw : RawState)
    (totals : RawTotals) : SourceFillReconciliation where
  sourceId := source.id
  account := source.displayName
  configuredVenue := source.venue
  rocksdbPath := source.rocksdbPath
  columnFamilyRecordCounts := columnFamilyRecordCounts records
  uniformEventCount := records.uniform.length
  uniformPositiveFillEventCount := uniform.positiveFillEventCount
  rawUniqueOrderCount := raw.orders.size
  rawPositiveOrderCount := totals.positiveOrderCount
  firstUniformFillTsUs := uniform.bounds.1
  lastUniformFillTsUs := uniform.bounds.2
  firstRawObservationTsUs := raw.bounds.1
  lastRawObservationTsUs := raw.bounds.2
  symbols := totals.builders.toList.map compareFills

theorem reconcileSource_eq_ok {source : Source} {records : Records}
    {report : SourceFillReconciliation} :
    reconcileSource source records = .ok report ↔
      ∃ uniform raw totals, uniformTotals source records.uniform = .ok uniform ∧
        rawState source records.raw = .ok raw ∧
        rawTotals uniform.positiveClients uniform.builders raw.orders = .ok totals ∧
        report = reportOf source records uniform raw totals := by
  unfold reconcileSource
  constructor
  · intro h
    obtain ⟨uniform, huniform, h⟩ := bind_eq_ok.1 h
    obtain ⟨raw, hraw, h⟩ := bind_eq_ok.1 h
    obtain ⟨totals, htotals, h⟩ := bind_eq_ok.1 h
    cases h
    refine ⟨uniform, raw, totals, huniform, hraw, ?_, rfl⟩
    exact mapError_eq_ok.1 htotals
  · rintro ⟨uniform, raw, totals, huniform, hraw, htotals, rfl⟩
    rw [huniform, ok_bind, hraw, ok_bind, htotals]
    rfl

theorem rawState_ok {source : Source} {raw : RawColumnFamily → List RawRocksRecord}
    {state : RawState} (h : rawState source raw = .ok state) :
    ordersOf (contents raw) = some state.orders := by
  rw [← rawState_orders source, h]
  rfl

theorem exists_rawState (source : Source) {raw : RawColumnFamily → List RawRocksRecord}
    {orders : RawOrders} (h : ordersOf (contents raw) = some orders) :
    ∃ state, rawState source raw = .ok state ∧ state.orders = orders := by
  rw [← rawState_orders source] at h
  obtain ⟨state, hstate, horders⟩ := Option.map_eq_some_iff.1 h
  exact ⟨state, toOption_eq_some.1 hstate, horders⟩

/-! ## Order -/

/-- A report without the times of the raw observations. -/
def SourceFillReconciliation.untimed (report : SourceFillReconciliation) :
    SourceFillReconciliation :=
  { report with firstRawObservationTsUs := none, lastRawObservationTsUs := none }

/-- The same observations in each column family, stored in some other order. -/
structure SameObservations (records records' : Records) : Prop where
  uniform : records'.uniform = records.uniform
  raw : ∀ cf, ((records.raw cf).map (content cf)).Perm ((records'.raw cf).map (content cf))

theorem SameObservations.contents {records records' : Records}
    (h : SameObservations records records') :
    (contents records.raw).Perm (contents records'.raw) :=
  List.Perm.flatMap_left _ fun cf _ => h.raw cf

theorem SameObservations.symm {records records' : Records} (h : SameObservations records records') :
    SameObservations records' records :=
  ⟨h.uniform.symm, fun cf => (h.raw cf).symm⟩

theorem SameObservations.counts {records records' : Records}
    (h : SameObservations records records') :
    columnFamilyRecordCounts records' = columnFamilyRecordCounts records := by
  have hlength : ∀ cf, (records'.raw cf).length = (records.raw cf).length := by
    intro cf
    have hperm := (h.raw cf).length_eq
    rw [List.length_map, List.length_map] at hperm
    exact hperm.symm
  unfold columnFamilyRecordCounts
  simp only [h.uniform, hlength]

theorem reconcileSource_order {source : Source} {records records' : Records}
    (h : SameObservations records records') {report : SourceFillReconciliation}
    (hreport : reconcileSource source records = .ok report) :
    ∃ report', reconcileSource source records' = .ok report' ∧ report'.untimed = report.untimed := by
  obtain ⟨uniform, raw, totals, huniform, hraw, htotals, rfl⟩ := reconcileSource_eq_ok.1 hreport
  have horders := rawState_ok hraw
  rw [ordersOf_perm h.contents] at horders
  obtain ⟨raw', hraw', heq⟩ := exists_rawState source horders
  refine ⟨reportOf source records' uniform raw' totals, reconcileSource_eq_ok.2
    ⟨uniform, raw', totals, ?_, hraw', ?_, rfl⟩, ?_⟩
  · rw [h.uniform]
    exact huniform
  · rw [heq]
    exact htotals
  · unfold reportOf SourceFillReconciliation.untimed
    dsimp only
    rw [h.counts, h.uniform, heq]

/-! ## Repetition -/

/-- What the records observe, and when. -/
def observed (raw : RawColumnFamily → List RawRocksRecord) : List (Option RawObservation) :=
  rawColumnFamilies.flatMap fun cf => (raw cf).map fun record => (observation cf record).toOption

theorem contents_eq (raw : RawColumnFamily → List RawRocksRecord) :
    contents raw = (observed raw).map (Option.map RawObservation.untimed) := by
  unfold contents observed
  rw [List.map_flatMap]
  refine congrArg (List.flatMap · rawColumnFamilies) (funext fun cf => ?_)
  rw [List.map_map]
  rfl

/-- The bounds after an observation. -/
def boundWith (bounds : Option Int × Option Int) (c : Option RawObservation) :
    Option Int × Option Int :=
  c.elim bounds fun o => updateBounds bounds o.eventTsUs

theorem addRaw_bounds {source : Source} {cf : RawColumnFamily} {state state' : RawState}
    {record : RawRocksRecord} (h : addRaw source cf state record = .ok state') :
    state'.bounds = boundWith state.bounds (observation cf record).toOption := by
  unfold addRaw at h
  obtain ⟨o, ho, h⟩ := bind_eq_ok.1 h
  obtain ⟨orders, -, h⟩ := bind_eq_ok.1 h
  cases h
  rw [mapError_eq_ok.1 ho]
  rfl

theorem rawState_bounds {source : Source} {raw : RawColumnFamily → List RawRocksRecord}
    {state : RawState} (h : rawState source raw = .ok state) :
    state.bounds = (observed raw).foldl boundWith (none, none) := by
  have hfamily : ∀ (cf : RawColumnFamily) (records : List RawRocksRecord) (s s' : RawState),
      records.foldlM (addRaw source cf) s = .ok s' → s'.bounds =
        (records.map fun record => (observation cf record).toOption).foldl boundWith s.bounds := by
    intro cf records
    induction records with
    | nil =>
      intro s s' h
      cases h
      rfl
    | cons record records ih =>
      intro s s' h
      obtain ⟨t, ht, h⟩ := bind_eq_ok.1 (foldlM_cons (addRaw source cf) s record records ▸ h)
      rw [ih t s' h, addRaw_bounds ht, List.map_cons, List.foldl_cons]
  have hall : ∀ (families : List RawColumnFamily) (s s' : RawState),
      families.foldlM (fun state cf => (raw cf).foldlM (addRaw source cf) state) s = .ok s' →
        s'.bounds = (families.flatMap fun cf => (raw cf).map fun record =>
          (observation cf record).toOption).foldl boundWith s.bounds := by
    intro families
    induction families with
    | nil =>
      intro s s' h
      cases h
      rfl
    | cons cf families ih =>
      intro s s' h
      obtain ⟨t, ht, h⟩ := bind_eq_ok.1 (foldlM_cons _ s cf families ▸ h)
      rw [ih t s' h, hfamily cf _ s t ht, List.flatMap_cons, List.foldl_append]
  exact hall rawColumnFamilies _ state h

theorem updateBounds_comm (bounds : Option Int × Option Int) (a b : Int) :
    updateBounds (updateBounds bounds a) b = updateBounds (updateBounds bounds b) a := by
  obtain ⟨first, last⟩ := bounds
  unfold updateBounds
  refine Prod.ext (congrArg some ?_) (congrArg some ?_)
  · cases first with
    | none => exact min_comm a b
    | some x => exact min_right_comm x a b
  · cases last with
    | none => exact max_comm a b
    | some x => exact max_right_comm x a b

theorem updateBounds_twice (bounds : Option Int × Option Int) (a : Int) :
    updateBounds (updateBounds bounds a) a = updateBounds bounds a := by
  unfold updateBounds
  refine Prod.ext (congrArg some ?_) (congrArg some ?_)
  · show min _ a = _
    cases bounds.1 with
    | none => exact min_self a
    | some x => exact min_eq_left (min_le_right x a)
  · show max _ a = _
    cases bounds.2 with
    | none => exact max_self a
    | some x => exact max_eq_left (le_max_right x a)

theorem boundWith_comm (bounds : Option Int × Option Int) (a b : Option RawObservation) :
    boundWith (boundWith bounds a) b = boundWith (boundWith bounds b) a := by
  cases a with
  | none => rfl
  | some a =>
    cases b with
    | none => rfl
    | some b => exact updateBounds_comm bounds a.eventTsUs b.eventTsUs

theorem boundWith_twice (bounds : Option Int × Option Int) (a : Option RawObservation) :
    boundWith (boundWith bounds a) a = boundWith bounds a := by
  cases a with
  | none => rfl
  | some a => exact updateBounds_twice bounds a.eventTsUs

/-- One observation is stored once more. -/
structure Repeats (c : Option RawObservation) (records records' : Records) : Prop where
  uniform : records'.uniform = records.uniform
  mem : c ∈ observed records.raw
  raw : (observed records'.raw).Perm (c :: observed records.raw)

/-- A report without its numbers of observations. -/
def SourceFillReconciliation.uncounted (report : SourceFillReconciliation) :
    SourceFillReconciliation :=
  { report with
    columnFamilyRecordCounts := ∅
    symbols := report.symbols.map fun symbol => { symbol with rawObservationCount := 0 } }

theorem Repeats.bounds {c : Option RawObservation} {records records' : Records}
    (h : Repeats c records records') :
    (observed records'.raw).foldl boundWith (none, none) =
      (observed records.raw).foldl boundWith (none, none) := by
  have hcomm : ∀ {l l' : List (Option RawObservation)}, l.Perm l' →
      l.foldl boundWith (none, none) = l'.foldl boundWith (none, none) :=
    fun hperm => hperm.foldl_eq' (fun a _ b _ bounds => boundWith_comm bounds a b) _
  have hcons := List.perm_cons_erase h.mem
  rw [hcomm (h.raw.trans (hcons.cons c)), hcomm hcons, List.foldl_cons, List.foldl_cons,
    boundWith_twice, List.foldl_cons]

/-! ### The orders behind a repeated observation -/

theorem grow_twice (order : RawOrder) (o : RawObservation) (q : ℚ) :
    SameOrder (order.grow o q) ((order.grow o q).grow o q) := by
  have hids : (if o.clientOrderId ≠ 0 then
      (if o.clientOrderId ≠ 0 then order.clientOrderIds.insert o.clientOrderId
        else order.clientOrderIds).insert o.clientOrderId
      else (if o.clientOrderId ≠ 0 then order.clientOrderIds.insert o.clientOrderId
        else order.clientOrderIds)) =
      if o.clientOrderId ≠ 0 then order.clientOrderIds.insert o.clientOrderId
      else order.clientOrderIds := by
    split
    · refine Std.ExtTreeSet.ext_mem fun x => ?_
      simp only [Std.ExtTreeSet.mem_insert]
      exact ⟨fun h => h.elim Or.inl id, Or.inr⟩
    · rfl
  unfold SameOrder RawOrder.grow
  dsimp only
  rw [hids, max_eq_left (le_max_right _ q)]

theorem countOf_le {orders : RawOrders} {key : RawOrderKey} {order : RawOrder}
    (h : orders[key]? = some order) : (order.observationCount : ℤ) ≤ observationsOf orders := by
  unfold observationsOf
  rw [sumOf_split _ orders key, h]
  show (order.observationCount : ℤ) ≤ order.observationCount + _
  refine le_add_of_nonneg_right (List.sum_nonneg fun x hx => ?_)
  obtain ⟨p, -, rfl⟩ := List.mem_map.1 hx
  exact Int.natCast_nonneg _

theorem SameOrder.refl (order : RawOrder) : SameOrder order order := rfl

theorem rel_refl (orders : RawOrders) (key : RawOrderKey) :
    Option.Rel SameOrder (orders[key]?) (orders[key]?) := by
  cases orders[key]? with
  | none => exact .none
  | some order => exact .some (SameOrder.refl order)

/-- A second time changes the number of observations of one entry. -/
theorem applyContent_twice {orders orders' : RawOrders} {c : Option RawObservation}
    (h : applyContent orders c = some orders') (hroom : observationsOf orders' + 1 ≤ maxU64) :
    ∃ orders'', applyContent orders' c = some orders'' ∧
      ∀ key : RawOrderKey, Option.Rel SameOrder (orders'[key]?) (orders''[key]?) := by
  rw [applyContent_eq] at h
  obtain ⟨o, hc, hfiled⟩ := Option.bind_eq_some_iff.1 h
  obtain ⟨f, hfiling, hstep⟩ := Option.bind_eq_some_iff.1 hfiled
  have hagain : applyContent orders' c = fileAs orders' o f := by
    rw [applyContent_eq, hc, Option.bind_some, hfiling, Option.bind_some]
  cases f with
  | none => exact ⟨orders', hagain, rel_refl orders'⟩
  | some f =>
    obtain ⟨key, q⟩ := f
    change file orders o key q = some orders' at hstep
    rw [file_eq] at hstep
    split at hstep
    · next hok =>
      obtain rfl := Option.some.inj hstep
      have hentry : (orders.insert key (((orders[key]?).getD (newOrder o)).grow o q))[key]? =
          some (((orders[key]?).getD (newOrder o)).grow o q) := by
        rw [getElem?_insert_of_key, if_pos rfl]
      have hcount := countOf_le hentry
      refine ⟨(orders.insert key (((orders[key]?).getD (newOrder o)).grow o q)).insert key
        ((((orders[key]?).getD (newOrder o)).grow o q).grow o q),
        hagain.trans ((file_eq _ o key q).trans ?_), fun key' => ?_⟩
      · rw [hentry, Option.getD_some, if_pos]
        exact ⟨hok.1, by omega⟩
      · rw [getElem?_insert_of_key (orders.insert key _)]
        split
        · next heq =>
          rw [← heq, hentry]
          exact .some (grow_twice _ o q)
        · exact rel_refl _ key'
    · cases hstep

theorem ordersOf_concat (l : List (Option RawObservation)) (c : Option RawObservation) :
    ordersOf (c :: l) = (ordersOf l).bind fun orders => applyContent orders c := by
  have hperm : (c :: l).Perm (l ++ [c]) := (List.perm_append_singleton c l).symm
  rw [ordersOf_perm hperm]
  unfold ordersOf
  rw [List.foldlM_append]
  refine congrArg _ (funext fun orders => ?_)
  exact (Option.bind_fun_some _)

theorem Repeats.contents {c : Option RawObservation} {records records' : Records}
    (h : Repeats c records records') :
    ∃ l, (contents records.raw).Perm (c.map RawObservation.untimed :: l) ∧
      (contents records'.raw).Perm
        (c.map RawObservation.untimed :: c.map RawObservation.untimed :: l) := by
  have hcons := List.perm_cons_erase h.mem
  refine ⟨((observed records.raw).erase c).map (Option.map RawObservation.untimed), ?_, ?_⟩
  · rw [contents_eq]
    exact hcons.map _
  · rw [contents_eq]
    exact (h.raw.trans (hcons.cons c)).map _

/-- The orders behind the records and behind the records with the repetition. -/
theorem Repeats.orders {c : Option RawObservation} {records records' : Records}
    (h : Repeats c records records') :
    (∃ orders, ordersOf (Reconcile.contents records.raw) = some orders ∧
      ∃ orders', ordersOf (Reconcile.contents records'.raw) = some orders' ∧
        ∀ key : RawOrderKey, Option.Rel SameOrder (orders[key]?) (orders'[key]?)) ∨
      ordersOf (Reconcile.contents records.raw) = none ∧
        ordersOf (Reconcile.contents records'.raw) = none := by
  obtain ⟨l, hperm, hperm'⟩ := h.contents
  rw [ordersOf_perm hperm, ordersOf_perm hperm', ordersOf_concat (_ :: l)]
  cases horders : ordersOf (c.map RawObservation.untimed :: l) with
  | none => exact Or.inr ⟨rfl, rfl⟩
  | some orders =>
    have hfirst := horders
    rw [ordersOf_concat] at hfirst
    obtain ⟨t, -, hstep⟩ := Option.bind_eq_some_iff.1 hfirst
    have hlength := length_contents records'
    rw [hperm'.length_eq] at hlength
    have hlength' : (c.map RawObservation.untimed :: c.map RawObservation.untimed :: l).length =
      (c.map RawObservation.untimed :: l).length + 1 := rfl
    have hcount := (size_ordersOf horders).2
    obtain ⟨orders', horders', hrel⟩ := applyContent_twice hstep (by omega)
    exact Or.inl ⟨orders, rfl, orders', horders', hrel⟩

/-! ### The report of a repeated observation -/

theorem SameTotals.refl (totals : RawTotals) : SameTotals totals totals := by
  refine ⟨fun market => ?_, rfl⟩
  cases totals.builders[market]? with
  | none => exact .none
  | some builder => exact .some rfl

theorem values_sameOrder {orders orders' : RawOrders}
    (h : ∀ key : RawOrderKey, Option.Rel SameOrder (orders[key]?) (orders'[key]?)) :
    List.Forall₂ SameOrder (orders.toList.map Prod.snd) (orders'.toList.map Prod.snd) := by
  rw [List.forall₂_map_left_iff, List.forall₂_map_right_iff]
  exact (forall₂_toList_of_rel h).imp fun _ _ hpq => hpq.2

theorem sum_counts (orders : RawOrders) :
    (((orders.toList.map Prod.snd).map RawOrder.observationCount).sum : ℤ) =
      observationsOf orders := by
  unfold observationsOf sumOf
  rw [List.map_map, Nat.cast_list_sum, List.map_map]
  rfl

/-- Totals of orders that say the same but for their numbers of observations. -/
theorem rawTotals_agree {clients : OrdSet LiquidityOrderKey}
    {builders : OrdMap Market SymbolBuilder} {orders orders' : RawOrders} {totals : RawTotals}
    (hfresh : Fresh builders)
    (h : ∀ key : RawOrderKey, Option.Rel SameOrder (orders[key]?) (orders'[key]?))
    (hroom : observationsOf orders' ≤ maxU64)
    (hrun : rawTotals clients builders orders = .ok totals) :
    ∃ totals', rawTotals clients builders orders' = .ok totals' ∧ SameTotals totals totals' := by
  refine addOrders_agree (values_sameOrder h) (SameTotals.refl _) (fun market => ?_) hrun
  have hzero : (RawTotals.at { builders, positiveOrderCount := 0 } market).rawObservationCount = 0 :=
    (hfresh market).2.2.1
  have hsum := sum_counts orders'
  rw [hzero]
  omega

theorem compareFills_uncounted {entry entry' : Market × SymbolBuilder} (hkey : entry.1 = entry'.1)
    (h : entry.2.uncounted = entry'.2.uncounted) :
    { compareFills entry with rawObservationCount := 0 } =
      { compareFills entry' with rawObservationCount := 0 } := by
  unfold SymbolBuilder.uncounted at h
  injection h with huniform hpositive _ hmissing huniforms hraw
  unfold compareFills
  dsimp only
  rw [hkey, huniform, hpositive, hmissing, huniforms, hraw]

theorem symbols_uncounted {totals totals' : RawTotals} (h : SameTotals totals totals') :
    (totals.builders.toList.map compareFills).map
        (fun symbol => { symbol with rawObservationCount := 0 }) =
      (totals'.builders.toList.map compareFills).map
        fun symbol => { symbol with rawObservationCount := 0 } := by
  have hrel := forall₂_toList_of_rel h.builders
  rw [List.map_map, List.map_map, ← List.forall₂_eq_eq_eq, List.forall₂_map_left_iff,
    List.forall₂_map_right_iff]
  exact hrel.imp fun _ _ hpq => compareFills_uncounted hpq.1 hpq.2

theorem size_eq_of_rel {orders orders' : RawOrders}
    (h : ∀ key : RawOrderKey, Option.Rel SameOrder (orders[key]?) (orders'[key]?)) :
    orders.size = orders'.size := by
  have hlength := (forall₂_toList_of_rel h).length_eq
  rw [Std.ExtTreeMap.length_toList, Std.ExtTreeMap.length_toList] at hlength
  exact hlength

theorem rel_symm {orders orders' : RawOrders}
    (h : ∀ key : RawOrderKey, Option.Rel SameOrder (orders[key]?) (orders'[key]?))
    (key : RawOrderKey) : Option.Rel SameOrder (orders'[key]?) (orders[key]?) := by
  have hkey := h key
  generalize orders[key]? = x at hkey ⊢
  generalize orders'[key]? = y at hkey ⊢
  cases hkey with
  | some hsame => exact .some hsame.symm
  | none => exact .none

/-- Reports over orders that say the same. -/
theorem reconcileSource_agree {source : Source} {records records' : Records}
    {report : SourceFillReconciliation} {orders orders' : RawOrders}
    (huniform : records'.uniform = records.uniform)
    (hbounds : (observed records'.raw).foldl boundWith (none, none) =
      (observed records.raw).foldl boundWith (none, none))
    (horders : ordersOf (contents records.raw) = some orders)
    (horders' : ordersOf (contents records'.raw) = some orders')
    (h : ∀ key : RawOrderKey, Option.Rel SameOrder (orders[key]?) (orders'[key]?))
    (hreport : reconcileSource source records = .ok report) :
    ∃ report', reconcileSource source records' = .ok report' ∧
      report'.uncounted = report.uncounted := by
  obtain ⟨uniform, raw, totals, huniforms, hraw, htotals, rfl⟩ := reconcileSource_eq_ok.1 hreport
  obtain ⟨raw', hraw', heq⟩ := exists_rawState source horders'
  have hown : raw.orders = orders := by
    have hsome := rawState_ok hraw
    rw [horders] at hsome
    exact (Option.some.inj hsome).symm
  have hroom : observationsOf orders' ≤ maxU64 := by
    have hcount := (size_ordersOf horders').2
    have hlength := length_contents records'
    omega
  rw [hown] at htotals
  obtain ⟨totals', htotals', hsame⟩ :=
    rawTotals_agree (fresh_uniformTotals huniforms) h hroom htotals
  refine ⟨reportOf source records' uniform raw' totals', reconcileSource_eq_ok.2
    ⟨uniform, raw', totals', ?_, hraw', ?_, rfl⟩, ?_⟩
  · rw [huniform]
    exact huniforms
  · rw [heq]
    exact htotals'
  · unfold reportOf SourceFillReconciliation.uncounted
    dsimp only
    rw [huniform, heq, hown, size_eq_of_rel h, hsame.positive, symbols_uncounted hsame,
      rawState_bounds hraw, rawState_bounds hraw', hbounds]

theorem reconcileSource_repeat (source : Source) {records records' : Records}
    {c : Option RawObservation} (h : Repeats c records records') :
    (∃ report, reconcileSource source records = .ok report ∧
      ∃ report', reconcileSource source records' = .ok report' ∧
        report'.uncounted = report.uncounted) ∨
      (∀ report, reconcileSource source records ≠ .ok report) ∧
        ∀ report, reconcileSource source records' ≠ .ok report := by
  have hfails : ∀ {records : Records}, ordersOf (contents records.raw) = none →
      ∀ report, reconcileSource source records ≠ .ok report := by
    intro records hnone report hreport
    obtain ⟨_, raw, _, _, hraw, _⟩ := reconcileSource_eq_ok.1 hreport
    rw [rawState_ok hraw] at hnone
    cases hnone
  rcases h.orders with ⟨orders, horders, orders', horders', hrel⟩ | ⟨hnone, hnone'⟩
  · by_cases hok : ∃ report, reconcileSource source records = .ok report
    · obtain ⟨report, hreport⟩ := hok
      exact Or.inl ⟨report, hreport,
        reconcileSource_agree h.uniform h.bounds horders horders' hrel hreport⟩
    · refine Or.inr ⟨fun report hreport => hok ⟨report, hreport⟩, fun report' hreport' => hok ?_⟩
      obtain ⟨report, hreport, -⟩ := reconcileSource_agree h.uniform.symm h.bounds.symm horders'
        horders (rel_symm hrel) hreport'
      exact ⟨report, hreport⟩
  · exact Or.inr ⟨hfails hnone, hfails hnone'⟩

end CtaManager.Reconcile
