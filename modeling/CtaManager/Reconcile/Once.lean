import CtaManager.Reconcile.Laws

/-!
When every order is counted once.

A book says which order each observation is of.  The raw total of a market and side should be
the sum of the greatest quantities of its orders.  The observations with an exchange id are one
entry for each order, but those without are one entry for each client id, so the total is right
exactly if these entries add up to what they say beyond the others (`reconcile_laws`).
-/

namespace CtaManager.Reconcile

open Check Model OrdMap

/-! ## Quantities of a report -/

/-- The raw quantity that a report says of a market and side. -/
def rawQuantity (report : SourceFillReconciliation) (market : Market) (sideCode : Int) : ℚ :=
  (report.symbols.find? fun s =>
      decide (s.symbol = market.symbol ∧ s.venueCode = market.venueCode)).elim 0 fun s =>
    if sideCode = 1 then s.rawMaxCumulative.buyQuantity else s.rawMaxCumulative.sellQuantity

theorem cleanZero_eq (value : ℚ) : cleanZero value = value := by
  unfold cleanZero
  split
  · next h => exact h.symm
  · rfl

theorem rawQuantity_reportOf (source : Source) (records : Records) (uniform : UniformTotals)
    (raw : RawState) (totals : RawTotals) (market : Market) (sideCode : Int) :
    rawQuantity (reportOf source records uniform raw totals) market sideCode =
      totals.quantityAt market sideCode := by
  have hmarket : ∀ entry : Market × SymbolBuilder,
      ((fun s : SymbolFillComparison =>
        decide (s.symbol = market.symbol ∧ s.venueCode = market.venueCode)) ∘ compareFills) entry =
        true ↔ entry.1 = market := by
    intro entry
    refine decide_eq_true_iff.trans ⟨?_, ?_⟩
    · rintro ⟨hsymbol, hvenue⟩
      show Market.mk entry.1.symbol entry.1.venueCode = market
      rw [show entry.1.symbol = market.symbol from hsymbol,
        show entry.1.venueCode = market.venueCode from hvenue]
    · rintro rfl
      exact ⟨rfl, rfl⟩
  unfold rawQuantity reportOf RawTotals.quantityAt RawTotals.at
  dsimp only
  rw [List.find?_map, find?_toList _ market hmarket]
  cases totals.builders[market]? with
  | none =>
    show (0 : ℚ) = if sideCode = 1 then 0 else 0
    rw [ite_self]
  | some builder =>
    show (if sideCode = 1 then cleanZero builder.raw.buyQuantity
      else cleanZero builder.raw.sellQuantity) = builder.raw.side sideCode
    rw [cleanZero_eq, cleanZero_eq]
    rfl

section

variable {uniform : UniformTotals}

theorem quantityAt_fresh (h : Fresh uniform.builders) (market : Market) (sideCode : Int) :
    RawTotals.quantityAt { builders := uniform.builders, positiveOrderCount := 0 } market sideCode =
      0 := by
  unfold RawTotals.quantityAt RawTotals.at
  rw [(h market).1]
  exact ite_self 0

/-- The raw quantity is the sum over the orders. -/
theorem quantityAt_rawTotals (h : Fresh uniform.builders) {orders : RawOrders}
    {totals : RawTotals}
    (hrun : rawTotals uniform.positiveClients uniform.builders orders = .ok totals)
    (market : Market) {sideCode : Int} (hside : sideCode = 1 ∨ sideCode = 2) :
    totals.quantityAt market sideCode = rawSum market sideCode orders := by
  rw [quantityAt_addOrders hrun market hside, quantityAt_fresh h, zero_add, List.map_map]
  rfl

end

/-! ## Books -/

/-- The observations with an exchange id. -/
def identified (l : List RawObservation) : List RawObservation :=
  l.filter fun o => decide (0 < o.orderId)

/-- The observations without one. -/
def unidentified (l : List RawObservation) : List RawObservation :=
  l.filter fun o => !decide (0 < o.orderId)

/-- An order and its observations.  Without an exchange id it goes by its client id. -/
structure BookedOrder where
  market : Market
  exchangeId : Option Int
  clientId : Int
  sideCode : Int
  own : List RawObservation

namespace BookedOrder

/-- An observation of the order: on its side, with its exchange id or else its client id. -/
structure Reports (p : BookedOrder) (o : RawObservation) : Prop where
  market : o.market = p.market
  side : o.sideCode = p.sideCode
  ids : (0 < o.orderId ∧ p.exchangeId = some o.orderId) ∨
    (¬0 < o.orderId ∧ o.clientOrderId = p.clientId)

/-- What tells it from the other orders. -/
def key (p : BookedOrder) : RawOrderKey :=
  ⟨p.market, p.exchangeId.elim (.client p.clientId) .exchange⟩

/-- What its observations without an exchange id say beyond the others. -/
def excess (p : BookedOrder) : ℚ := maxCumulative p.own - maxCumulative (identified p.own)

end BookedOrder

/-- The book has all observations of the records, and no order twice. -/
structure Book (book : List BookedOrder) (records : Records) : Prop where
  covers : (contents records.raw).Perm ((book.flatMap BookedOrder.own).map some)
  reports : ∀ p ∈ book, ∀ o ∈ p.own, p.Reports o
  named : ∀ p ∈ book, ∀ id, p.exchangeId = some id → ∃ o ∈ p.own, o.orderId = id
  distinct : (book.map BookedOrder.key).Nodup

section

variable (book : List BookedOrder) (market : Market) (sideCode : Int)

/-- The orders of a market and side. -/
def ordersAt : List BookedOrder :=
  book.filter fun p => decide (p.market = market ∧ p.sideCode = sideCode)

/-- Those of them that are seen without an exchange id. -/
def unnamedAt : List BookedOrder :=
  (ordersAt book market sideCode).filter fun p => !(unidentified p.own).isEmpty

/-- The client ids these share. -/
def clientsAt : Finset Int := ((unnamedAt book market sideCode).map BookedOrder.clientId).toFinset

/-- The greatest quantity that is seen under a client id. -/
def underClient (clientId : Int) : ℚ :=
  maxCumulative (unidentified (((unnamedAt book market sideCode).filter fun p =>
    decide (p.clientId = clientId)).flatMap BookedOrder.own))

/-- Every order of the market and side enters the total once, as its greatest quantity. -/
def CountedOnce (report : SourceFillReconciliation) : Prop :=
  rawQuantity report market sideCode =
    ((ordersAt book market sideCode).map fun p => maxCumulative p.own).sum

end

section

variable {book : List BookedOrder} {records : Records} {market : Market} {sideCode : Int}

theorem mem_ordersAt {p : BookedOrder} :
    p ∈ ordersAt book market sideCode ↔ p ∈ book ∧ p.market = market ∧ p.sideCode = sideCode := by
  unfold ordersAt
  rw [List.mem_filter, decide_eq_true_eq]

theorem mem_unidentified {l : List RawObservation} {o : RawObservation} :
    o ∈ unidentified l ↔ o ∈ l ∧ ¬0 < o.orderId := by
  unfold unidentified
  rw [List.mem_filter, Bool.not_eq_true', decide_eq_false_iff_not]

theorem mem_identified {l : List RawObservation} {o : RawObservation} :
    o ∈ identified l ↔ o ∈ l ∧ 0 < o.orderId := by
  unfold identified
  rw [List.mem_filter, decide_eq_true_eq]

theorem mem_unnamedAt {p : BookedOrder} :
    p ∈ unnamedAt book market sideCode ↔
      p ∈ ordersAt book market sideCode ∧ ∃ o ∈ p.own, ¬0 < o.orderId := by
  unfold unnamedAt
  rw [List.mem_filter, Bool.not_eq_true', List.isEmpty_eq_false_iff_exists_mem]
  simp only [mem_unidentified]

theorem keyOf_eq_some {o : RawObservation} {market : Market} {id : StableOrderId} :
    keyOf o = some ⟨market, id⟩ ↔ o.market = market ∧ stableId? o = some id := by
  unfold keyOf
  rw [Option.map_eq_some_iff]
  constructor
  · rintro ⟨id', hid, hkey⟩
    obtain ⟨hmarket, heq⟩ := RawOrderKey.mk.inj hkey
    exact ⟨hmarket, heq ▸ hid⟩
  · rintro ⟨rfl, hid⟩
    exact ⟨id, hid, rfl⟩

theorem stableId_eq_exchange {o : RawObservation} {id : Int} :
    stableId? o = some (.exchange id) ↔ 0 < o.orderId ∧ o.orderId = id := by
  unfold stableId?
  by_cases hid : 0 < o.orderId
  · simp [hid]
  · by_cases hclient : o.clientOrderId ≠ 0
    · simp [hid, hclient]
    · simp [hid, hclient]

theorem stableId_eq_client {o : RawObservation} {id : Int} :
    stableId? o = some (.client id) ↔ ¬0 < o.orderId ∧ o.clientOrderId = id ∧ id ≠ 0 := by
  unfold stableId?
  by_cases hid : 0 < o.orderId
  · simp [hid]
  · by_cases hclient : o.clientOrderId = 0
    · simp only [hid, hclient, if_false, ne_eq, not_true_eq_false, not_false_eq_true, true_and]
      constructor
      · intro h
        cases h
      · rintro ⟨rfl, h⟩
        exact absurd rfl h
    · simp only [hid, hclient, if_false, ne_eq, not_false_eq_true, if_true, true_and]
      constructor
      · intro h
        cases h
        exact ⟨rfl, hclient⟩
      · rintro ⟨rfl, -⟩
        rfl

/-- An observation is one of an order of its market and side. -/
theorem Book.order_of_mem (h : Book book records) {o : RawObservation}
    (ho : o ∈ book.flatMap BookedOrder.own) :
    ∃ p ∈ ordersAt book o.market o.sideCode, o ∈ p.own ∧ p.Reports o := by
  obtain ⟨p, hp, hown⟩ := List.mem_flatMap.1 ho
  have hreports := h.reports p hp o hown
  exact ⟨p, mem_ordersAt.2 ⟨hp, hreports.market.symm, hreports.side.symm⟩, hown, hreports⟩

theorem Book.mem_own (h : Book book records) {p : BookedOrder}
    (hp : p ∈ ordersAt book market sideCode) {o : RawObservation} (ho : o ∈ p.own) :
    o ∈ book.flatMap BookedOrder.own ∧ p.Reports o ∧ o.market = market ∧ o.sideCode = sideCode := by
  obtain ⟨hbook, rfl, rfl⟩ := mem_ordersAt.1 hp
  have hreports := h.reports p hbook o ho
  exact ⟨List.mem_flatMap.2 ⟨p, hbook, ho⟩, hreports, hreports.market, hreports.side⟩

/-- The observations under an exchange id are those of one order. -/
theorem Book.filed_exchange (h : Book book records) {p : BookedOrder}
    (hp : p ∈ ordersAt book market sideCode) {id : Int} (hid : p.exchangeId = some id) :
    maxCumulative ((book.flatMap BookedOrder.own).filter fun o =>
        decide (FiledFor market sideCode p.key o)) = maxCumulative (identified p.own) := by
  obtain ⟨hbook, hmarket, hside⟩ := mem_ordersAt.1 hp
  have hkey : p.key = ⟨market, .exchange id⟩ := by
    unfold BookedOrder.key
    rw [hid, hmarket]
    rfl
  refine maxCumulative_congr fun o => ?_
  rw [List.mem_filter, decide_eq_true_eq, mem_identified, hkey]
  unfold FiledFor
  rw [keyOf_eq_some, stableId_eq_exchange]
  constructor
  · rintro ⟨ho, ⟨-, hpos, rfl⟩, rfl, rfl⟩
    obtain ⟨p', hp', hown, hreports⟩ := h.order_of_mem ho
    obtain ⟨hbook', hmarket', -⟩ := mem_ordersAt.1 hp'
    have hid' : p'.exchangeId = some o.orderId := by
      rcases hreports.ids with ⟨-, hid'⟩ | ⟨hnot, -⟩
      · exact hid'
      · exact absurd hpos hnot
    have hsame : p' = p := by
      refine List.inj_on_of_nodup_map h.distinct hbook' hbook ?_
      unfold BookedOrder.key
      rw [hid, hid', hmarket, hmarket']
      rfl
    exact ⟨hsame ▸ hown, hpos⟩
  · rintro ⟨hown, hpos⟩
    obtain ⟨ho, hreports, hmarket', hside'⟩ := h.mem_own hp hown
    rcases hreports.ids with ⟨-, hid'⟩ | ⟨hnot, -⟩
    · exact ⟨ho, ⟨hmarket', hpos, Option.some.inj (hid'.symm.trans hid)⟩, hmarket', hside'⟩
    · exact absurd hpos hnot

/-- The observations under a client id are those of its orders. -/
theorem Book.filed_client (h : Book book records) {orders : RawOrders}
    (hrun : ((book.flatMap BookedOrder.own).map some).foldlM applyContent ∅ = some orders)
    (clientId : Int) :
    maxCumulative ((book.flatMap BookedOrder.own).filter fun o =>
        decide (FiledFor market sideCode ⟨market, .client clientId⟩ o)) =
      underClient book market sideCode clientId := by
  have hmem : ∀ o, o ∈ unidentified (((unnamedAt book market sideCode).filter fun p =>
      decide (p.clientId = clientId)).flatMap BookedOrder.own) ↔
      o ∈ book.flatMap BookedOrder.own ∧ ¬0 < o.orderId ∧ o.clientOrderId = clientId ∧
        o.market = market ∧ o.sideCode = sideCode := by
    intro o
    rw [mem_unidentified, List.mem_flatMap]
    constructor
    · rintro ⟨⟨p, hp, hown⟩, hnot⟩
      obtain ⟨hp, hclient⟩ := List.mem_filter.1 hp
      obtain ⟨ho, hreports, hmarket, hside⟩ := h.mem_own (mem_unnamedAt.1 hp).1 hown
      rcases hreports.ids with ⟨hpos, -⟩ | ⟨-, hid⟩
      · exact absurd hpos hnot
      · exact ⟨ho, hnot, hid.trans (of_decide_eq_true hclient), hmarket, hside⟩
    · rintro ⟨ho, hnot, rfl, rfl, rfl⟩
      obtain ⟨p, hp, hown, hreports⟩ := h.order_of_mem ho
      rcases hreports.ids with ⟨hpos, -⟩ | ⟨-, hid⟩
      · exact absurd hpos hnot
      · exact ⟨⟨p, List.mem_filter.2 ⟨mem_unnamedAt.2 ⟨hp, o, hown, hnot⟩,
          decide_eq_true hid.symm⟩, hown⟩, hnot⟩
  unfold underClient
  by_cases hzero : clientId = 0
  · -- without an id nothing is filed, and nothing was filled
    subst hzero
    refine (maxCumulative_eq_zero fun o ho => ?_).trans
      (maxCumulative_eq_zero fun o ho => ?_).symm
    · have hfiled := of_decide_eq_true (List.mem_filter.1 ho).2
      exact absurd rfl (stableId_eq_client.1 (keyOf_eq_some.1 hfiled.1).2).2.2
    · obtain ⟨ho, hnot, hclient, -⟩ := (hmem o).1 ho
      obtain ⟨t, t', happlied⟩ := applied_of_run hrun o ho
      refine quantityOf_eq_zero happlied (Option.map_eq_none_iff.2 ?_)
      unfold stableId?
      rw [if_neg hnot, if_neg (not_not_intro hclient)]
  · refine maxCumulative_congr fun o => ?_
    rw [hmem, List.mem_filter, decide_eq_true_eq]
    unfold FiledFor
    rw [keyOf_eq_some, stableId_eq_client]
    constructor
    · rintro ⟨ho, ⟨-, hnot, hclient, -⟩, hmarket, hside⟩
      exact ⟨ho, hnot, hclient, hmarket, hside⟩
    · rintro ⟨ho, hnot, hclient, hmarket, hside⟩
      exact ⟨ho, ⟨hmarket, hnot, hclient, hzero⟩, hmarket, hside⟩

theorem sum_map_filter {α : Type} {f : α → ℚ} {p : α → Bool} {l : List α}
    (h : ∀ a ∈ l, p a = false → f a = 0) : ((l.filter p).map f).sum = (l.map f).sum := by
  induction l with
  | nil => rfl
  | cons a l ih =>
    rw [List.forall_mem_cons] at h
    cases hp : p a with
    | true =>
      rw [List.filter_cons_of_pos hp, List.map_cons, List.map_cons, List.sum_cons, List.sum_cons,
        ih h.2]
    | false =>
      rw [List.filter_cons_of_neg (by simp [hp]), List.map_cons, List.sum_cons, h.1 hp, zero_add,
        ih h.2]

/-- A raw total is the sum over the exchange ids and over the client ids. -/
theorem Book.rawSum_eq (h : Book book records) {orders : RawOrders}
    (hrun : ((book.flatMap BookedOrder.own).map some).foldlM applyContent ∅ = some orders) :
    rawSum market sideCode orders =
      ((ordersAt book market sideCode).map fun p => maxCumulative (identified p.own)).sum +
        ∑ clientId ∈ clientsAt book market sideCode, underClient book market sideCode clientId := by
  let named := (ordersAt book market sideCode).filter fun p => p.exchangeId.isSome
  let exchangeKeys := (named.map BookedOrder.key).toFinset
  let clientKey : Int → RawOrderKey := fun clientId => ⟨market, .client clientId⟩
  let clientKeys := (clientsAt book market sideCode).image clientKey
  have hnamed : ∀ p ∈ named, p ∈ ordersAt book market sideCode ∧
      ∃ id, p.exchangeId = some id ∧ p.key = ⟨market, .exchange id⟩ := by
    intro p hp
    obtain ⟨hp, hsome⟩ := List.mem_filter.1 hp
    obtain ⟨id, hid⟩ := Option.isSome_iff_exists.1 hsome
    refine ⟨hp, id, hid, ?_⟩
    unfold BookedOrder.key
    rw [hid, (mem_ordersAt.1 hp).2.1]
    rfl
  have hdisjoint : Disjoint exchangeKeys clientKeys := by
    refine Finset.disjoint_left.2 fun key hexchange hclient => ?_
    obtain ⟨p, hp, rfl⟩ := List.mem_map.1 (List.mem_toFinset.1 hexchange)
    obtain ⟨-, id, -, hkey⟩ := hnamed p hp
    obtain ⟨clientId, -, heq⟩ := Finset.mem_image.1 hclient
    rw [hkey] at heq
    cases heq
  have houtside : ∀ key ∉ exchangeKeys ∪ clientKeys, share market sideCode orders key = 0 := by
    intro key hkey
    rw [share_run hrun]
    refine maxCumulative_eq_zero fun o ho => absurd ?_ hkey
    obtain ⟨hmem, hcounts⟩ := List.mem_filter.1 ho
    obtain ⟨hfiled, rfl, rfl⟩ := of_decide_eq_true hcounts
    obtain ⟨p, hp, hown, hreports⟩ := h.order_of_mem hmem
    unfold keyOf at hfiled
    obtain ⟨id, hid, rfl⟩ := Option.map_eq_some_iff.1 hfiled
    rcases hreports.ids with ⟨hpos, hexchange⟩ | ⟨hnot, hclient⟩
    · refine Finset.mem_union_left _ (List.mem_toFinset.2 (List.mem_map.2 ⟨p, ?_, ?_⟩))
      · exact List.mem_filter.2 ⟨hp, by rw [hexchange]; rfl⟩
      · unfold stableId? at hid
        rw [if_pos hpos] at hid
        unfold BookedOrder.key
        rw [hexchange, (mem_ordersAt.1 hp).2.1, ← Option.some.inj hid]
        rfl
    · unfold stableId? at hid
      rw [if_neg hnot] at hid
      split at hid
      · rw [← Option.some.inj hid]
        refine Finset.mem_union_right _ (Finset.mem_image.2 ⟨o.clientOrderId, ?_, rfl⟩)
        exact List.mem_toFinset.2 (List.mem_map.2
          ⟨p, mem_unnamedAt.2 ⟨hp, o, hown, hnot⟩, hclient.symm⟩)
      · cases hid
  have hexchange : ∑ key ∈ exchangeKeys, share market sideCode orders key =
      ((ordersAt book market sideCode).map fun p => maxCumulative (identified p.own)).sum := by
    have hnodup : (named.map BookedOrder.key).Nodup :=
      (List.Sublist.map _ (List.filter_sublist.trans List.filter_sublist)).nodup h.distinct
    rw [List.sum_toFinset _ hnodup, List.map_map]
    have hvalue : named.map (share market sideCode orders ∘ BookedOrder.key) =
        named.map fun p => maxCumulative (identified p.own) := by
      refine List.map_congr_left fun p hp => ?_
      obtain ⟨hp, id, hid, -⟩ := hnamed p hp
      show share market sideCode orders p.key = _
      rw [share_run hrun, h.filed_exchange hp hid]
    rw [hvalue]
    refine sum_map_filter fun p hp hnone => ?_
    refine maxCumulative_eq_zero fun o ho => ?_
    obtain ⟨hown, hpos⟩ := mem_identified.1 ho
    obtain ⟨-, hreports, -⟩ := h.mem_own hp hown
    rcases hreports.ids with ⟨-, hid⟩ | ⟨hnot, -⟩
    · rw [hid] at hnone
      cases hnone
    · exact absurd hpos hnot
  have hclient : ∑ key ∈ clientKeys, share market sideCode orders key =
      ∑ clientId ∈ clientsAt book market sideCode, underClient book market sideCode clientId := by
    have hinjective : ∀ c ∈ clientsAt book market sideCode, ∀ c' ∈ clientsAt book market sideCode,
        clientKey c = clientKey c' → c = c' := by
      intro c _ c' _ heq
      cases heq
      rfl
    rw [Finset.sum_image hinjective]
    refine Finset.sum_congr rfl fun clientId _ => ?_
    rw [share_run hrun, h.filed_client hrun]
  rw [rawSum_eq_sum houtside, Finset.sum_union hdisjoint, hexchange, hclient]

/-! ## The total of a book -/

theorem maxCumulative_own (p : BookedOrder) :
    maxCumulative p.own =
      max (maxCumulative (identified p.own)) (maxCumulative (unidentified p.own)) :=
  maxCumulative_filter _ p.own

/-- Where no client id is shared, each is that of one order. -/
theorem underClient_eq (hdistinct : ((unnamedAt book market sideCode).map
    BookedOrder.clientId).Nodup) {p : BookedOrder} (hp : p ∈ unnamedAt book market sideCode) :
    underClient book market sideCode p.clientId = maxCumulative (unidentified p.own) := by
  refine maxCumulative_congr fun o => ?_
  rw [mem_unidentified, mem_unidentified, List.mem_flatMap]
  constructor
  · rintro ⟨⟨p', hp', hown⟩, hnot⟩
    obtain ⟨hp', hclient⟩ := List.mem_filter.1 hp'
    have hsame := List.inj_on_of_nodup_map hdistinct hp' hp (of_decide_eq_true hclient)
    exact ⟨hsame ▸ hown, hnot⟩
  · rintro ⟨hown, hnot⟩
    exact ⟨⟨p, List.mem_filter.2 ⟨hp, decide_eq_true rfl⟩, hown⟩, hnot⟩

theorem sum_underClient (hdistinct : ((unnamedAt book market sideCode).map
    BookedOrder.clientId).Nodup) :
    ∑ clientId ∈ clientsAt book market sideCode, underClient book market sideCode clientId =
      ((ordersAt book market sideCode).map fun p => maxCumulative (unidentified p.own)).sum := by
  unfold clientsAt
  rw [List.sum_toFinset _ hdistinct, List.map_map]
  have hvalue : (unnamedAt book market sideCode).map
      (underClient book market sideCode ∘ BookedOrder.clientId) =
        (unnamedAt book market sideCode).map fun p => maxCumulative (unidentified p.own) :=
    List.map_congr_left fun p hp => underClient_eq hdistinct hp
  rw [hvalue]
  refine sum_map_filter fun p _ hempty => ?_
  have hnil : unidentified p.own = [] := by simpa using hempty
  rw [hnil]
  rfl

/-- Quantities that add up to their excess over others overlap with none of them. -/
theorem sum_unidentified_eq_iff (l : List BookedOrder) :
    (l.map fun p => maxCumulative (unidentified p.own)).sum = (l.map BookedOrder.excess).sum ↔
      ∀ p ∈ l, maxCumulative (identified p.own) = 0 ∨ maxCumulative (unidentified p.own) = 0 := by
  have hoverlap : ∀ p : BookedOrder, maxCumulative (unidentified p.own) = p.excess +
      min (maxCumulative (identified p.own)) (maxCumulative (unidentified p.own)) := by
    intro p
    unfold BookedOrder.excess
    rw [maxCumulative_own]
    linarith [max_add_min (maxCumulative (identified p.own)) (maxCumulative (unidentified p.own))]
  have hnonneg : ∀ p : BookedOrder, 0 ≤ min (maxCumulative (identified p.own))
      (maxCumulative (unidentified p.own)) := fun p =>
    le_min (maxCumulative_nonneg _) (maxCumulative_nonneg _)
  have hzero : ∀ p : BookedOrder, min (maxCumulative (identified p.own))
      (maxCumulative (unidentified p.own)) = 0 ↔
        maxCumulative (identified p.own) = 0 ∨ maxCumulative (unidentified p.own) = 0 := by
    intro p
    rcases le_total (maxCumulative (identified p.own)) (maxCumulative (unidentified p.own)) with
      hle | hle
    · rw [min_eq_left hle]
      refine ⟨Or.inl, fun h => h.elim id fun h => le_antisymm (hle.trans_eq h) ?_⟩
      exact maxCumulative_nonneg _
    · rw [min_eq_right hle]
      refine ⟨Or.inr, fun h => h.elim (fun h => le_antisymm (hle.trans_eq h) ?_) id⟩
      exact maxCumulative_nonneg _
  have hsplit : (l.map fun p => maxCumulative (unidentified p.own)).sum =
      (l.map BookedOrder.excess).sum + (l.map fun p => min (maxCumulative (identified p.own))
        (maxCumulative (unidentified p.own))).sum := by
    rw [← List.sum_map_add]
    exact congrArg List.sum (List.map_congr_left fun p _ => hoverlap p)
  rw [hsplit, add_eq_left]
  constructor
  · intro hsum p hp
    refine (hzero p).1 (List.all_zero_of_le_zero_le_of_sum_eq_zero ?_ hsum (List.mem_map_of_mem hp))
    intro q hq
    obtain ⟨p', -, rfl⟩ := List.mem_map.1 hq
    exact hnonneg p'
  · intro h
    refine List.sum_eq_zero fun q hq => ?_
    obtain ⟨p, hp, rfl⟩ := List.mem_map.1 hq
    exact (hzero p).2 (h p hp)

/-- What a report says of a market and side. -/
theorem Book.rawQuantity_eq (h : Book book records) {source : Source}
    {report : SourceFillReconciliation} (hreport : reconcileSource source records = .ok report)
    (hside : sideCode = 1 ∨ sideCode = 2) :
    rawQuantity report market sideCode =
      ((ordersAt book market sideCode).map fun p => maxCumulative (identified p.own)).sum +
        ∑ clientId ∈ clientsAt book market sideCode, underClient book market sideCode clientId := by
  obtain ⟨uniform, raw, totals, huniform, hraw, htotals, rfl⟩ := reconcileSource_eq_ok.1 hreport
  have horders := rawState_ok hraw
  rw [ordersOf_perm h.covers] at horders
  rw [rawQuantity_reportOf,
    quantityAt_rawTotals (fresh_uniformTotals huniform) htotals market hside]
  exact h.rawSum_eq horders

theorem Book.countedOnce_iff (h : Book book records) {source : Source}
    {report : SourceFillReconciliation} (hreport : reconcileSource source records = .ok report)
    (hside : sideCode = 1 ∨ sideCode = 2) :
    CountedOnce book market sideCode report ↔
      ∑ clientId ∈ clientsAt book market sideCode, underClient book market sideCode clientId =
        ((ordersAt book market sideCode).map BookedOrder.excess).sum := by
  have hsplit : ((ordersAt book market sideCode).map fun p => maxCumulative p.own).sum =
      ((ordersAt book market sideCode).map fun p => maxCumulative (identified p.own)).sum +
        ((ordersAt book market sideCode).map BookedOrder.excess).sum := by
    rw [← List.sum_map_add]
    refine congrArg List.sum (List.map_congr_left fun p _ => ?_)
    unfold BookedOrder.excess
    ring
  unfold CountedOnce
  rw [h.rawQuantity_eq hreport hside, hsplit, add_right_inj]

end

section

/-- BTCUSDT behind its length of four bytes. -/
def sampleSymbol : List UInt8 := LittleEndian.leBytes 4 7 ++ [66, 84, 67, 85, 83, 68, 84]

/-- A trade of an order with client id 100: buy, one filled so far. -/
def tradeRecord (orderId : Nat) : RawRocksRecord where
  key := List.replicate 19 48 ++ [UInt8.ofNat (39 + orderId)]
  value := LittleEndian.leBytes 8 1 ++ LittleEndian.leBytes 8 1 ++ LittleEndian.leBytes 8 1 ++
    sampleSymbol ++ LittleEndian.leBytes 8 orderId ++ LittleEndian.leBytes 8 100 ++ [1] ++
    LittleEndian.leBytes 8 0 ++ [0, 1] ++ LittleEndian.leBytes 8 0x3FF0000000000000 ++ [0]

/-- An order update with that client id and without an exchange id. -/
def orderRecord : RawRocksRecord where
  key := List.replicate 19 48 ++ [49]
  value := LittleEndian.leBytes 8 1 ++ LittleEndian.leBytes 8 1 ++ sampleSymbol ++
    LittleEndian.leBytes 8 0 ++ LittleEndian.leBytes 8 100 ++ [0, 1, 1, 1] ++
    LittleEndian.leBytes 8 0 ++ LittleEndian.leBytes 8 0 ++
    LittleEndian.leBytes 8 0x3FF0000000000000 ++ [3] ++ LittleEndian.leBytes 4 0 ++ [1] ++
    LittleEndian.leBytes 4 0 ++ [1]

def sampleSource : Source :=
  { id := "exec", displayName := "exec", venue := "binance-futures", rocksdbPath := "/data" }

def tradeAndOrder : Records where
  uniform := []
  raw
    | .tradeUpdates => [tradeRecord 10]
    | .orderUpdates => [orderRecord]
    | _ => []
  fits := by decide

/-- Two orders of one client id, both seen with their exchange ids only. -/
def twoTrades : Records where
  uniform := []
  raw
    | .tradeUpdates => [tradeRecord 10, tradeRecord 11]
    | _ => []
  fits := by decide

/-- An observation with client id 100. -/
def sampleObservation (orderId : Int) : RawObservation where
  symbol := "BTCUSDT"
  venueCode := 1
  orderId := orderId
  clientOrderId := 100
  sideCode := 1
  cumulativeQuantity := 0x3FF0000000000000
  eventTsUs := 0

def sampleMarket : Market := ⟨"BTCUSDT", 1⟩

def sampleOrder (exchangeId : Int) (own : List RawObservation) : BookedOrder :=
  ⟨sampleMarket, some exchangeId, 100, 1, own⟩

/-- The order that is seen with its exchange id and without. -/
def splitOrder : BookedOrder := sampleOrder 10 [sampleObservation 10, sampleObservation 0]

def twoOrders : List BookedOrder :=
  [sampleOrder 10 [sampleObservation 10], sampleOrder 11 [sampleObservation 11]]

theorem book_split : Book [splitOrder] tradeAndOrder where
  covers := by
    have hcontents : contents tradeAndOrder.raw =
        [some (sampleObservation 10), some (sampleObservation 0)] := by
      decide +kernel
    rw [hcontents]
    exact .rfl
  reports := by
    intro p hp o ho
    obtain rfl := List.mem_singleton.1 hp
    rcases List.mem_pair.1 ho with rfl | rfl
    · exact ⟨rfl, rfl, Or.inl ⟨by decide, rfl⟩⟩
    · exact ⟨rfl, rfl, Or.inr ⟨by decide, rfl⟩⟩
  named := by
    intro p hp id hid
    obtain rfl := List.mem_singleton.1 hp
    cases hid
    exact ⟨_, List.mem_cons_self, rfl⟩
  distinct := List.nodup_singleton _

theorem book_twoOrders : Book twoOrders twoTrades where
  covers := by
    have hcontents : contents twoTrades.raw =
        [some (sampleObservation 10), some (sampleObservation 11)] := by
      decide +kernel
    rw [hcontents]
    exact .rfl
  reports := by
    intro p hp o ho
    rcases List.mem_pair.1 hp with rfl | rfl
    · obtain rfl := List.mem_singleton.1 ho
      exact ⟨rfl, rfl, Or.inl ⟨by decide, rfl⟩⟩
    · obtain rfl := List.mem_singleton.1 ho
      exact ⟨rfl, rfl, Or.inl ⟨by decide, rfl⟩⟩
  named := by
    intro p hp id hid
    rcases List.mem_pair.1 hp with rfl | rfl
    · cases hid
      exact ⟨_, List.mem_cons_self, rfl⟩
    · cases hid
      exact ⟨_, List.mem_cons_self, rfl⟩
  distinct := by decide

theorem tradeAndOrder_report :
    ∃ report, reconcileSource sampleSource tradeAndOrder = .ok report ∧
      decide (rawQuantity report sampleMarket 1 = 2) = true :=
  exists_ok_of_any
    (P := fun report => decide (rawQuantity report sampleMarket 1 = 2))
    (show (reconcileSource sampleSource tradeAndOrder).toOption.any _ = true by decide +kernel)

theorem twoTrades_report :
    ∃ report, reconcileSource sampleSource twoTrades = .ok report ∧
      decide (rawQuantity report sampleMarket 1 = 2) = true :=
  exists_ok_of_any
    (P := fun report => decide (rawQuantity report sampleMarket 1 = 2))
    (show (reconcileSource sampleSource twoTrades).toOption.any _ = true by decide +kernel)

end

end CtaManager.Reconcile
