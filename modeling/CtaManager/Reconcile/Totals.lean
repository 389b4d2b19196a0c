import CtaManager.Library.Grouping
import CtaManager.Library.OrdMapSum
import CtaManager.Reconcile.Filing

/-!
The totals over the orders of a source.

One order adds its greatest quantity to its market and side and nothing to another
(`addOrder_eq_ok`, `quantityAt_addOrders`).  What the totals say of the quantities does not
depend on the numbers of observations (`addOrders_agree`).
-/

namespace CtaManager.Reconcile

open Check Model

/-! ## One order -/

/-- The quantity of a side. -/
def QuantityBuilder.side (builder : QuantityBuilder) (sideCode : Int) : ℚ :=
  if sideCode = 1 then builder.buyQuantity else builder.sellQuantity

/-- More on one side. -/
def QuantityBuilder.plus (builder : QuantityBuilder) (sideCode : Int) (quantity : ℚ) :
    QuantityBuilder :=
  if sideCode = 1 then { builder with buyQuantity := builder.buyQuantity + quantity }
  else { builder with sellQuantity := builder.sellQuantity + quantity }

def QuantityBuilder.Finite (builder : QuantityBuilder) : Prop :=
  isFinite builder.buyQuantity = true ∧ isFinite builder.sellQuantity = true

theorem add_eq_ok {builder : QuantityBuilder} {sideCode : Int} {quantity : ℚ}
    {b' : QuantityBuilder} :
    builder.add sideCode quantity = .ok b' ↔
      (sideCode = 1 ∨ sideCode = 2) ∧ (builder.plus sideCode quantity).Finite ∧
        b' = builder.plus sideCode quantity := by
  have hend : ∀ b : QuantityBuilder,
      ((ensure (isFinite b.buyQuantity && isFinite b.sellQuantity)
        "cumulative reconciliation quantity overflowed") >>= fun _ =>
          (pure b : Except String QuantityBuilder)) = .ok b' ↔ b.Finite ∧ b' = b := by
    intro b
    rw [bind_eq_ok]
    constructor
    · rintro ⟨_, hensure, h⟩
      cases h
      exact ⟨Bool.and_eq_true_iff.1 ((ensure_eq_ok _ _ _).1 hensure), rfl⟩
    · rintro ⟨hfinite, rfl⟩
      exact ⟨(), (ensure_eq_ok _ _ _).2 (Bool.and_eq_true_iff.2 hfinite), rfl⟩
  unfold QuantityBuilder.add QuantityBuilder.plus
  by_cases h₁ : sideCode = 1
  · rw [if_pos h₁, if_pos h₁]
    exact (hend _).trans (and_iff_right (Or.inl h₁)).symm
  · rw [if_neg h₁, if_neg h₁]
    by_cases h₂ : sideCode = 2
    · rw [if_pos h₂]
      exact (hend _).trans (and_iff_right (Or.inr h₂)).symm
    · rw [if_neg h₂]
      constructor
      · intro h
        cases h
      · rintro ⟨h, -⟩
        exact absurd h (not_or.2 ⟨h₁, h₂⟩)

/-- The builder of a market. -/
def RawTotals.at (totals : RawTotals) (market : Market) : SymbolBuilder :=
  (totals.builders[market]?).getD .empty

/-- An order without a positive uniform fill counts as missing. -/
def missingOf (clients : OrdSet LiquidityOrderKey) (order : RawOrder) : Nat :=
  if represented clients order then 0 else 1

/-- The totals with one more order. -/
def RawTotals.put (totals : RawTotals) (clients : OrdSet LiquidityOrderKey) (order : RawOrder) :
    RawTotals where
  builders := totals.builders.insert order.market { totals.at order.market with
    raw := (totals.at order.market).raw.plus order.sideCode order.maxCumulativeQuantity
    rawPositiveOrderCount := (totals.at order.market).rawPositiveOrderCount + 1
    rawObservationCount := (totals.at order.market).rawObservationCount + order.observationCount
    rawOrdersWithoutPositiveUniformFill :=
      (totals.at order.market).rawOrdersWithoutPositiveUniformFill + missingOf clients order }
  positiveOrderCount := totals.positiveOrderCount + 1

/-- What one more order needs. -/
structure Admits (clients : OrdSet LiquidityOrderKey) (totals : RawTotals) (order : RawOrder) :
    Prop where
  side : order.sideCode = 1 ∨ order.sideCode = 2
  finite : ((totals.at order.market).raw.plus order.sideCode order.maxCumulativeQuantity).Finite
  positive : totals.positiveOrderCount + 1 ≤ maxU64
  symbolPositive : (totals.at order.market).rawPositiveOrderCount + 1 ≤ maxU64
  observations :
    (totals.at order.market).rawObservationCount + order.observationCount ≤ maxU64
  missing : represented clients order = true ∨
    (totals.at order.market).rawOrdersWithoutPositiveUniformFill + 1 ≤ maxU64

theorem checkedAdd_eq_ok {a b c : Nat} {context : String} :
    checkedAdd a b context = .ok c ↔ a + b ≤ maxU64 ∧ c = a + b := by
  unfold checkedAdd
  split
  · next h => simp [h, eq_comm]
  · next h => simp [h]

theorem countMissing_eq_ok {clients : OrdSet LiquidityOrderKey} {order : RawOrder} {n n' : Nat} :
    countMissing clients order n = .ok n' ↔
      (represented clients order = true ∨ n + 1 ≤ maxU64) ∧ n' = n + missingOf clients order := by
  unfold countMissing missingOf
  by_cases h : represented clients order = true
  · rw [if_pos h, if_pos h, Except.ok.injEq]
    simp [h, eq_comm]
  · rw [if_neg h, if_neg h, checkedAdd_eq_ok]
    simp [h]

theorem addOrder_eq_ok {clients : OrdSet LiquidityOrderKey} {totals totals' : RawTotals}
    {order : RawOrder} :
    addOrder clients totals order = .ok totals' ↔
      if order.maxCumulativeQuantity = 0 then totals' = totals
      else Admits clients totals order ∧ totals' = totals.put clients order := by
  unfold addOrder
  split
  · rw [Except.ok.injEq, eq_comm]
  · constructor
    · intro h
      obtain ⟨positive, hpositive, h⟩ := bind_eq_ok.1 h
      obtain ⟨raw, hraw, h⟩ := bind_eq_ok.1 h
      obtain ⟨symbolPositive, hsymbol, h⟩ := bind_eq_ok.1 h
      obtain ⟨count, hcount, h⟩ := bind_eq_ok.1 h
      obtain ⟨missing, hmiss, h⟩ := bind_eq_ok.1 h
      obtain ⟨hpositive', rfl⟩ := checkedAdd_eq_ok.1 hpositive
      obtain ⟨hside, hfinite, rfl⟩ := add_eq_ok.1 hraw
      obtain ⟨hsymbol', rfl⟩ := checkedAdd_eq_ok.1 hsymbol
      obtain ⟨hcount', rfl⟩ := checkedAdd_eq_ok.1 hcount
      obtain ⟨hmiss', rfl⟩ := countMissing_eq_ok.1 hmiss
      cases h
      exact ⟨⟨hside, hfinite, hpositive', hsymbol', hcount', hmiss'⟩, rfl⟩
    · rintro ⟨hadmits, rfl⟩
      refine bind_eq_ok.2 ⟨_, checkedAdd_eq_ok.2 ⟨hadmits.positive, rfl⟩, ?_⟩
      refine bind_eq_ok.2 ⟨_, add_eq_ok.2 ⟨hadmits.side, hadmits.finite, rfl⟩, ?_⟩
      refine bind_eq_ok.2 ⟨_, checkedAdd_eq_ok.2 ⟨hadmits.symbolPositive, rfl⟩, ?_⟩
      refine bind_eq_ok.2 ⟨_, checkedAdd_eq_ok.2 ⟨hadmits.observations, rfl⟩, ?_⟩
      exact bind_eq_ok.2 ⟨_, countMissing_eq_ok.2 ⟨hadmits.missing, rfl⟩, rfl⟩

/-! ## Quantities -/

/-- The raw quantity of a market and side. -/
def RawTotals.quantityAt (totals : RawTotals) (market : Market) (sideCode : Int) : ℚ :=
  (totals.at market).raw.side sideCode

/-- What an order adds to a market and side. -/
def contribution (market : Market) (sideCode : Int) (order : RawOrder) : ℚ :=
  if order.market = market ∧ order.sideCode = sideCode then order.maxCumulativeQuantity else 0

theorem at_put (totals : RawTotals) (clients : OrdSet LiquidityOrderKey) (order : RawOrder)
    (market : Market) :
    (totals.put clients order).at market =
      if order.market = market then
        { totals.at market with
          raw := (totals.at market).raw.plus order.sideCode order.maxCumulativeQuantity
          rawPositiveOrderCount := (totals.at market).rawPositiveOrderCount + 1
          rawObservationCount := (totals.at market).rawObservationCount + order.observationCount
          rawOrdersWithoutPositiveUniformFill :=
            (totals.at market).rawOrdersWithoutPositiveUniformFill + missingOf clients order }
      else totals.at market := by
  unfold RawTotals.put RawTotals.at
  rw [OrdMap.getElem?_insert_of_key]
  split
  · next h =>
    subst h
    rfl
  · rfl

theorem side_plus (builder : QuantityBuilder) {sideCode sideCode' : Int} (quantity : ℚ)
    (h : sideCode = 1 ∨ sideCode = 2) (h' : sideCode' = 1 ∨ sideCode' = 2) :
    (builder.plus sideCode quantity).side sideCode' =
      builder.side sideCode' + if sideCode = sideCode' then quantity else 0 := by
  unfold QuantityBuilder.plus QuantityBuilder.side
  rcases h with rfl | rfl
  · rcases h' with rfl | rfl
    · simp
    · simp
  · rcases h' with rfl | rfl
    · simp
    · simp

theorem quantityAt_put {totals : RawTotals} (clients : OrdSet LiquidityOrderKey) {order : RawOrder}
    (hside : order.sideCode = 1 ∨ order.sideCode = 2) (market : Market) {sideCode : Int}
    (h : sideCode = 1 ∨ sideCode = 2) :
    (totals.put clients order).quantityAt market sideCode =
      totals.quantityAt market sideCode + contribution market sideCode order := by
  unfold RawTotals.quantityAt contribution
  rw [at_put]
  by_cases hmarket : order.market = market
  · rw [if_pos hmarket]
    show ((totals.at market).raw.plus _ _).side _ = _
    rw [side_plus _ _ hside h]
    simp [hmarket]
  · rw [if_neg hmarket, if_neg fun h => hmarket h.1, add_zero]

theorem quantityAt_addOrder {clients : OrdSet LiquidityOrderKey} {totals totals' : RawTotals}
    {order : RawOrder} (h : addOrder clients totals order = .ok totals') (market : Market)
    {sideCode : Int} (hside : sideCode = 1 ∨ sideCode = 2) :
    totals'.quantityAt market sideCode =
      totals.quantityAt market sideCode + contribution market sideCode order := by
  rw [addOrder_eq_ok] at h
  split at h
  · next hzero =>
    subst h
    unfold contribution
    rw [hzero, ite_self, add_zero]
  · obtain ⟨hadmits, rfl⟩ := h
    exact quantityAt_put clients hadmits.side market hside

/-- A run adds the contributions of its orders. -/
theorem quantityAt_addOrders {clients : OrdSet LiquidityOrderKey} {orders : List RawOrder}
    {totals totals' : RawTotals} (h : orders.foldlM (addOrder clients) totals = .ok totals')
    (market : Market) {sideCode : Int} (hside : sideCode = 1 ∨ sideCode = 2) :
    totals'.quantityAt market sideCode =
      totals.quantityAt market sideCode + (orders.map (contribution market sideCode)).sum := by
  induction orders generalizing totals with
  | nil =>
    cases h
    rw [List.map_nil, List.sum_nil, add_zero]
  | cons order orders ih =>
    obtain ⟨t, ht, h⟩ := bind_eq_ok.1 (foldlM_cons (addOrder clients) totals order orders ▸ h)
    rw [ih h, quantityAt_addOrder ht market hside, List.map_cons, List.sum_cons, add_assoc]

/-! ## Numbers of observations -/

/-- Two entries that say the same but for the number of observations. -/
def SameOrder (order order' : RawOrder) : Prop :=
  order' = { order with observationCount := order'.observationCount }

theorem SameOrder.symm {order order' : RawOrder} (h : SameOrder order order') :
    SameOrder order' order := by
  unfold SameOrder at h ⊢
  rw [h]

def SymbolBuilder.uncounted (builder : SymbolBuilder) : SymbolBuilder :=
  { builder with rawObservationCount := 0 }

/-- Totals that say the same but for the numbers of observations. -/
structure SameTotals (totals totals' : RawTotals) : Prop where
  builders : ∀ market : Market,
    Option.Rel (fun builder builder' => SymbolBuilder.uncounted builder = builder'.uncounted)
      (totals.builders[market]?) (totals'.builders[market]?)
  positive : totals.positiveOrderCount = totals'.positiveOrderCount

theorem SameTotals.uncounted_at {totals totals' : RawTotals} (h : SameTotals totals totals')
    (market : Market) : (totals.at market).uncounted = (totals'.at market).uncounted := by
  have hmarket := h.builders market
  unfold RawTotals.at
  generalize totals.builders[market]? = x at hmarket ⊢
  generalize totals'.builders[market]? = y at hmarket ⊢
  cases hmarket with
  | some heq => exact heq
  | none => rfl

theorem SameTotals.put {totals totals' : RawTotals} (h : SameTotals totals totals')
    (clients : OrdSet LiquidityOrderKey) {order order' : RawOrder} (hsame : SameOrder order order') :
    SameTotals (totals.put clients order) (totals'.put clients order') := by
  have hat := h.uncounted_at order.market
  unfold SymbolBuilder.uncounted at hat
  injection hat with huniform hpositive _ hmissing huniforms hraw
  rw [hsame]
  refine ⟨fun market => ?_, ?_⟩
  · unfold RawTotals.put
    rw [OrdMap.getElem?_insert_of_key, OrdMap.getElem?_insert_of_key]
    by_cases hmarket : order.market = market
    · rw [if_pos hmarket]
      refine Eq.subst (if_pos hmarket).symm (.some ?_)
      show SymbolBuilder.mk _ _ _ _ _ _ = SymbolBuilder.mk _ _ _ _ _ _
      rw [huniform, hpositive, hmissing, huniforms, hraw]
      rfl
    · rw [if_neg hmarket]
      exact Eq.subst (if_neg hmarket).symm (h.builders market)
  · show totals.positiveOrderCount + 1 = totals'.positiveOrderCount + 1
    rw [h.positive]

theorem addOrder_agree {clients : OrdSet LiquidityOrderKey} {totals totals' result : RawTotals}
    {order order' : RawOrder} (h : SameTotals totals totals') (hsame : SameOrder order order')
    (hroom : (totals'.at order.market).rawObservationCount + order'.observationCount ≤ maxU64)
    (hrun : addOrder clients totals order = .ok result) :
    ∃ result', addOrder clients totals' order' = .ok result' ∧ SameTotals result result' := by
  have hmarket : order'.market = order.market := by
    rw [hsame]
    rfl
  have hmax : order'.maxCumulativeQuantity = order.maxCumulativeQuantity := by rw [hsame]
  rw [addOrder_eq_ok] at hrun
  split at hrun
  · next hzero =>
    rw [hrun]
    exact ⟨totals', addOrder_eq_ok.2 (by rw [hmax, if_pos hzero]), h⟩
  · next hzero =>
    obtain ⟨hadmits, rfl⟩ := hrun
    have hat := h.uncounted_at order.market
    unfold SymbolBuilder.uncounted at hat
    injection hat with _ hpositive _ hmissing _ hraw
    refine ⟨totals'.put clients order', addOrder_eq_ok.2 ?_, h.put clients hsame⟩
    rw [hmax, if_neg hzero]
    refine ⟨⟨?_, ?_, ?_, ?_, ?_, ?_⟩, rfl⟩
    · rw [hsame]
      exact hadmits.side
    · rw [hmarket, hmax, ← hraw, hsame]
      exact hadmits.finite
    · rw [← h.positive]
      exact hadmits.positive
    · rw [hmarket, ← hpositive]
      exact hadmits.symbolPositive
    · rw [hmarket]
      exact hroom
    · rw [hmarket, ← hmissing, hsame]
      exact hadmits.missing

theorem rawObservationCount_addOrder {clients : OrdSet LiquidityOrderKey}
    {totals totals' : RawTotals} {order : RawOrder} (h : addOrder clients totals order = .ok totals')
    (market : Market) : (totals'.at market).rawObservationCount ≤
      (totals.at market).rawObservationCount + order.observationCount := by
  rw [addOrder_eq_ok] at h
  split at h
  · rw [h]
    exact Nat.le_add_right _ _
  · obtain ⟨-, rfl⟩ := h
    rw [at_put]
    split
    · exact le_rfl
    · exact Nat.le_add_right _ _

/-- Runs over the same orders, one of which succeeds; the other has room for its counts. -/
theorem addOrders_agree {clients : OrdSet LiquidityOrderKey} {orders orders' : List RawOrder}
    (hsame : List.Forall₂ SameOrder orders orders') {totals totals' result : RawTotals}
    (h : SameTotals totals totals')
    (hroom : ∀ market : Market, (totals'.at market).rawObservationCount +
      (orders'.map RawOrder.observationCount).sum ≤ maxU64)
    (hrun : orders.foldlM (addOrder clients) totals = .ok result) :
    ∃ result', orders'.foldlM (addOrder clients) totals' = .ok result' ∧
      SameTotals result result' := by
  induction hsame generalizing totals totals' with
  | nil =>
    cases hrun
    exact ⟨totals', rfl, h⟩
  | @cons order order' orders orders' horder _ ih =>
    obtain ⟨t, ht, hrun⟩ := bind_eq_ok.1 (foldlM_cons (addOrder clients) totals order orders ▸ hrun)
    simp only [List.map_cons, List.sum_cons] at hroom
    have hfirst : (totals'.at order.market).rawObservationCount + order'.observationCount ≤ maxU64 :=
      le_trans (by omega) (hroom order.market)
    obtain ⟨t', ht', hsame'⟩ := addOrder_agree h horder hfirst ht
    obtain ⟨result', hrun', hresult⟩ := ih hsame' (fun market => by
      have hcount := rawObservationCount_addOrder ht' market
      have hmarket := hroom market
      omega) hrun
    exact ⟨result', by rw [foldlM_cons, ht', ok_bind, hrun'], hresult⟩

end CtaManager.Reconcile
