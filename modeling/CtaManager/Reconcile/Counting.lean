import CtaManager.Reconcile.Totals

/-!
What observations add to the raw totals.

The entry of a key adds the greatest quantity of the observations filed under it (`share_run`),
and a raw total is the sum of these over the keys (`rawSum_eq_sum`).
-/

namespace CtaManager.Reconcile

open Check Model OrdMap

/-! ## Filings -/

/-- The key of an observation; none where it has no id. -/
def keyOf (o : RawObservation) : Option RawOrderKey :=
  (stableId? o).map fun id => ⟨o.market, id⟩

def quantityOf (o : RawObservation) : ℚ := (quantity? o.cumulativeQuantity).getD 0

theorem filing_eq_some {o : RawObservation} {f : Option (RawOrderKey × ℚ)}
    (h : filing o = some f) :
    Acceptable o ∧ f = (keyOf o).map fun key => (key, quantityOf o) := by
  unfold filing at h
  cases hq : quantity? o.cumulativeQuantity with
  | none =>
    rw [hq] at h
    cases h
  | some q =>
    have hquantity : quantityOf o = q := by
      unfold quantityOf
      rw [hq, Option.getD_some]
    rw [hq, Option.bind_some] at h
    split at h
    · next hacceptable =>
      refine ⟨hacceptable, ?_⟩
      unfold keyOf
      cases hid : stableId? o with
      | none =>
        rw [hid] at h
        dsimp only at h
        split at h
        · cases h
          rfl
        · cases h
      | some id =>
        rw [hid] at h
        cases h
        rw [hquantity]
        rfl
    · cases h

theorem applyContent_eq_some {orders orders' : RawOrders} {c : Option RawObservation}
    (h : applyContent orders c = some orders') :
    ∃ o, c = some o ∧ Acceptable o ∧
      match keyOf o with
      | none => orders' = orders
      | some key =>
        ((orders[key]?).getD (newOrder o)).sideCode = o.sideCode ∧
          orders' = orders.insert key (((orders[key]?).getD (newOrder o)).grow o (quantityOf o)) := by
  rw [applyContent_eq] at h
  obtain ⟨o, hc, hfiled⟩ := Option.bind_eq_some_iff.1 h
  obtain ⟨f, hfiling, hstep⟩ := Option.bind_eq_some_iff.1 hfiled
  obtain ⟨hacceptable, hf⟩ := filing_eq_some hfiling
  refine ⟨o, hc, hacceptable, ?_⟩
  cases hkey : keyOf o with
  | none =>
    rw [hf, hkey] at hstep
    exact (Option.some.inj hstep).symm
  | some key =>
    rw [hf, hkey] at hstep
    change file orders o key (quantityOf o) = some orders' at hstep
    rw [file_eq] at hstep
    split at hstep
    · next hok => exact ⟨hok.1, (Option.some.inj hstep).symm⟩
    · cases hstep

/-! ## Entries -/

/-- What an entry keeps of its key. -/
structure Entry (key : RawOrderKey) (order : RawOrder) : Prop where
  market : order.market = key.market
  nonneg : 0 ≤ order.maxCumulativeQuantity
  side : order.sideCode = 1 ∨ order.sideCode = 2

def Sound (orders : RawOrders) : Prop :=
  ∀ (key : RawOrderKey) (order : RawOrder), orders[key]? = some order → Entry key order

theorem keyOf_market {o : RawObservation} {key : RawOrderKey} (h : keyOf o = some key) :
    key.market = o.market := by
  unfold keyOf at h
  obtain ⟨id, -, rfl⟩ := Option.map_eq_some_iff.1 h
  rfl

theorem entry_getD {orders : RawOrders} {o : RawObservation} {key : RawOrderKey}
    (hsound : Sound orders) (hkey : keyOf o = some key) (hacceptable : Acceptable o) :
    Entry key ((orders[key]?).getD (newOrder o)) := by
  cases hentry : orders[key]? with
  | none => exact ⟨(keyOf_market hkey).symm, le_rfl, hacceptable.2⟩
  | some order => exact hsound key order hentry

theorem Sound.step {orders orders' : RawOrders} {c : Option RawObservation} (hsound : Sound orders)
    (h : applyContent orders c = some orders') : Sound orders' := by
  obtain ⟨o, rfl, hacceptable, h⟩ := applyContent_eq_some h
  cases hkey : keyOf o with
  | none =>
    rw [hkey] at h
    rw [show orders' = orders from h]
    exact hsound
  | some key =>
    rw [hkey] at h
    obtain ⟨-, rfl⟩ := h
    intro key' order horder
    rw [getElem?_insert_of_key] at horder
    split at horder
    · next heq =>
      cases horder
      rw [← heq]
      have hold := entry_getD hsound hkey hacceptable
      exact ⟨hold.market, le_max_of_le_left hold.nonneg, hold.side⟩
    · exact hsound key' order horder

theorem sound_empty : Sound ∅ := by
  intro key order h
  rw [Std.ExtTreeMap.getElem?_empty] at h
  cases h

/-! ## The greatest quantity -/

/-- The greatest quantity that observations say. -/
def maxCumulative (l : List RawObservation) : ℚ := (l.map quantityOf).foldl max 0

theorem foldl_max (l : List ℚ) (a b : ℚ) : l.foldl max (max a b) = max a (l.foldl max b) := by
  induction l generalizing b with
  | nil => rfl
  | cons c l ih => rw [List.foldl_cons, List.foldl_cons, max_assoc, ih]

theorem maxCumulative_cons (o : RawObservation) (l : List RawObservation) :
    maxCumulative (o :: l) = max (quantityOf o) (maxCumulative l) := by
  unfold maxCumulative
  rw [List.map_cons, List.foldl_cons, max_comm 0, foldl_max]

theorem maxCumulative_le_iff {l : List RawObservation} {b : ℚ} :
    maxCumulative l ≤ b ↔ 0 ≤ b ∧ ∀ o ∈ l, quantityOf o ≤ b := by
  induction l with
  | nil => exact ⟨fun h => ⟨h, fun o ho => absurd ho List.not_mem_nil⟩, And.left⟩
  | cons o l ih =>
    rw [maxCumulative_cons, max_le_iff, ih, List.forall_mem_cons]
    exact and_left_comm

theorem maxCumulative_nonneg (l : List RawObservation) : 0 ≤ maxCumulative l :=
  (maxCumulative_le_iff.1 le_rfl).1

/-- Only which observations there are counts. -/
theorem maxCumulative_congr {l l' : List RawObservation} (h : ∀ o, o ∈ l ↔ o ∈ l') :
    maxCumulative l = maxCumulative l' :=
  eq_of_forall_ge_iff fun b => by simp only [maxCumulative_le_iff, h]

theorem maxCumulative_eq_zero {l : List RawObservation} (h : ∀ o ∈ l, quantityOf o = 0) :
    maxCumulative l = 0 :=
  le_antisymm (maxCumulative_le_iff.2 ⟨le_rfl, fun o ho => (h o ho).le⟩) (maxCumulative_nonneg l)

/-- The greatest of two parts. -/
theorem maxCumulative_filter (p : RawObservation → Bool) (l : List RawObservation) :
    maxCumulative l =
      max (maxCumulative (l.filter p)) (maxCumulative (l.filter fun o => !p o)) := by
  induction l with
  | nil => rfl
  | cons o l ih =>
    rw [maxCumulative_cons, ih]
    cases hp : p o with
    | true =>
      rw [List.filter_cons_of_pos hp, List.filter_cons_of_neg (by simp [hp]), maxCumulative_cons,
        max_assoc]
    | false =>
      rw [List.filter_cons_of_neg (by simp [hp]), List.filter_cons_of_pos (by simp [hp]),
        maxCumulative_cons, max_left_comm]

/-! ## What a key adds -/

/-- What the entry of a key adds to a market and side. -/
def share (market : Market) (sideCode : Int) (orders : RawOrders) (key : RawOrderKey) : ℚ :=
  (orders[key]?).elim 0 (contribution market sideCode)

/-- An observation that the entry of the key adds to a market and side. -/
def FiledFor (market : Market) (sideCode : Int) (key : RawOrderKey) (o : RawObservation) : Prop :=
  keyOf o = some key ∧ o.market = market ∧ o.sideCode = sideCode

instance (market : Market) (sideCode : Int) (key : RawOrderKey) (o : RawObservation) :
    Decidable (FiledFor market sideCode key o) := by
  unfold FiledFor
  infer_instance

theorem share_step {orders orders' : RawOrders} {o : RawObservation} (hsound : Sound orders)
    (h : applyContent orders (some o) = some orders') (market : Market) (sideCode : Int)
    (key : RawOrderKey) :
    share market sideCode orders' key =
      if FiledFor market sideCode key o then
        max (share market sideCode orders key) (quantityOf o)
      else share market sideCode orders key := by
  obtain ⟨o', ho, hacceptable, h⟩ := applyContent_eq_some h
  cases ho
  cases hkey : keyOf o with
  | none =>
    rw [hkey] at h
    have hnot : ¬FiledFor market sideCode key o := fun hfiled => by
      rw [hfiled.1] at hkey
      cases hkey
    rw [show orders' = orders from h, if_neg hnot]
  | some key' =>
    rw [hkey] at h
    obtain ⟨hside, rfl⟩ := h
    by_cases heq : key' = key
    · subst heq
      have hentry := entry_getD hsound hkey hacceptable
      have hmarket : ((orders[key']?).getD (newOrder o)).market = o.market :=
        hentry.market.trans (keyOf_market hkey)
      have hold : share market sideCode orders key' =
          contribution market sideCode ((orders[key']?).getD (newOrder o)) := by
        unfold share
        cases orders[key']? with
        | none => exact (ite_self 0).symm
        | some order => rfl
      have hnew : share market sideCode
          (orders.insert key' (((orders[key']?).getD (newOrder o)).grow o (quantityOf o))) key' =
          contribution market sideCode
            (((orders[key']?).getD (newOrder o)).grow o (quantityOf o)) := by
        unfold share
        rw [getElem?_insert_of_key, if_pos rfl]
        rfl
      rw [hold, hnew]
      generalize (orders[key']?).getD (newOrder o) = order at hmarket hside
      have hgrown : (order.grow o (quantityOf o)).market = o.market := hmarket
      have hgrownSide : (order.grow o (quantityOf o)).sideCode = o.sideCode := hside
      unfold contribution
      rw [hgrown, hgrownSide, hmarket, hside]
      by_cases hfiled : o.market = market ∧ o.sideCode = sideCode
      · rw [if_pos hfiled, if_pos hfiled, if_pos ⟨hkey, hfiled⟩]
        rfl
      · rw [if_neg hfiled, if_neg hfiled, if_neg fun h => hfiled h.2]
    · rw [if_neg fun hfiled => heq (Option.some.inj (hkey.symm.trans hfiled.1))]
      unfold share
      rw [getElem?_insert_of_key, if_neg heq]

theorem share_run_from {l : List RawObservation} {orders orders' : RawOrders}
    (hsound : Sound orders) (h : (l.map some).foldlM applyContent orders = some orders')
    (market : Market) (sideCode : Int) (key : RawOrderKey) :
    share market sideCode orders' key =
      ((l.filter fun o => decide (FiledFor market sideCode key o)).map quantityOf).foldl max
        (share market sideCode orders key) := by
  induction l generalizing orders with
  | nil =>
    cases h
    rfl
  | cons o l ih =>
    rw [List.map_cons, List.foldlM_cons] at h
    obtain ⟨t, ht, h⟩ := Option.bind_eq_some_iff.1 h
    rw [ih (hsound.step ht) h, share_step hsound ht]
    by_cases hfiled : FiledFor market sideCode key o
    · rw [if_pos hfiled, List.filter_cons_of_pos (by simpa using hfiled), List.map_cons,
        List.foldl_cons]
    · rw [if_neg hfiled, List.filter_cons_of_neg (by simpa using hfiled)]

/-- The entry of a key adds the greatest quantity filed under it. -/
theorem share_run {l : List RawObservation} {orders : RawOrders}
    (h : (l.map some).foldlM applyContent ∅ = some orders) (market : Market) (sideCode : Int)
    (key : RawOrderKey) :
    share market sideCode orders key =
      maxCumulative (l.filter fun o => decide (FiledFor market sideCode key o)) := by
  rw [share_run_from sound_empty h]
  unfold share
  rw [Std.ExtTreeMap.getElem?_empty]
  rfl

/-! ## Sums over the orders -/

/-- The raw quantity of a market and side. -/
def rawSum (market : Market) (sideCode : Int) (orders : RawOrders) : ℚ :=
  sumOf (fun _ order => contribution market sideCode order) orders

/-- A raw quantity is the sum over any keys outside of which nothing is added. -/
theorem rawSum_eq_sum {market : Market} {sideCode : Int} {orders : RawOrders}
    {keys : Finset RawOrderKey} (h : ∀ key ∉ keys, share market sideCode orders key = 0) :
    rawSum market sideCode orders = ∑ key ∈ keys, share market sideCode orders key :=
  sumOf_eq_sum_of_share _ orders h

/-! ## Observations that are taken -/

/-- Every observation of a run is applied to some orders. -/
theorem applied_of_run {l : List RawObservation} {orders orders' : RawOrders}
    (h : (l.map some).foldlM applyContent orders = some orders') :
    ∀ o ∈ l, ∃ t t', applyContent t (some o) = some t' := by
  induction l generalizing orders with
  | nil => exact fun o ho => absurd ho List.not_mem_nil
  | cons o l ih =>
    rw [List.map_cons, List.foldlM_cons] at h
    obtain ⟨t, ht, h⟩ := Option.bind_eq_some_iff.1 h
    exact List.forall_mem_cons.2 ⟨⟨orders, t, ht⟩, ih h⟩

/-- An observation without an id says nothing was filled. -/
theorem quantityOf_eq_zero {orders orders' : RawOrders} {o : RawObservation}
    (h : applyContent orders (some o) = some orders') (hkey : keyOf o = none) :
    quantityOf o = 0 := by
  rw [applyContent_eq, Option.bind_some] at h
  obtain ⟨f, hfiling, -⟩ := Option.bind_eq_some_iff.1 h
  have hid : stableId? o = none := Option.map_eq_none_iff.1 hkey
  unfold filing at hfiling
  unfold quantityOf
  cases hq : quantity? o.cumulativeQuantity with
  | none => rfl
  | some q =>
    rw [hq, Option.bind_some] at hfiling
    by_cases hacceptable : Acceptable o
    · rw [if_pos hacceptable, hid] at hfiling
      by_cases hzero : q = 0
      · exact hzero
      · cases (if_neg hzero).symm.trans hfiling
    · cases (if_neg hacceptable).symm.trans hfiling

end CtaManager.Reconcile
