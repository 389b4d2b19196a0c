import CtaManager.Library.Commute
import CtaManager.Library.OrdMapFold
import CtaManager.Reconcile.Report

/-!
What the observations of a source leave in its orders.

What an observation asks of the orders does not depend on them (`filing`): it is
refused, it is skipped, or it is filed under a key.  Filings commute, so the orders are
a function of the multiset of observations (`rawState_orders`, `filings_perm`).
-/

namespace CtaManager.Reconcile

open Check Model Commute

theorem toOption_mapError {ε ε' α : Type} (f : ε → ε') (x : Except ε α) :
    (x.mapError f).toOption = x.toOption := by
  cases x with
  | error e => rfl
  | ok a => rfl

theorem toOption_bind {ε α β : Type} (x : Except ε α) (f : α → Except ε β) :
    (x >>= f).toOption = x.toOption.bind fun a => (f a).toOption := by
  cases x with
  | error e => rfl
  | ok a => rfl

theorem toOption_ensure (c : Bool) (e : String) :
    (ensure c e).toOption = if c = true then some () else none := by
  cases c with
  | false => rfl
  | true => rfl

theorem toOption_checkedAdd (a b : Nat) (context : String) :
    (checkedAdd a b context).toOption = if a + b ≤ maxU64 then some (a + b) else none := by
  unfold checkedAdd
  split
  · rfl
  · rfl

/-! ## One observation -/

/-- The entry of an order after one more observation. -/
def RawOrder.grow (order : RawOrder) (o : RawObservation) (quantity : ℚ) : RawOrder :=
  { order with
    maxCumulativeQuantity := max order.maxCumulativeQuantity quantity
    observationCount := order.observationCount + 1
    clientOrderIds :=
      if o.clientOrderId ≠ 0 then order.clientOrderIds.insert o.clientOrderId
      else order.clientOrderIds }

theorem observe_toOption (order : RawOrder) (o : RawObservation) (quantity : ℚ) :
    (order.observe o quantity).toOption =
      if order.sideCode = o.sideCode ∧ order.observationCount + 1 ≤ maxU64 then
        some (order.grow o quantity)
      else none := by
  unfold RawOrder.observe
  rw [toOption_bind, toOption_ensure]
  by_cases hside : order.sideCode = o.sideCode
  · rw [if_pos (beq_iff_eq.2 hside), Option.bind_some, toOption_bind, toOption_checkedAdd]
    by_cases hcount : order.observationCount + 1 ≤ maxU64
    · have hboth := And.intro hside hcount
      rw [if_pos hcount, if_pos hboth]
      rfl
    · have hboth : ¬(order.sideCode = o.sideCode ∧ order.observationCount + 1 ≤ maxU64) :=
        fun h => hcount h.2
      rw [if_neg hcount, if_neg hboth]
      rfl
  · have hboth : ¬(order.sideCode = o.sideCode ∧ order.observationCount + 1 ≤ maxU64) :=
      fun h => hside h.1
    rw [if_neg (by simpa using hside), if_neg hboth]
    rfl

/-- Observations that are refused whatever the orders are. -/
def Acceptable (o : RawObservation) : Prop :=
  Text.trim o.symbol ≠ "" ∧ (o.sideCode = 1 ∨ o.sideCode = 2)

instance (o : RawObservation) : Decidable (Acceptable o) := by
  unfold Acceptable
  infer_instance

/-- The key and the quantity of an observation; none where it is skipped. -/
def filing (o : RawObservation) : Option (Option (RawOrderKey × ℚ)) :=
  (quantity? o.cumulativeQuantity).bind fun quantity =>
    if Acceptable o then
      match stableId? o with
      | none => if quantity = 0 then some none else none
      | some id => some (some (⟨o.market, id⟩, quantity))
    else none

/-- An observation, filed under its key. -/
def file (orders : RawOrders) (o : RawObservation) (key : RawOrderKey) (quantity : ℚ) :
    Option RawOrders :=
  (((orders[key]?).getD (newOrder o)).observe o quantity).toOption.map (orders.insert key)

/-- What `applyRawObservation` does with a filing. -/
def fileAs (orders : RawOrders) (o : RawObservation) : Option (RawOrderKey × ℚ) → Option RawOrders
  | none => some orders
  | some (key, quantity) => file orders o key quantity

theorem applyRawObservation_toOption (orders : RawOrders) (o : RawObservation) :
    (applyRawObservation orders o).toOption = (filing o).bind (fileAs orders o) := by
  unfold applyRawObservation filing validateQuantity
  cases quantity? o.cumulativeQuantity with
  | none => rfl
  | some quantity =>
    rw [ok_bind, toOption_bind, toOption_ensure, Option.bind_some]
    by_cases hsymbol : Text.trim o.symbol ≠ ""
    · rw [if_pos (by simpa using hsymbol), Option.bind_some, toOption_bind, toOption_ensure]
      by_cases hside : o.sideCode = 1 ∨ o.sideCode = 2
      · rw [if_pos (by simpa using hside), Option.bind_some, if_pos ⟨hsymbol, hside⟩]
        cases hid : stableId? o with
        | none =>
          by_cases hzero : quantity = 0
          · simp [hzero, fileAs, Except.toOption]
          · simp [hzero, ensure, Except.toOption]
        | some id =>
          show (((orders[(⟨o.market, id⟩ : RawOrderKey)]?).getD (newOrder o)).observe o quantity >>=
            fun order => _).toOption = _
          rw [toOption_bind, Option.bind_some]
          show _ = (_ : Option RawOrder).map _
          rw [Option.map_eq_bind]
          rfl
      · rw [if_neg (by simpa using hside), if_neg fun h => hside h.2]
        rfl
    · rw [if_neg (by simpa using hsymbol), if_neg fun h => hsymbol h.1]
      rfl

/-! ## Two observations -/

theorem ite_insert_comm (s : OrdSet Int) (a b : Int) :
    (if b ≠ 0 then (if a ≠ 0 then s.insert a else s).insert b else (if a ≠ 0 then s.insert a else s)) =
      if a ≠ 0 then (if b ≠ 0 then s.insert b else s).insert a
      else (if b ≠ 0 then s.insert b else s) := by
  split
  · split
    · refine Std.ExtTreeSet.ext_mem fun x => ?_
      simp only [Std.ExtTreeSet.mem_insert]
      exact or_left_comm
    · rfl
  · rfl

theorem grow_comm (order : RawOrder) (a b : RawObservation) (p q : ℚ) :
    (order.grow a p).grow b q = (order.grow b q).grow a p := by
  unfold RawOrder.grow
  rw [ite_insert_comm, max_right_comm]

theorem file_eq (orders : RawOrders) (o : RawObservation) (key : RawOrderKey) (quantity : ℚ) :
    file orders o key quantity =
      if ((orders[key]?).getD (newOrder o)).sideCode = o.sideCode ∧
          ((orders[key]?).getD (newOrder o)).observationCount + 1 ≤ maxU64 then
        some (orders.insert key (((orders[key]?).getD (newOrder o)).grow o quantity))
      else none := by
  unfold file
  rw [observe_toOption]
  split
  · rfl
  · rfl

/-- Two observations of one entry. -/
theorem file_comm_same (orders : RawOrders) (a b : RawObservation) (key : RawOrderKey) (p q : ℚ)
    (ha : key.market = a.market) (hb : key.market = b.market) :
    ((file orders a key p).bind fun t => file t b key q) =
      ((file orders b key q).bind fun t => file t a key p) := by
  have htwice : ∀ (c d : RawObservation) (p q : ℚ),
      ((file orders c key p).bind fun t => file t d key q) =
        if (((orders[key]?).getD (newOrder c)).sideCode = c.sideCode ∧
            ((orders[key]?).getD (newOrder c)).observationCount + 1 ≤ maxU64) ∧
            ((orders[key]?).getD (newOrder c)).sideCode = d.sideCode ∧
            ((orders[key]?).getD (newOrder c)).observationCount + 1 + 1 ≤ maxU64 then
          some (orders.insert key ((((orders[key]?).getD (newOrder c)).grow c p).grow d q))
        else none := by
    intro c d p q
    rw [file_eq]
    by_cases hc : ((orders[key]?).getD (newOrder c)).sideCode = c.sideCode ∧
        ((orders[key]?).getD (newOrder c)).observationCount + 1 ≤ maxU64
    · rw [if_pos hc, Option.bind_some, file_eq, OrdMap.getElem?_insert_of_key, if_pos rfl,
        Option.getD_some, OrdMap.insert_insert]
      exact if_congr (and_iff_right hc).symm rfl rfl
    · rw [if_neg hc, if_neg fun h => hc h.1]
      rfl
  rw [htwice, htwice]
  cases orders[key]? with
  | some order =>
    rw [Option.getD_some, Option.getD_some, grow_comm]
    refine if_congr ?_ rfl rfl
    constructor
    · rintro ⟨⟨h₁, h₂⟩, h₃, h₄⟩
      exact ⟨⟨h₃, h₂⟩, h₁, h₄⟩
    · rintro ⟨⟨h₁, h₂⟩, h₃, h₄⟩
      exact ⟨⟨h₃, h₂⟩, h₁, h₄⟩
  | none =>
    rw [Option.getD_none, Option.getD_none]
    by_cases hside : a.sideCode = b.sideCode
    · have hnew : newOrder a = newOrder b := by
        obtain ⟨hsymbol, hvenue⟩ := Market.mk.inj (ha.symm.trans hb)
        unfold newOrder
        rw [hsymbol, hvenue, hside]
      rw [hnew, grow_comm]
      refine if_congr ?_ rfl rfl
      rw [hside]
    · rw [if_neg fun h => hside h.2.1, if_neg fun h => hside h.2.1.symm]

/-- Observations of two entries. -/
theorem file_comm_other (orders : RawOrders) (a b : RawObservation) {k k' : RawOrderKey} (p q : ℚ)
    (h : k ≠ k') :
    ((file orders a k p).bind fun t => file t b k' q) =
      ((file orders b k' q).bind fun t => file t a k p) := by
  have hstep : ∀ (c d : RawObservation) {k k' : RawOrderKey} (p q : ℚ), k ≠ k' →
      ((file orders c k p).bind fun t => file t d k' q) =
        (file orders c k p).bind fun t =>
          (((orders[k']?).getD (newOrder d)).observe d q).toOption.map (t.insert k') := by
    intro c d k k' p q h
    unfold file
    rw [Option.bind_map, Option.bind_map]
    refine congrArg _ (funext fun order => ?_)
    show (((orders.insert k order)[k']?).getD (newOrder d) |>.observe d q).toOption.map _ = _
    rw [OrdMap.getElem?_insert_of_key, if_neg h]
    rfl
  rw [hstep _ _ _ _ h, hstep _ _ _ _ (Ne.symm h)]
  unfold file
  cases (((orders[k]?).getD (newOrder a)).observe a p).toOption with
  | none =>
    cases (((orders[k']?).getD (newOrder b)).observe b q).toOption with
    | none => rfl
    | some w => rfl
  | some v =>
    cases (((orders[k']?).getD (newOrder b)).observe b q).toOption with
    | none => rfl
    | some w => exact congrArg some (OrdMap.insert_comm orders h v w)

theorem market_of_filing {o : RawObservation} {key : RawOrderKey} {quantity : ℚ}
    (h : filing o = some (some (key, quantity))) : key.market = o.market := by
  unfold filing at h
  cases hq : quantity? o.cumulativeQuantity with
  | none =>
    rw [hq] at h
    cases h
  | some q =>
    rw [hq, Option.bind_some] at h
    split at h
    · split at h
      · split at h
        · cases h
        · cases h
      · cases h
        rfl
    · cases h

/-- Filings commute. -/
theorem fileAs_comm (orders : RawOrders) {a b : RawObservation} {f g : Option (RawOrderKey × ℚ)}
    (ha : filing a = some f) (hb : filing b = some g) :
    ((fileAs orders a f).bind fun t => fileAs t b g) =
      ((fileAs orders b g).bind fun t => fileAs t a f) := by
  cases f with
  | none =>
    show fileAs orders b g = (fileAs orders b g).bind some
    rw [Option.bind_fun_some]
  | some f =>
    cases g with
    | none =>
      show (fileAs orders a (some f)).bind some = fileAs orders a (some f)
      rw [Option.bind_fun_some]
    | some g =>
      obtain ⟨k, p⟩ := f
      obtain ⟨k', q⟩ := g
      by_cases h : k = k'
      · subst h
        exact file_comm_same orders a b k p q (market_of_filing ha) (market_of_filing hb)
      · exact file_comm_other orders a b p q h

/-! ## All observations -/

/-- An observation without its time, which nothing but the bounds reads. -/
def RawObservation.untimed (o : RawObservation) : RawObservation := { o with eventTsUs := 0 }

/-- What a record observes; none if it cannot be decoded. -/
def content (columnFamily : RawColumnFamily) (record : RawRocksRecord) : Option RawObservation :=
  (observation columnFamily record).toOption.map RawObservation.untimed

/-- What the records of the four column families observe. -/
def contents (raw : RawColumnFamily → List RawRocksRecord) : List (Option RawObservation) :=
  rawColumnFamilies.flatMap fun cf => (raw cf).map (content cf)

def applyContent (orders : RawOrders) (c : Option RawObservation) : Option RawOrders :=
  c.bind fun o => (applyRawObservation orders o).toOption

theorem applyContent_eq (orders : RawOrders) (c : Option RawObservation) :
    applyContent orders c =
      c.bind fun o => (filing o).bind fun f => fileAs orders o f := by
  unfold applyContent
  simp only [applyRawObservation_toOption]

theorem applyContent_commutes : Commutes applyContent := by
  have hnone : ∀ orders, applyContent orders none = none := fun _ => rfl
  have hrefused : ∀ (orders : RawOrders) (o : RawObservation), filing o = none →
      applyContent orders (some o) = none := by
    intro orders o h
    rw [applyContent_eq, Option.bind_some, h]
    rfl
  have hfiled : ∀ (orders : RawOrders) (o : RawObservation) (f : Option (RawOrderKey × ℚ)),
      filing o = some f → applyContent orders (some o) = fileAs orders o f := by
    intro orders o f h
    rw [applyContent_eq, Option.bind_some, h]
    rfl
  intro orders a b
  cases a with
  | none => simp only [hnone, Option.bind_none, Option.bind_fun_none]
  | some a =>
    cases b with
    | none => simp only [hnone, Option.bind_none, Option.bind_fun_none]
    | some b =>
      cases ha : filing a with
      | none => simp only [hrefused _ a ha, Option.bind_none, Option.bind_fun_none]
      | some f =>
        cases hb : filing b with
        | none => simp only [hrefused _ b hb, Option.bind_none, Option.bind_fun_none]
        | some g =>
          simp only [hfiled _ a f ha, hfiled _ b g hb]
          exact fileAs_comm orders ha hb

theorem foldlM_flatMap_map {α γ σ : Type} (f : σ → γ → Option σ) (g : α → List γ)
    (l : List α) (s : σ) : (l.flatMap g).foldlM f s = (l.map g).foldlM (fun s c => c.foldlM f s) s := by
  induction l generalizing s with
  | nil => rfl
  | cons a l ih =>
    rw [List.flatMap_cons, List.foldlM_append, List.map_cons, List.foldlM_cons]
    exact bind_congr fun t => ih t

/-- The orders behind a multiset of observations. -/
def ordersOf (observed : List (Option RawObservation)) : Option RawOrders :=
  observed.foldlM applyContent ∅

theorem ordersOf_perm {observed observed' : List (Option RawObservation)}
    (h : observed.Perm observed') : ordersOf observed = ordersOf observed' :=
  foldlM_perm applyContent_commutes h ∅

theorem addRaw_view (source : Source) (cf : RawColumnFamily) (state : RawState)
    (record : RawRocksRecord) :
    (addRaw source cf state record).toOption.map RawState.orders =
      applyContent state.orders (content cf record) := by
  unfold addRaw content applyContent
  rw [toOption_bind, toOption_mapError]
  cases (observation cf record).toOption with
  | none => rfl
  | some o =>
    rw [Option.bind_some, toOption_bind, toOption_mapError]
    show _ = (applyRawObservation state.orders o).toOption
    cases (applyRawObservation state.orders o).toOption with
    | none => rfl
    | some orders => rfl

/-- Whether the raw records are accepted, and their orders. -/
theorem rawState_orders (source : Source) (raw : RawColumnFamily → List RawRocksRecord) :
    (rawState source raw).toOption.map RawState.orders = ordersOf (contents raw) := by
  have hfamily : ∀ (state : RawState) (cf : RawColumnFamily),
      ((raw cf).foldlM (addRaw source cf) state).toOption.map RawState.orders =
        ((raw cf).map (content cf)).foldlM applyContent state.orders :=
    fun state cf => toOption_foldlM (addRaw_view source cf) (raw cf) state
  unfold rawState ordersOf contents
  rw [foldlM_flatMap_map]
  exact toOption_foldlM hfamily rawColumnFamilies _

end CtaManager.Reconcile
