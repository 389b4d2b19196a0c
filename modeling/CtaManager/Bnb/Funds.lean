import CtaManager.Library.Check

/-!
One round of the BNB reserve (`manage_funds` of `bnb_auto.rs`), in exact arithmetic.

A low futures fee wallet is filled from the flexible position if the counted balance
stays above the VIP requirement, and otherwise the whole reserve is to be refilled first.
A round changes the account and ends in an error or in the one operation it goes on with
(`FundsAction`); what the exchange and the disk answer is a parameter (`Api`).
-/

namespace CtaManager.Bnb

open Check

def eps : ℚ := 1 / 100000000

/-! ## Settings -/

structure Settings where
  requiredBnb : ℚ
  refillTriggerBnb : ℚ
  refillTargetBnb : ℚ
  futuresTriggerBnb : ℚ
  futuresTargetBnb : ℚ
  futuresSweepBnb : ℚ
  earnMinBnb : ℚ
  hedgeToleranceBnb : ℚ
  hedgeMinIntervalSecs : Nat
  intervalSecs : Nat
  maxConversionUsdt : ℚ
  maxQuoteDeviationBps : ℚ
  deriving DecidableEq

namespace Settings

/-- `Settings::default`. -/
def default : Settings where
  requiredBnb := 5
  refillTriggerBnb := 52 / 10
  refillTargetBnb := 6
  futuresTriggerBnb := 12 / 10
  futuresTargetBnb := 15 / 10
  futuresSweepBnb := 18 / 10
  earnMinBnb := 1 / 10
  hedgeToleranceBnb := 5 / 10
  hedgeMinIntervalSecs := 3600
  intervalSecs := 60
  maxConversionUsdt := 10000
  maxQuoteDeviationBps := 100

/-- The checks of `validate`, by their messages. -/
inductive Invalid
  | finiteAndPositive
  | thresholds
  | futuresThresholds
  | interval
  | hedgeInterval
  | hedgeThreshold
  | limits
  deriving DecidableEq, Repr

def values (s : Settings) : List ℚ :=
  [s.requiredBnb, s.refillTriggerBnb, s.refillTargetBnb, s.futuresTriggerBnb, s.futuresTargetBnb,
    s.futuresSweepBnb, s.earnMinBnb, s.hedgeToleranceBnb, s.maxConversionUsdt,
    s.maxQuoteDeviationBps]

def validate (s : Settings) : Except Invalid Unit := do
  ensure (s.values.all fun v => decide (0 < v)) .finiteAndPositive
  ensure (decide (s.requiredBnb < s.refillTriggerBnb) &&
    decide (s.refillTriggerBnb < s.refillTargetBnb)) .thresholds
  ensure (decide (1 < s.futuresTriggerBnb) && decide (s.futuresTriggerBnb < s.futuresTargetBnb) &&
    decide (s.futuresTargetBnb < s.futuresSweepBnb) &&
    decide (s.futuresTargetBnb < s.refillTargetBnb)) .futuresThresholds
  ensure (decide (10 ≤ s.intervalSecs) && decide (s.intervalSecs ≤ 3600)) .interval
  ensure (decide (3600 ≤ s.hedgeMinIntervalSecs) && decide (s.hedgeMinIntervalSecs ≤ 86400))
    .hedgeInterval
  ensure (decide (1 / 2 ≤ s.hedgeToleranceBnb)) .hedgeThreshold
  ensure (decide (s.maxQuoteDeviationBps ≤ 500) && decide (s.maxConversionUsdt ≤ 1000000)) .limits

/-- The thresholds of accepted settings. -/
theorem validate_eq_ok {s : Settings} (h : s.validate = .ok ()) :
    s.requiredBnb < s.refillTriggerBnb ∧ s.refillTriggerBnb < s.refillTargetBnb ∧
      s.futuresTriggerBnb < s.futuresTargetBnb := by
  unfold validate at h
  obtain ⟨_, -, h⟩ := bind_eq_ok.1 h
  obtain ⟨_, hthresholds, h⟩ := bind_eq_ok.1 h
  obtain ⟨_, hfutures, h⟩ := bind_eq_ok.1 h
  rw [ensure_eq_ok] at hthresholds hfutures
  simp only [Bool.and_eq_true, decide_eq_true_eq] at hthresholds hfutures
  exact ⟨hthresholds.1, hthresholds.2, hfutures.1.1.2⟩

end Settings

/-! ## Account and balances -/

structure Balances where
  spotBnb : ℚ
  spotFreeBnb : ℚ
  futuresBnb : ℚ
  futuresAvailableBnb : ℚ
  earnBnb : ℚ
  marginHeadroomUsdt : ℚ
  bnbPriceUsdt : ℚ

def Balances.total (b : Balances) : ℚ := b.spotBnb + b.futuresBnb + b.earnBnb

inductive Route
  | futuresConvert
  | spotConvert
  deriving DecidableEq, Repr

structure Account where
  settings : Settings
  refillTarget : Option ℚ
  route : Option Route

/-- A row of the flexible positions, as far as it can be read. -/
structure Position where
  canRedeem : Option Bool
  totalAmount : Option ℚ
  collateralAmount : Option ℚ
  productId : Option String

/-- A row of the flexible products. -/
structure Product where
  canPurchase : Option Bool
  isSoldOut : Option Bool
  productId : Option String
  minPurchaseAmount : Option ℚ

inductive FundsError
  | commitFailed
  | requestFailed
  | fieldMissing (key : String)
  | pairUnavailable
  | noRedeemablePosition
  | crossesVipRequirement
  | productUnavailable
  | belowSubscriptionMinimum
  deriving DecidableEq, Repr

/-- What a round goes on with. -/
inductive FundsAction
  /-- `refill`: buy this quantity. -/
  | refill (qty : ℚ)
  | transfer (asset kind : String) (amount : ℚ) (receiveField : String)
  | submit (futures : Bool) (path : String) (params : List (String × String)) (action : String)
      (receiveField : String) (amount : ℚ)
  | withinThresholds
  deriving DecidableEq

/-- The answers of the exchange and the disk in a round. -/
structure Api where
  commit : Account → Except FundsError Unit
  /-- Whether a direct Convert pair from BFUSD is there. -/
  pair : (futures : Bool) → Except FundsError Bool
  feeBurn : Except FundsError (Option Bool)
  products : Except FundsError (List Product)
  leftPersonalQuota : String → Except FundsError ℚ

/-- The account a part of the round leaves, and how it ended. -/
abbrev Outcome (α : Type) := Account × Except FundsError α

/-- Go on from the account if the part did not fail. -/
def Outcome.andThen {α β : Type} (outcome : Outcome α) (next : Account → α → Outcome β) :
    Outcome β :=
  match outcome with
  | (a, .ok x) => next a x
  | (a, .error e) => (a, .error e)

/-- Change the account and commit it. -/
def store (api : Api) (a : Account) : Outcome Unit := (a, api.commit a)

/-! ## The round -/

def refillQuantity (settings : Settings) (latched : Option ℚ) (total : ℚ) : ℚ :=
  match latched with
  | some target => max (max target settings.refillTargetBnb - total) 0
  | none =>
    if total ≤ settings.refillTriggerBnb + eps then max (settings.refillTargetBnb - total) 0 else 0

/-- `decimal`: eight digits, cut off. -/
def decimal (v : ℚ) : String :=
  let units := ⌊v * 100000000⌋
  let digits := toString (units.natAbs % 100000000)
  (if units < 0 then "-" else "") ++ toString (units.natAbs / 100000000) ++ "." ++
    String.ofList (List.replicate (8 - digits.length) '0') ++ digits

/-- The first part: a redemption that would cross the VIP requirement latches a refill. -/
def latchRefill (api : Api) (a : Account) (b : Balances) : Outcome Unit :=
  let feeRefill := max (a.settings.futuresTargetBnb - b.futuresBnb - b.spotFreeBnb) 0
  if a.refillTarget.isNone && decide (b.futuresBnb ≤ a.settings.futuresTriggerBnb) &&
      decide (b.total - feeRefill ≤ a.settings.requiredBnb) then
    store api { a with refillTarget := some a.settings.refillTargetBnb }
  else (a, .ok ())

/-- The Convert route of a refill, chosen once. -/
def chooseRoute (api : Api) (a : Account) : Outcome Unit :=
  if a.route.isNone then
    match api.pair true with
    | .error e => (a, .error e)
    | .ok true => store api { a with route := some .futuresConvert }
    | .ok false =>
      match api.pair false with
      | .error e => (a, .error e)
      | .ok true => store api { a with route := some .spotConvert }
      | .ok false => (a, .error .pairUnavailable)
  else (a, .ok ())

def buyRefill (api : Api) (a : Account) (qty : ℚ) : Outcome FundsAction :=
  (if a.refillTarget.isNone then
      store api { a with refillTarget := some a.settings.refillTargetBnb }
    else (a, .ok ())).andThen fun a _ =>
  (chooseRoute api a).andThen fun a _ => (a, .ok (.refill qty))

def clearLatch (api : Api) (a : Account) : Outcome Unit :=
  if a.refillTarget.isSome then store api { a with refillTarget := none, route := none }
  else (a, .ok ())

/-- Whether a position covers what is missing. -/
def Position.covers (p : Position) (missing : ℚ) : Bool :=
  p.canRedeem == some true &&
    decide (missing ≤ p.totalAmount.getD 0 - p.collateralAmount.getD 0)

def redeem (productId : String) (missing : ℚ) : FundsAction :=
  .submit false "/sapi/v1/simple-earn/flexible/redeem"
    [("productId", productId), ("amount", decimal missing), ("redeemAll", "false"),
      ("destAccount", "SPOT")]
    "redeem BNB fee reserve" "spot_bnb" missing

/-- The futures fee wallet is low: free spot BNB goes there first. -/
def fillFutures (a : Account) (b : Balances) (positions : List Position) :
    Except FundsError FundsAction :=
  let amount := max (a.settings.futuresTargetBnb - b.futuresBnb) 0
  let transferable := min amount b.spotFreeBnb
  if eps < transferable then .ok (.transfer "BNB" "MAIN_UMFUTURE" transferable "futures_bnb")
  else
    let missing := amount - b.spotFreeBnb
    match positions.find? fun p => p.covers missing with
    | none => .error .noRedeemablePosition
    | some p =>
      if a.settings.requiredBnb < b.total - missing then
        match p.productId with
        | none => .error (.fieldMissing "productId")
        | some productId => .ok (redeem productId missing)
      else .error .crossesVipRequirement

/-- Surplus of the futures wallet goes back to spot. -/
def sweepFutures (a : Account) (b : Balances) : Option FundsAction :=
  if a.settings.futuresSweepBnb ≤ b.futuresBnb then
    let amount := min (b.futuresBnb - a.settings.futuresTargetBnb) b.futuresAvailableBnb
    if a.settings.earnMinBnb ≤ amount ∧ amount * b.bnbPriceUsdt ≤ b.marginHeadroomUsdt then
      some (.transfer "BNB" "UMFUTURE_MAIN" amount "spot_bnb")
    else none
  else none

/-- Surplus spot BNB is subscribed. -/
def subscribeSurplus (api : Api) (a : Account) (b : Balances) : Except FundsError FundsAction :=
  if a.settings.earnMinBnb ≤ b.spotFreeBnb then do
    let products ← api.products
    match products.find? fun p => p.canPurchase == some true && p.isSoldOut == some false with
    | none => .error .productUnavailable
    | some product =>
    match product.productId with
    | none => .error (.fieldMissing "productId")
    | some id => do
    let quota ← api.leftPersonalQuota id
    let amount := min b.spotFreeBnb quota
    match product.minPurchaseAmount with
    | none => .error (.fieldMissing "minPurchaseAmount")
    | some least =>
    ensure (decide (max a.settings.earnMinBnb least ≤ amount)) .belowSubscriptionMinimum
    return .submit false "/sapi/v1/simple-earn/flexible/subscribe"
      [("productId", id), ("amount", decimal amount), ("autoSubscribe", "false"),
        ("sourceAccount", "SPOT")]
      "subscribe surplus BNB" "earn_bnb" amount
  else .ok .withinThresholds

def enableFeeDiscount : FundsAction :=
  .submit true "/fapi/v1/feeBurn" [("feeBurn", "true")] "enable BNB fee discount" "" 0

/-- What follows when nothing is to be bought. -/
def moveFunds (api : Api) (a : Account) (b : Balances) (positions : List Position) :
    Except FundsError FundsAction := do
  let burn ← api.feeBurn
  if burn == some true then
    if b.futuresBnb ≤ a.settings.futuresTriggerBnb then fillFutures a b positions
    else
      match sweepFutures a b with
      | some action => .ok action
      | none => subscribeSurplus api a b
  else .ok enableFeeDiscount

/-- `manage_funds`. -/
def manageFunds (api : Api) (a : Account) (b : Balances) (positions : List Position) :
    Outcome FundsAction :=
  (latchRefill api a b).andThen fun a _ =>
  let qty := refillQuantity a.settings a.refillTarget b.total
  if eps < qty then buyRefill api a qty
  else (clearLatch api a).andThen fun a _ => (a, moveFunds api a b positions)

/-! ## A low fee wallet -/

/-- What the futures fee wallet misses to its target. -/
def missingBnb (s : Settings) (b : Balances) : ℚ := s.futuresTargetBnb - b.futuresBnb

/-- The fee wallet is low, spot holds nothing free, no refill is latched, and a flexible
position covers what is missing. -/
structure LowReserve (a : Account) (b : Balances) (positions : List Position) : Prop where
  valid : a.settings.validate = .ok ()
  low : b.futuresBnb ≤ a.settings.futuresTriggerBnb
  noneFree : b.spotFreeBnb = 0
  noLatch : a.refillTarget = none
  redeemable : ∃ p ∈ positions, p.covers (missingBnb a.settings b) = true
  named : ∀ p ∈ positions, p.productId.isSome = true

/-- Requests and commits succeed, a Convert pair is there and the fee discount is enabled. -/
structure Api.Working (api : Api) : Prop where
  commit : ∀ a, api.commit a = .ok ()
  pair : api.pair true = .ok true ∨ api.pair true = .ok false ∧ api.pair false = .ok true
  feeBurn : api.feeBurn = .ok (some true)

/-- The round buys a positive quantity or redeems what is missing. -/
def WayForward (missing : ℚ) (result : Except FundsError FundsAction) : Prop :=
  (∃ qty, 0 < qty ∧ result = .ok (.refill qty)) ∨
    ∃ productId, result = .ok (redeem productId missing)

/-- The balance is below the refill target, or a redemption leaves the VIP requirement. -/
def Covered (s : Settings) (b : Balances) : Prop :=
  b.total + eps < s.refillTargetBnb ∨ s.requiredBnb < b.total - missingBnb s b

variable {api : Api} {a : Account} {b : Balances} {positions : List Position}

theorem LowReserve.missing_pos (h : LowReserve a b positions) : 0 < missingBnb a.settings b := by
  have hthresholds := (Settings.validate_eq_ok h.valid).2.2
  have hlow := h.low
  unfold missingBnb
  linarith

theorem LowReserve.fee_refill (h : LowReserve a b positions) :
    max (a.settings.futuresTargetBnb - b.futuresBnb - b.spotFreeBnb) 0 = missingBnb a.settings b := by
  have hpos := h.missing_pos
  rw [h.noneFree, sub_zero]
  exact max_eq_left hpos.le

theorem eps_pos : 0 < eps := by
  unfold eps
  norm_num

/-- The latch is set exactly if a redemption would cross the VIP requirement. -/
theorem latchRefill_eq (h : LowReserve a b positions) (hapi : api.Working) :
    latchRefill api a b =
      if b.total - missingBnb a.settings b ≤ a.settings.requiredBnb then
        ({ a with refillTarget := some a.settings.refillTargetBnb }, .ok ())
      else (a, .ok ()) := by
  unfold latchRefill store
  rw [h.fee_refill, h.noLatch, hapi.commit]
  simp [h.low]

theorem chooseRoute_ok (hapi : api.Working) (a : Account) :
    ∃ route, chooseRoute api a = ({ a with route }, .ok ()) := by
  obtain ⟨settings, refillTarget, route⟩ := a
  unfold chooseRoute store
  cases route with
  | some route => exact ⟨some route, rfl⟩
  | none =>
    rcases hapi.pair with hpair | ⟨hpair, hspot⟩
    · exact ⟨some .futuresConvert, by simp [hpair, hapi.commit]⟩
    · exact ⟨some .spotConvert, by simp [hpair, hspot, hapi.commit]⟩

theorem buyRefill_snd (hapi : api.Working) (a : Account) (qty : ℚ) :
    (buyRefill api a qty).2 = .ok (.refill qty) := by
  have hbuy : ∀ a, ((chooseRoute api a).andThen fun a _ =>
      ((a, .ok (.refill qty)) : Outcome FundsAction)).2 = .ok (.refill qty) := by
    intro a
    obtain ⟨route, hroute⟩ := chooseRoute_ok hapi a
    rw [hroute]
    rfl
  unfold buyRefill store
  by_cases hlatch : a.refillTarget.isNone = true
  · rw [if_pos hlatch, hapi.commit]
    exact hbuy _
  · rw [if_neg hlatch]
    exact hbuy _

theorem clearLatch_eq (hapi : api.Working) (a : Account) :
    ∃ route, clearLatch api a = ({ a with refillTarget := none, route }, .ok ()) := by
  unfold clearLatch store
  by_cases hlatch : a.refillTarget.isSome = true
  · rw [if_pos hlatch, hapi.commit]
    exact ⟨none, rfl⟩
  · have hnone : a.refillTarget = none := by simpa using hlatch
    rw [if_neg hlatch]
    exact ⟨a.route, by rw [← hnone]⟩

/-- What is redeemed, or refused. -/
theorem fillFutures_eq (h : LowReserve a b positions) (a' : Account)
    (ha' : a'.settings = a.settings) :
    ∃ productId, fillFutures a' b positions =
      if a.settings.requiredBnb < b.total - missingBnb a.settings b then
        .ok (redeem productId (missingBnb a.settings b))
      else .error .crossesVipRequirement := by
  have hpos := h.missing_pos
  have hamount : max (a'.settings.futuresTargetBnb - b.futuresBnb) 0 = missingBnb a.settings b := by
    rw [ha']
    exact max_eq_left hpos.le
  obtain ⟨p, hp, hcovers⟩ := h.redeemable
  unfold fillFutures
  simp only [hamount, h.noneFree, sub_zero, min_eq_right hpos.le, if_neg eps_pos.not_gt]
  cases hfind : positions.find? fun p => p.covers (missingBnb a.settings b) with
  | none => exact absurd hcovers (by simpa using List.find?_eq_none.1 hfind p hp)
  | some found =>
    obtain ⟨productId, hid⟩ := Option.isSome_iff_exists.1
      (h.named found (List.mem_of_find?_eq_some hfind))
    exact ⟨productId, by simp only [hid, ha']⟩

/-- When nothing is to be bought, the fee wallet is filled from the position. -/
theorem moveFunds_eq (h : LowReserve a b positions) (hapi : api.Working) (a' : Account)
    (ha' : a'.settings = a.settings) : moveFunds api a' b positions = fillFutures a' b positions := by
  have hlow : b.futuresBnb ≤ a'.settings.futuresTriggerBnb := by
    rw [ha']
    exact h.low
  unfold moveFunds
  rw [hapi.feeBurn, ok_bind, if_pos (show (some true == some true) = true from rfl), if_pos hlow]

/-- A round that buys nothing leaves no latch and ends with the position. -/
theorem clear_and_fill (h : LowReserve a b positions) (hapi : api.Working) (a' : Account)
    (ha' : a'.settings = a.settings) :
    ∃ route, (clearLatch api a').andThen (fun a _ => (a, moveFunds api a b positions)) =
      (({ a with refillTarget := none, route } : Account), fillFutures a' b positions) := by
  obtain ⟨route, hclear⟩ := clearLatch_eq hapi a'
  have hmove := moveFunds_eq h hapi { a' with refillTarget := none, route } ha'
  refine ⟨route, ?_⟩
  rw [hclear]
  show (({ a' with refillTarget := none, route } : Account),
    moveFunds api { a' with refillTarget := none, route } b positions) = _
  rw [hmove, ← ha']
  rfl

/-- A balance at the refill target: the latch that was set buys nothing and is cleared,
and the redemption is refused. -/
theorem manageFunds_refused (h : LowReserve a b positions) (hapi : api.Working)
    (hcovered : ¬ Covered a.settings b) :
    ∃ route, manageFunds api a b positions =
      (({ a with refillTarget := none, route } : Account), .error .crossesVipRequirement) := by
  unfold Covered at hcovered
  rw [not_or, not_lt, not_lt] at hcovered
  obtain ⟨hfull, hcross⟩ := hcovered
  have hqty : ¬ eps < max (max a.settings.refillTargetBnb a.settings.refillTargetBnb - b.total) 0 := by
    have heps := eps_pos
    rw [max_self, not_lt]
    exact max_le (by linarith) heps.le
  obtain ⟨route, hround⟩ := clear_and_fill h hapi
    { a with refillTarget := some a.settings.refillTargetBnb } rfl
  obtain ⟨productId, hfill⟩ := fillFutures_eq h
    { a with refillTarget := some a.settings.refillTargetBnb } rfl
  refine ⟨route, ?_⟩
  unfold manageFunds
  rw [latchRefill_eq h hapi, if_pos hcross]
  show (if eps < max (max a.settings.refillTargetBnb a.settings.refillTargetBnb - b.total) 0 then _
    else _) = _
  rw [if_neg hqty, hround, hfill, if_neg (not_lt.2 hcross)]

theorem manageFunds_covered (h : LowReserve a b positions) (hapi : api.Working)
    (hcovered : Covered a.settings b) :
    WayForward (missingBnb a.settings b) (manageFunds api a b positions).2 := by
  have heps := eps_pos
  unfold manageFunds
  rw [latchRefill_eq h hapi]
  by_cases hcross : b.total - missingBnb a.settings b ≤ a.settings.requiredBnb
  · -- the latch is set, and the balance is below the target
    have hbelow : b.total + eps < a.settings.refillTargetBnb :=
      hcovered.resolve_right (not_lt.2 hcross)
    have hqty : eps < max (max a.settings.refillTargetBnb a.settings.refillTargetBnb - b.total) 0 := by
      rw [max_self]
      exact lt_of_lt_of_le (by linarith) (le_max_left _ _)
    rw [if_pos hcross]
    show WayForward _ (if eps < max (max a.settings.refillTargetBnb a.settings.refillTargetBnb -
      b.total) 0 then _ else _ : Outcome FundsAction).2
    rw [if_pos hqty]
    exact Or.inl ⟨_, heps.trans hqty, buyRefill_snd hapi _ _⟩
  · rw [if_neg hcross]
    show WayForward _ (if eps < refillQuantity a.settings a.refillTarget b.total then _
      else _ : Outcome FundsAction).2
    by_cases hqty : eps < refillQuantity a.settings a.refillTarget b.total
    · rw [if_pos hqty]
      exact Or.inl ⟨_, heps.trans hqty, buyRefill_snd hapi _ _⟩
    · obtain ⟨route, hround⟩ := clear_and_fill h hapi a rfl
      obtain ⟨productId, hfill⟩ := fillFutures_eq h a rfl
      rw [if_neg hqty, hround, hfill, if_pos (not_le.1 hcross)]
      exact Or.inr ⟨productId, rfl⟩

/-! ## Rounds with the same balances -/

/-- Rounds after one another, each from the account the one before left. -/
def manageRounds (b : Balances) (positions : List Position) :
    Account → List Api → List (Except FundsError FundsAction)
  | _, [] => []
  | a, api :: apis =>
    (manageFunds api a b positions).2 ::
      manageRounds b positions (manageFunds api a b positions).1 apis

theorem manageRounds_refused (h : LowReserve a b positions) (hcovered : ¬ Covered a.settings b)
    {apis : List Api} (hapis : ∀ api ∈ apis, api.Working) :
    ∀ result ∈ manageRounds b positions a apis, result = .error .crossesVipRequirement := by
  induction apis generalizing a with
  | nil => exact fun result hmem => absurd hmem List.not_mem_nil
  | cons api apis ih =>
    rw [List.forall_mem_cons] at hapis
    obtain ⟨route, hround⟩ := manageFunds_refused h hapis.1 hcovered
    unfold manageRounds
    rw [hround, List.forall_mem_cons]
    -- the account it leaves is as low, and has no latch either
    have hnext : LowReserve { a with refillTarget := none, route } b positions :=
      ⟨h.valid, h.low, h.noneFree, rfl, h.redeemable, h.named⟩
    exact ⟨rfl, ih hnext hcovered hapis.2⟩

/-- A round finds a way forward exactly if the balance is below the refill target or the
redemption leaves the VIP requirement.  Else it fails, and so does every later one. -/
theorem manageFunds_forward_iff (h : LowReserve a b positions) (hapi : api.Working) :
    (WayForward (missingBnb a.settings b) (manageFunds api a b positions).2 ↔
        Covered a.settings b) ∧
      (¬ Covered a.settings b → ∀ apis : List Api, (∀ api ∈ apis, api.Working) →
        ∀ result ∈ manageRounds b positions a apis, result = .error .crossesVipRequirement) := by
  refine ⟨⟨fun hforward => ?_, manageFunds_covered h hapi⟩,
    fun hcovered apis hapis => manageRounds_refused h hcovered hapis⟩
  by_contra hcovered
  obtain ⟨route, hround⟩ := manageFunds_refused h hapi hcovered
  rw [hround] at hforward
  rcases hforward with ⟨qty, -, hresult⟩ | ⟨productId, hresult⟩
  · cases hresult
  · cases hresult

section

def workingApi : Api where
  commit := fun _ => .ok ()
  pair := fun _ => .ok true
  feeBurn := .ok (some true)
  products := .ok []
  leftPersonalQuota := fun _ => .ok 0

theorem workingApi_working : workingApi.Working := ⟨fun _ => rfl, Or.inl rfl, rfl⟩

def freshAccount : Account := { settings := .default, refillTarget := none, route := none }

/-- All BNB in the flexible position, the futures wallet empty. -/
def earning (earnBnb : ℚ) : Balances where
  spotBnb := 0
  spotFreeBnb := 0
  futuresBnb := 0
  futuresAvailableBnb := 0
  earnBnb := earnBnb
  marginHeadroomUsdt := 1000
  bnbPriceUsdt := 600

def earnPosition (earnBnb : ℚ) : List Position :=
  [{ canRedeem := some true, totalAmount := some earnBnb, collateralAmount := some 0,
     productId := some "BNB001" }]

theorem lowReserve_earning {earnBnb : ℚ} (h : 15 / 10 ≤ earnBnb) :
    LowReserve freshAccount (earning earnBnb) (earnPosition earnBnb) where
  valid := by decide +kernel
  low := by
    show (0 : ℚ) ≤ 12 / 10
    norm_num
  noneFree := rfl
  noLatch := rfl
  redeemable := by
    refine ⟨_, List.mem_singleton_self _, ?_⟩
    have hmissing : missingBnb freshAccount.settings (earning earnBnb) = 15 / 10 := sub_zero _
    rw [hmissing]
    simpa [Position.covers] using h
  named := by
    intro p hp
    rw [List.mem_singleton.1 hp]
    rfl

/-- With the default settings and 6.2 BNB in the flexible position every round fails. -/
theorem manageFunds_stuck :
    LowReserve freshAccount (earning (62 / 10)) (earnPosition (62 / 10)) ∧
      workingApi.Working ∧
      (manageFunds workingApi freshAccount (earning (62 / 10)) (earnPosition (62 / 10))).2 =
        .error .crossesVipRequirement ∧
      ¬ WayForward (missingBnb freshAccount.settings (earning (62 / 10)))
        (manageFunds workingApi freshAccount (earning (62 / 10)) (earnPosition (62 / 10))).2 := by
  have hresult : (manageFunds workingApi freshAccount (earning (62 / 10))
      (earnPosition (62 / 10))).2 = .error .crossesVipRequirement := by decide +kernel
  refine ⟨lowReserve_earning (by norm_num), workingApi_working, hresult, ?_⟩
  rw [hresult]
  rintro (⟨qty, -, hbuy⟩ | ⟨productId, hredeem⟩)
  · cases hbuy
  · cases hredeem

/-- With 7 BNB the fee wallet is filled. -/
theorem manageFunds_forward_seven :
    WayForward (missingBnb freshAccount.settings (earning 7))
      (manageFunds workingApi freshAccount (earning 7) (earnPosition 7)).2 :=
  (manageFunds_forward_iff (lowReserve_earning (by norm_num)) workingApi_working).1.2
    (Or.inr (by
      show (5 : ℚ) < 0 + 0 + 7 - (15 / 10 - 0)
      norm_num))

end

end CtaManager.Bnb
