import CtaManager.Library.Check
import CtaManager.Library.SlidingWindow
import CtaManager.Library.Steps
import CtaManager.Treasury.RateLimit

/-!
The weight gate of the candle requests (`WeightGate` of `kline.rs`).

`WeightGate.reserve` books a weight, or says when to come back; the rate-limit responses of
both exchanges move `blocked_until`.  Machine arithmetic is checked: an addition or
subtraction out of range, or the branch the source calls unreachable, is a `Panic`.
Instants are nanoseconds.
-/

namespace CtaManager.Candles

open Check SlidingWindow

open Treasury (seconds parseUnsigned maxU32 maxU64)

inductive Panic
  | weightAboveBudget
  | addOverflow
  | subUnderflow
  | instantOverflow
  | unreachable
  deriving DecidableEq, Repr

def checkedAdd (a b : Nat) : Except Panic Nat := if a + b ≤ maxU32 then .ok (a + b) else .error .addOverflow

def checkedSub (a b : Nat) : Except Panic Nat := if b ≤ a then .ok (a - b) else .error .subUnderflow

/-- `Instant + Duration` up to the last instant the clock can represent. -/
def deadline (maxInstant now wait : Nat) : Except Panic Nat :=
  if now + seconds wait ≤ maxInstant then .ok (now + seconds wait) else .error .instantOverflow

structure WeightGate where
  reservations : List (Nat × Nat)
  used : Nat
  blockedUntil : Nat
  deriving DecidableEq

namespace WeightGate

/-- The front reservations that are a minute old leave. -/
def expire (now : Nat) : List (Nat × Nat) → Nat → Except Panic (List (Nat × Nat) × Nat)
  | [], used => .ok ([], used)
  | (at_, expired) :: rest, used =>
    if now < at_ + seconds 60 then .ok ((at_, expired) :: rest, used)
    else do
      let used ← checkedSub used expired
      expire now rest used

/-- The expiry after which the weight fits. -/
def retryAt (weight budget : Nat) : List (Nat × Nat) → Nat → Except Panic Nat
  | [], _ => .error .unreachable
  | (at_, reserved) :: rest, remaining => do
    let remaining ← checkedSub remaining reserved
    let total ← checkedAdd remaining weight
    if total ≤ budget then return at_ + seconds 60 else retryAt weight budget rest remaining

/-- `none` grants; `some` says when to try again. -/
def reserve (gate : WeightGate) (now weight budget : Nat) :
    Except Panic (WeightGate × Option Nat) := do
  ensure (decide (weight ≤ budget)) .weightAboveBudget
  let (reservations, used) ← expire now gate.reservations gate.used
  let gate := { gate with reservations, used }
  if now < gate.blockedUntil then return (gate, some gate.blockedUntil)
  else do
    let total ← checkedAdd gate.used weight
    if total ≤ budget then
      return ({ gate with reservations := gate.reservations ++ [(now, weight)], used := total }, none)
    else do
      let at_ ← retryAt weight budget gate.reservations gate.used
      return (gate, some at_)

/-- The wait a Binance response asks for: 429 and 418 do, for two minutes if the header
does not say. -/
def binanceWait (status : Nat) (retryAfter : Option String) : Option Nat :=
  if status == 429 || status == 418 then
    some (max ((retryAfter.bind (parseUnsigned maxU64)).getD 120) 1)
  else none

/-- `fetch_page`: a later instant only. -/
def observeBinance (maxInstant : Nat) (gate : WeightGate) (now status : Nat)
    (retryAfter : Option String) : Except Panic WeightGate :=
  match binanceWait status retryAfter with
  | none => .ok gate
  | some wait => do
    let until_ ← deadline maxInstant now wait
    return { gate with blockedUntil := max gate.blockedUntil until_ }

/-- `error_for_status`: client and server errors. -/
def errorStatus (status : Nat) : Bool := decide (400 ≤ status ∧ status < 600)

/-- The OKX responses that say to slow down: 429, or a body with code 50011. -/
def okexLimited (status : Nat) (code : Option String) : Bool :=
  status == 429 || (!errorStatus status && code == some "50011")

/-- `fetch_okex_page`: one minute from now. -/
def observeOkex (maxInstant : Nat) (gate : WeightGate) (now status : Nat) (code : Option String) :
    Except Panic WeightGate :=
  if okexLimited status code then do
    let until_ ← deadline maxInstant now 60
    return { gate with blockedUntil := until_ }
  else .ok gate

/-! ## One reservation -/

/-- The weight of reservations. -/
def total (reservations : List (Nat × Nat)) : Nat := (reservations.map Prod.snd).sum

@[simp] theorem total_nil : total [] = 0 := rfl

@[simp] theorem total_cons (p : Nat × Nat) (l : List (Nat × Nat)) :
    total (p :: l) = p.2 + total l := rfl

/-- The reservations that are younger than a minute. -/
abbrev unexpired (now : Nat) (reservations : List (Nat × Nat)) : List (Nat × Nat) :=
  kept Prod.fst (seconds 60) now reservations

theorem unexpired_cons (now : Nat) (p : Nat × Nat) (l : List (Nat × Nat)) :
    unexpired now (p :: l) = if now < p.1 + seconds 60 then p :: unexpired now l else unexpired now l := by
  have hiff : (now - p.1 < seconds 60) ↔ (now < p.1 + seconds 60) := by
    unfold seconds
    omega
  unfold unexpired kept
  rw [List.filter_cons]
  simp only [hiff, decide_eq_true_eq]

/-- In order of time, nothing has expired if the first has not. -/
theorem unexpired_of_head {now : Nat} {p : Nat × Nat} {l : List (Nat × Nat)}
    (hsorted : (p :: l).Pairwise fun a b => a.1 ≤ b.1) (h : now < p.1 + seconds 60) :
    unexpired now (p :: l) = p :: l := by
  unfold unexpired kept
  rw [List.filter_eq_self]
  intro q hq
  rw [decide_eq_true_eq]
  have hle : p.1 ≤ q.1 := by
    rcases List.mem_cons.1 hq with rfl | hq
    · exact Nat.le_refl _
    · exact (List.pairwise_cons.1 hsorted).1 q hq
  unfold seconds at h ⊢
  omega

theorem total_unexpired_le (now : Nat) (l : List (Nat × Nat)) : total (unexpired now l) ≤ total l := by
  induction l with
  | nil => exact Nat.le_refl 0
  | cons p l ih =>
    rw [unexpired_cons]
    split
    · rw [total_cons, total_cons]
      omega
    · rw [total_cons]
      omega

theorem expire_eq {now : Nat} {l : List (Nat × Nat)} (hsorted : l.Pairwise fun a b => a.1 ≤ b.1) :
    expire now l (total l) = .ok (unexpired now l, total (unexpired now l)) := by
  induction l with
  | nil => rfl
  | cons p l ih =>
    obtain ⟨at_, weight⟩ := p
    unfold expire
    split
    · next h => rw [unexpired_of_head hsorted h]
    · next h =>
      have hsub : checkedSub (total ((at_, weight) :: l)) weight = .ok (total l) := by
        unfold checkedSub
        rw [total_cons, if_pos (Nat.le_add_right _ _), Nat.add_sub_cancel_left]
      rw [hsub, ok_bind, ih (List.pairwise_cons.1 hsorted).2, unexpired_cons, if_neg h]

/-- Some expiry makes room, and none before it does. -/
theorem retryAt_eq {weight budget : Nat} (hweight : weight ≤ budget) (hbudget : 2 * budget ≤ maxU32)
    {l : List (Nat × Nat)} (hsorted : l.Pairwise fun a b => a.1 ≤ b.1) (htotal : total l ≤ budget)
    (hfull : budget < total l + weight) :
    ∃ at_, retryAt weight budget l (total l) = .ok at_ ∧
      ∀ t, total (unexpired t l) + weight ≤ budget ↔ at_ ≤ t := by
  induction l with
  | nil =>
    rw [total_nil] at hfull
    omega
  | cons p l ih =>
    obtain ⟨first, reserved⟩ := p
    have hsorted' := (List.pairwise_cons.1 hsorted).2
    have hsub : checkedSub (total ((first, reserved) :: l)) reserved = .ok (total l) := by
      unfold checkedSub
      rw [total_cons, if_pos (Nat.le_add_right _ _), Nat.add_sub_cancel_left]
    have hrest : total l ≤ budget := by
      rw [total_cons] at htotal
      omega
    have hadd : checkedAdd (total l) weight = .ok (total l + weight) := by
      unfold checkedAdd
      rw [if_pos (by omega)]
    -- until the first expires, all of them count
    have hbefore : ∀ t, t < first + seconds 60 →
        budget < total (unexpired t ((first, reserved) :: l)) + weight := by
      intro t ht
      rw [unexpired_of_head hsorted ht]
      exact hfull
    have hafter : ∀ t, ¬t < first + seconds 60 →
        unexpired t ((first, reserved) :: l) = unexpired t l := by
      intro t ht
      rw [unexpired_cons, if_neg ht]
    rw [retryAt, hsub, ok_bind, hadd, ok_bind]
    by_cases hfits : total l + weight ≤ budget
    · refine ⟨first + seconds 60, if_pos hfits, fun t => ?_⟩
      by_cases ht : t < first + seconds 60
      · have := hbefore t ht
        omega
      · rw [hafter t ht]
        have := total_unexpired_le t l
        omega
    · obtain ⟨at_, hretry, hexact⟩ := ih hsorted' hrest (by omega)
      refine ⟨at_, by rw [if_neg hfits]; exact hretry, fun t => ?_⟩
      by_cases ht : t < first + seconds 60
      · have hnot : ¬at_ ≤ t := by
          rw [← hexact t]
          cases l with
          | nil =>
            rw [total_nil] at hfits
            omega
          | cons q l =>
            have hle := (List.pairwise_cons.1 hsorted).1 q List.mem_cons_self
            rw [unexpired_of_head hsorted' (by dsimp only at hle; omega)]
            omega
        have := hbefore t ht
        omega
      · rw [hafter t ht]
        exact hexact t

/-- What every reservation leaves: times in order and in the past, and their weight. -/
structure Valid (budget now : Nat) (gate : WeightGate) : Prop where
  sorted : gate.reservations.Pairwise fun a b => a.1 ≤ b.1
  past : ∀ p ∈ gate.reservations, p.1 ≤ now
  used_eq : gate.used = total gate.reservations
  within : gate.used ≤ budget

/-- The gate after the expired reservations have left. -/
def pruned (gate : WeightGate) (now : Nat) : WeightGate :=
  { gate with
    reservations := unexpired now gate.reservations
    used := total (unexpired now gate.reservations) }

theorem Valid.pruned {budget earlier now : Nat} {gate : WeightGate} (h : Valid budget earlier gate)
    (hle : earlier ≤ now) : Valid budget now (gate.pruned now) where
  sorted := h.sorted.filter _
  past := by
    intro p hp
    exact (h.past p (List.mem_of_mem_filter hp)).trans hle
  used_eq := rfl
  within := by
    have := total_unexpired_le now gate.reservations
    have := h.used_eq
    have := h.within
    show total (unexpired now gate.reservations) ≤ budget
    omega

/-- A reservation waits for the cooldown, is granted, or is told when it fits. -/
inductive Reserved (gate : WeightGate) (now weight budget : Nat) : WeightGate → Option Nat → Prop
  | blocked : now < gate.blockedUntil →
    Reserved gate now weight budget (gate.pruned now) (some gate.blockedUntil)
  | granted : gate.blockedUntil ≤ now → total (unexpired now gate.reservations) + weight ≤ budget →
    Reserved gate now weight budget
      { gate.pruned now with
        reservations := unexpired now gate.reservations ++ [(now, weight)]
        used := total (unexpired now gate.reservations) + weight } none
  | full {at_ : Nat} : gate.blockedUntil ≤ now →
    budget < total (unexpired now gate.reservations) + weight →
    (∀ t, total (unexpired t (unexpired now gate.reservations)) + weight ≤ budget ↔ at_ ≤ t) →
    Reserved gate now weight budget (gate.pruned now) (some at_)

/-- No step of a reservation goes out of range. -/
theorem reserve_spec {gate : WeightGate} {budget earlier now weight : Nat}
    (h : Valid budget earlier gate) (hle : earlier ≤ now) (hweight : weight ≤ budget)
    (hbudget : 2 * budget ≤ maxU32) :
    ∃ gate' reply, gate.reserve now weight budget = .ok (gate', reply) ∧
      Reserved gate now weight budget gate' reply := by
  have hpruned := h.pruned hle
  have hexpire : expire now gate.reservations gate.used =
      .ok (unexpired now gate.reservations, total (unexpired now gate.reservations)) := by
    rw [h.used_eq]
    exact expire_eq h.sorted
  have hwithin : total (unexpired now gate.reservations) ≤ budget := hpruned.within
  unfold reserve
  rw [decide_eq_true hweight, ensure_true, ok_bind, hexpire, ok_bind]
  dsimp only
  by_cases hblocked : now < gate.blockedUntil
  · rw [if_pos hblocked]
    exact ⟨_, _, rfl, .blocked hblocked⟩
  · have hadd : checkedAdd (total (unexpired now gate.reservations)) weight =
        .ok (total (unexpired now gate.reservations) + weight) := by
      unfold checkedAdd
      rw [if_pos (by omega)]
    rw [if_neg hblocked, hadd, ok_bind]
    by_cases hfits : total (unexpired now gate.reservations) + weight ≤ budget
    · rw [if_pos hfits]
      exact ⟨_, _, rfl, .granted (not_lt.1 hblocked) hfits⟩
    · rw [if_neg hfits]
      obtain ⟨at_, hretry, hexact⟩ :=
        retryAt_eq hweight hbudget hpruned.sorted hwithin (not_le.1 hfits)
      refine ⟨gate.pruned now, some at_, ?_, .full (not_lt.1 hblocked) (not_le.1 hfits) hexact⟩
      have hretry' : retryAt weight budget (unexpired now gate.reservations)
          (total (unexpired now gate.reservations)) = .ok at_ := hretry
      rw [hretry']
      rfl

end WeightGate

/-! ## Runs -/

inductive GateRequest
  | reserve (weight : Nat)
  | binance (status : Nat) (retryAfter : Option String)
  | okex (status : Nat) (code : Option String)

structure GateCall where
  at_ : Nat
  request : GateRequest

/-- The gate, with what was granted and the instants that responses asked to wait for. -/
structure GateRun where
  gate : WeightGate
  granted : List (Nat × Nat)
  asked : List Nat

namespace GateRun

open WeightGate

def init (start : Nat) : GateRun :=
  { gate := { reservations := [], used := 0, blockedUntil := start }, granted := [], asked := [] }

/-- The instant a call asks to wait for. -/
def asks (c : GateCall) : Option Nat :=
  match c.request with
  | .reserve _ => none
  | .binance status retryAfter =>
    (binanceWait status retryAfter).map fun wait => c.at_ + seconds wait
  | .okex status code => if okexLimited status code then some (c.at_ + seconds 60) else none

/-- One call.  A task that panics leaves the gate as it was. -/
def step (maxInstant budget : Nat) (s : GateRun) (c : GateCall) : GateRun :=
  match c.request with
  | .reserve weight =>
    match s.gate.reserve c.at_ weight budget with
    | .ok (gate, none) => { s with gate, granted := s.granted ++ [(c.at_, weight)] }
    | .ok (gate, some _) => { s with gate }
    | .error _ => s
  | .binance status retryAfter =>
    { s with
      gate := (s.gate.observeBinance maxInstant c.at_ status retryAfter).toOption.getD s.gate
      asked := s.asked ++ (asks c).toList }
  | .okex status code =>
    { s with
      gate := (s.gate.observeOkex maxInstant c.at_ status code).toOption.getD s.gate
      asked := s.asked ++ (asks c).toList }

variable {maxInstant budget : Nat}

/-- What the run has granted is what the gate counts, and every grant fitted. -/
structure Inv (budget now : Nat) (s : GateRun) : Prop where
  valid : Valid budget now s.gate
  counted : ∀ t, now ≤ t → unexpired t s.gate.reservations = unexpired t s.granted
  sorted : s.granted.Pairwise fun a b => a.1 ≤ b.1
  past : ∀ p ∈ s.granted, p.1 ≤ now
  booked : Booked Prod.fst Prod.snd (seconds 60) budget s.granted

theorem inv_init (budget start : Nat) : Inv budget start (init start) where
  valid := ⟨List.Pairwise.nil, fun _ hp => absurd hp List.not_mem_nil, rfl, Nat.zero_le _⟩
  counted := fun _ _ => rfl
  sorted := List.Pairwise.nil
  past := fun _ hp => absurd hp List.not_mem_nil
  booked := Booked.nil

/-- A response changes nothing but the cooldown. -/
theorem Inv.respond {now later : Nat} {s : GateRun} (h : Inv budget now s) (hle : now ≤ later)
    (blockedUntil : Nat) (asked : List Nat) :
    Inv budget later { s with gate := { s.gate with blockedUntil }, asked } where
  valid := ⟨h.valid.sorted, fun p hp => (h.valid.past p hp).trans hle, h.valid.used_eq,
    h.valid.within⟩
  counted := fun t ht => h.counted t (hle.trans ht)
  sorted := h.sorted
  past := fun p hp => (h.past p hp).trans hle
  booked := h.booked

theorem Inv.pruned {now later : Nat} {s : GateRun} (h : Inv budget now s) (hle : now ≤ later) :
    Inv budget later { s with gate := s.gate.pruned later } where
  valid := h.valid.pruned hle
  counted := by
    intro t ht
    rw [← h.counted t (hle.trans ht)]
    exact kept_kept Prod.fst ht (Nat.le_refl _) _
  sorted := h.sorted
  past := fun p hp => (h.past p hp).trans hle
  booked := h.booked

theorem Inv.granted {now later weight : Nat} {s : GateRun} (h : Inv budget now s) (hle : now ≤ later)
    (hfits : total (unexpired later s.gate.reservations) + weight ≤ budget) :
    Inv budget later
      { s with
        gate := { s.gate.pruned later with
          reservations := unexpired later s.gate.reservations ++ [(later, weight)]
          used := total (unexpired later s.gate.reservations) + weight }
        granted := s.granted ++ [(later, weight)] } := by
  have hpruned := h.valid.pruned hle
  refine ⟨⟨?_, ?_, ?_, hfits⟩, ?_, ?_, ?_, ?_⟩
  · refine List.pairwise_append.2 ⟨hpruned.sorted, List.pairwise_singleton _ _, fun a ha b hb => ?_⟩
    obtain rfl := List.mem_singleton.1 hb
    exact hpruned.past a ha
  · intro p hp
    rcases List.mem_append.1 hp with hp | hp
    · exact hpruned.past p hp
    · obtain rfl := List.mem_singleton.1 hp
      exact Nat.le_refl _
  · show _ = total (unexpired later s.gate.reservations ++ [(later, weight)])
    unfold total
    rw [List.map_append, List.sum_append]
    rfl
  · intro t ht
    show unexpired t (unexpired later s.gate.reservations ++ _) = unexpired t (s.granted ++ _)
    unfold unexpired
    rw [kept_append, kept_append, kept_kept Prod.fst ht (Nat.le_refl _)]
    rw [show kept Prod.fst (seconds 60) t s.gate.reservations = kept Prod.fst (seconds 60) t s.granted
      from h.counted t (hle.trans ht)]
  · refine List.pairwise_append.2 ⟨h.sorted, List.pairwise_singleton _ _, fun a ha b hb => ?_⟩
    obtain rfl := List.mem_singleton.1 hb
    exact (h.past a ha).trans hle
  · intro p hp
    rcases List.mem_append.1 hp with hp | hp
    · exact (h.past p hp).trans hle
    · obtain rfl := List.mem_singleton.1 hp
      exact Nat.le_refl _
  · apply h.booked.append_singleton
    rw [h.counted later hle] at hfits
    exact hfits

theorem toOption_getD_eq {x : Except Panic WeightGate} {gate : WeightGate}
    (h : ∀ gate', x = .ok gate' → ∃ blockedUntil, gate' = { gate with blockedUntil }) :
    ∃ blockedUntil, x.toOption.getD gate = { gate with blockedUntil } := by
  cases x with
  | error e => exact ⟨gate.blockedUntil, rfl⟩
  | ok gate' => exact h gate' rfl

theorem observeBinance_eq (maxInstant : Nat) (gate : WeightGate) (now status : Nat) (retryAfter : Option String) :
    ∃ blockedUntil, (gate.observeBinance maxInstant now status retryAfter).toOption.getD gate =
      { gate with blockedUntil } := by
  refine toOption_getD_eq fun gate' h => ?_
  unfold observeBinance at h
  split at h
  · cases h
    exact ⟨_, rfl⟩
  · obtain ⟨until_, _, h⟩ := bind_eq_ok.1 h
    cases h
    exact ⟨_, rfl⟩

theorem observeOkex_eq (maxInstant : Nat) (gate : WeightGate) (now status : Nat) (code : Option String) :
    ∃ blockedUntil, (gate.observeOkex maxInstant now status code).toOption.getD gate =
      { gate with blockedUntil } := by
  refine toOption_getD_eq fun gate' h => ?_
  unfold observeOkex at h
  split at h
  · obtain ⟨until_, _, h⟩ := bind_eq_ok.1 h
    cases h
    exact ⟨_, rfl⟩
  · cases h
    exact ⟨_, rfl⟩

/-- What one reservation does to the run. -/
theorem step_reserve (maxInstant : Nat) {s : GateRun} {now weight : Nat} {c : GateCall} (h : Inv budget now s)
    (hle : now ≤ c.at_) (hc : c.request = .reserve weight) (hweight : weight ≤ budget)
    (hbudget : 2 * budget ≤ maxU32) :
    Inv budget c.at_ (s.step maxInstant budget c) ∧
      ∃ gate reply, s.gate.reserve c.at_ weight budget = .ok (gate, reply) ∧
        Reserved s.gate c.at_ weight budget gate reply ∧
        s.step maxInstant budget c = { s with
          gate
          granted := if reply = none then s.granted ++ [(c.at_, weight)] else s.granted } := by
  obtain ⟨gate, reply, hreserve, hreserved⟩ := reserve_spec h.valid hle hweight hbudget
  have hstep : s.step maxInstant budget c = { s with
      gate
      granted := if reply = none then s.granted ++ [(c.at_, weight)] else s.granted } := by
    unfold step
    rw [hc]
    dsimp only
    rw [hreserve]
    cases reply with
    | none => rfl
    | some until_ => rfl
  refine ⟨?_, gate, reply, hreserve, hreserved, hstep⟩
  rw [hstep]
  cases hreserved with
  | blocked _ => exact h.pruned hle
  | granted _ hfits => exact h.granted hle hfits
  | full _ _ _ => exact h.pruned hle

theorem step_inv (maxInstant : Nat) {s : GateRun} {now : Nat} {c : GateCall} (h : Inv budget now s) (hle : now ≤ c.at_)
    (hweight : ∀ weight, c.request = .reserve weight → weight ≤ budget)
    (hbudget : 2 * budget ≤ maxU32) : Inv budget c.at_ (s.step maxInstant budget c) := by
  obtain ⟨at_, request⟩ := c
  cases request with
  | reserve weight => exact (step_reserve maxInstant h hle rfl (hweight weight rfl) hbudget).1
  | binance status retryAfter =>
    obtain ⟨blockedUntil, hgate⟩ := observeBinance_eq maxInstant s.gate at_ status retryAfter
    unfold step
    dsimp only
    rw [hgate]
    exact h.respond hle _ _
  | okex status code =>
    obtain ⟨blockedUntil, hgate⟩ := observeOkex_eq maxInstant s.gate at_ status code
    unfold step
    dsimp only
    rw [hgate]
    exact h.respond hle _ _

/-- A reservation that goes through without a panic and keeps exact count.  Outside a
cooldown, a refusal names the first instant at which the same request would be granted. -/
def ReserveExact (maxInstant budget : Nat) (s : GateRun) (c : GateCall) : Prop :=
  ∀ weight, c.request = .reserve weight → ∃ gate reply,
    s.gate.reserve c.at_ weight budget = .ok (gate, reply) ∧
      gate.used = total (unexpired c.at_ (s.step maxInstant budget c).granted) ∧
      ∀ at_, reply = some at_ → s.gate.blockedUntil ≤ c.at_ → c.at_ < at_ ∧
        ∀ t, c.at_ ≤ t →
          ((∃ gate', gate.reserve t weight budget = .ok (gate', none)) ↔ at_ ≤ t)

/-- A later try of the same request. -/
theorem reserve_none_iff {gate : WeightGate} {now t weight : Nat} (h : Valid budget now gate)
    (hle : now ≤ t) (hblocked : gate.blockedUntil ≤ t) (hweight : weight ≤ budget)
    (hbudget : 2 * budget ≤ maxU32) :
    (∃ gate', gate.reserve t weight budget = .ok (gate', none)) ↔
      total (unexpired t gate.reservations) + weight ≤ budget := by
  obtain ⟨gate', reply, hreserve, hreserved⟩ := reserve_spec h hle hweight hbudget
  rw [hreserve]
  cases hreserved with
  | blocked hlater => omega
  | granted _ hfits =>
    exact ⟨fun _ => hfits, fun _ => ⟨_, rfl⟩⟩
  | full _ hfull _ =>
    constructor
    · rintro ⟨gate', h⟩
      cases h
    · intro hfits
      omega

theorem step_exact {s : GateRun} {now : Nat} {c : GateCall} (h : Inv budget now s) (hle : now ≤ c.at_)
    (hweight : ∀ weight, c.request = .reserve weight → weight ≤ budget)
    (hbudget : 2 * budget ≤ maxU32) : ReserveExact maxInstant budget s c := by
  intro weight hc
  obtain ⟨hinv, gate, reply, hreserve, hreserved, hstep⟩ :=
    step_reserve maxInstant h hle hc (hweight weight hc) hbudget
  have hgate : (s.step maxInstant budget c).gate = gate := by rw [hstep]
  refine ⟨gate, reply, hreserve, ?_, fun at_ hat hblocked => ?_⟩
  · have hall : unexpired c.at_ gate.reservations = gate.reservations := by
      unfold unexpired kept
      rw [List.filter_eq_self]
      intro p hp
      -- what is left is younger than a minute
      rw [decide_eq_true_eq]
      cases hreserved with
      | blocked _ => exact (mem_kept.1 hp).2
      | granted _ _ =>
        rcases List.mem_append.1 hp with hp | hp
        · exact (mem_kept.1 hp).2
        · obtain rfl := List.mem_singleton.1 hp
          show c.at_ - c.at_ < seconds 60
          rw [Nat.sub_self]
          decide
      | full _ _ _ => exact (mem_kept.1 hp).2
    have hcounted := hinv.counted c.at_ (Nat.le_refl _)
    have hused := hinv.valid.used_eq
    rw [hgate] at hcounted hused
    rw [← hcounted, hall]
    exact hused
  · have hvalid := hinv.valid
    rw [hgate] at hvalid
    cases hreserved with
    | blocked hlater => omega
    | granted _ _ => cases hat
    | full _ hfull hexact =>
      cases hat
      have hfirst : ∀ t, c.at_ ≤ t →
          ((∃ gate', (s.gate.pruned c.at_).reserve t weight budget = .ok (gate', none)) ↔
            at_ ≤ t) := by
        intro t ht
        rw [reserve_none_iff hvalid ht (hblocked.trans ht) (hweight weight hc) hbudget]
        exact hexact t
      refine ⟨?_, hfirst⟩
      have hnow := hexact c.at_
      unfold unexpired at hnow hfull
      rw [kept_kept Prod.fst (Nat.le_refl _) (Nat.le_refl _)] at hnow
      omega

theorem run_exact (maxInstant : Nat) {s : GateRun} {now : Nat} (h : Inv budget now s) {calls : List GateCall}
    (hclock : (now :: calls.map GateCall.at_).Pairwise (· ≤ ·))
    (hweight : ∀ c ∈ calls, ∀ weight, c.request = .reserve weight → weight ≤ budget)
    (hbudget : 2 * budget ≤ maxU32) :
    Steps.Along (step maxInstant budget) (ReserveExact maxInstant budget) s calls ∧
      ∃ later, Inv budget later (Steps.run (step maxInstant budget) s calls) := by
  induction calls generalizing s now with
  | nil => exact ⟨trivial, now, h⟩
  | cons c calls ih =>
    rw [List.forall_mem_cons] at hweight
    obtain ⟨hnow, hclock⟩ := List.pairwise_cons.1 hclock
    have hle : now ≤ c.at_ := hnow c.at_ List.mem_cons_self
    obtain ⟨halong, hinv⟩ := ih (step_inv maxInstant h hle hweight.1 hbudget)
      hclock hweight.2
    exact ⟨⟨step_exact h hle hweight.1 hbudget, halong⟩, hinv⟩

end GateRun

open GateRun in
/-- The gate over any run of reservations and rate-limit responses at non-decreasing
instants, at a budget that the configuration accepts. -/
theorem weightGate_exact (maxInstant budget start : Nat) (hbudget : budget ≤ 1200)
    (calls : List GateCall) (hclock : (start :: calls.map GateCall.at_).Pairwise (· ≤ ·))
    (hweight : ∀ c ∈ calls, ∀ weight, c.request = .reserve weight → weight ≤ budget) :
    Steps.Along (step maxInstant budget) (ReserveExact maxInstant budget) (init start) calls ∧
      ∀ window, (((Steps.run (step maxInstant budget) (init start) calls).granted.filter
        fun p => decide (window ≤ p.1 ∧ p.1 < window + seconds 60)).map Prod.snd).sum ≤ budget := by
  have hmax : 2 * budget ≤ maxU32 := by
    unfold maxU32
    omega
  obtain ⟨halong, later, hinv⟩ := run_exact maxInstant (inv_init budget start)
    hclock hweight hmax
  exact ⟨halong, fun window => hinv.booked.sum_window_le hinv.sorted window⟩

section

open GateRun

/-- Three reservations, the last of which has to wait. -/
def gateCalls : List GateCall :=
  [⟨0, .reserve 2⟩, ⟨seconds 10, .reserve 1⟩, ⟨seconds 20, .reserve 2⟩]

theorem weightGate_exact_calls :
    Steps.Along (step (seconds 1000) 3) (ReserveExact (seconds 1000) 3) (init 0) gateCalls ∧
      (((Steps.run (step (seconds 1000) 3) (init 0) gateCalls).granted.filter
        fun p => decide (0 ≤ p.1 ∧ p.1 < 0 + seconds 60)).map Prod.snd).sum ≤ 3 := by
  have h := weightGate_exact (seconds 1000) 3 0 (by decide) gateCalls (by decide) (by
    intro c hc weight hw
    simp only [gateCalls, List.mem_cons, List.not_mem_nil, or_false] at hc
    rcases hc with rfl | rfl | rfl <;> cases hw <;> decide)
  exact ⟨h.1, h.2 0⟩

end

/-! ## Cooldowns -/

namespace GateRun

open WeightGate

variable {maxInstant budget : Nat}

/-- A response whose cooldown the gate can keep: the instant it asks for can be represented,
and an OKX response comes when no more than a minute of an earlier cooldown is left. -/
def Keepable (maxInstant : Nat) (s : GateRun) (c : GateCall) : Prop :=
  (∀ until_, asks c = some until_ → until_ ≤ maxInstant) ∧
    ∀ status code, c.request = .okex status code → okexLimited status code = true →
      s.gate.blockedUntil ≤ c.at_ + seconds 60

/-- A call that does not shorten a cooldown: `blocked_until` does not move back and reaches
what a response asks for, and nothing is granted before what any earlier one asked for. -/
def CooldownKept (maxInstant budget : Nat) (s : GateRun) (c : GateCall) : Prop :=
  s.gate.blockedUntil ≤ (s.step maxInstant budget c).gate.blockedUntil ∧
    (∀ until_, asks c = some until_ → until_ ≤ (s.step maxInstant budget c).gate.blockedUntil) ∧
    ∀ weight gate, c.request = .reserve weight →
      s.gate.reserve c.at_ weight budget = .ok (gate, none) → ∀ until_ ∈ s.asked, until_ ≤ c.at_

/-- A reservation that is granted leaves the cooldown alone, and comes after it. -/
theorem reserve_blockedUntil {gate gate' : WeightGate} {now weight : Nat} {reply : Option Nat}
    (h : gate.reserve now weight budget = .ok (gate', reply)) :
    gate'.blockedUntil = gate.blockedUntil ∧ (reply = none → gate.blockedUntil ≤ now) := by
  unfold reserve at h
  obtain ⟨_, _, h⟩ := bind_eq_ok.1 h
  obtain ⟨⟨reservations, used⟩, _, h⟩ := bind_eq_ok.1 h
  dsimp only at h
  split at h
  · cases h
    exact ⟨rfl, fun hnone => by cases hnone⟩
  · next hblocked =>
    obtain ⟨total, _, h⟩ := bind_eq_ok.1 h
    split at h
    · cases h
      exact ⟨rfl, fun _ => not_lt.1 hblocked⟩
    · obtain ⟨at_, _, h⟩ := bind_eq_ok.1 h
      cases h
      exact ⟨rfl, fun _ => not_lt.1 hblocked⟩

theorem deadline_eq (maxInstant now wait : Nat) :
    (deadline maxInstant now wait = .ok (now + seconds wait) ∧ now + seconds wait ≤ maxInstant) ∨
      (deadline maxInstant now wait = .error .instantOverflow ∧ maxInstant < now + seconds wait) := by
  unfold deadline
  by_cases h : now + seconds wait ≤ maxInstant
  · exact Or.inl ⟨if_pos h, h⟩
  · exact Or.inr ⟨if_neg h, not_le.1 h⟩

/-- `blocked_until` after a call. -/
theorem step_blockedUntil (maxInstant budget : Nat) (s : GateRun) (c : GateCall) :
    (asks c = none ∧ (s.step maxInstant budget c).gate.blockedUntil = s.gate.blockedUntil) ∨
      ∃ until_, asks c = some until_ ∧
        ((maxInstant < until_ ∧
            (s.step maxInstant budget c).gate.blockedUntil = s.gate.blockedUntil) ∨
          (until_ ≤ maxInstant ∧ (s.step maxInstant budget c).gate.blockedUntil =
            match c.request with
            | .okex _ _ => until_
            | _ => max s.gate.blockedUntil until_)) := by
  obtain ⟨at_, request⟩ := c
  cases request with
  | reserve weight =>
    refine Or.inl ⟨rfl, ?_⟩
    unfold step
    dsimp only
    cases hreserve : s.gate.reserve at_ weight budget with
    | error e => rfl
    | ok p =>
      obtain ⟨gate, reply⟩ := p
      have hblocked := (reserve_blockedUntil hreserve).1
      cases reply with
      | none => exact hblocked
      | some until_ => exact hblocked
  | binance status retryAfter =>
    cases hwait : binanceWait status retryAfter with
    | none =>
      refine Or.inl ⟨by unfold asks; dsimp only; rw [hwait]; rfl, ?_⟩
      unfold step observeBinance
      dsimp only
      rw [hwait]
      rfl
    | some wait =>
      refine Or.inr ⟨at_ + seconds wait, by unfold asks; dsimp only; rw [hwait]; rfl, ?_⟩
      unfold step observeBinance
      dsimp only
      rw [hwait]
      dsimp only
      rcases deadline_eq maxInstant at_ wait with ⟨hok, hle⟩ | ⟨herror, hlt⟩
      · rw [hok]
        exact Or.inr ⟨hle, rfl⟩
      · rw [herror]
        exact Or.inl ⟨hlt, rfl⟩
  | okex status code =>
    cases hlimited : okexLimited status code with
    | false =>
      refine Or.inl ⟨by unfold asks; dsimp only; rw [hlimited]; rfl, ?_⟩
      unfold step observeOkex
      dsimp only
      rw [hlimited]
      rfl
    | true =>
      refine Or.inr ⟨at_ + seconds 60, by unfold asks; dsimp only; rw [hlimited]; rfl, ?_⟩
      unfold step observeOkex
      dsimp only
      rw [hlimited, if_pos rfl]
      rcases deadline_eq maxInstant at_ 60 with ⟨hok, hle⟩ | ⟨herror, hlt⟩
      · rw [hok]
        exact Or.inr ⟨hle, rfl⟩
      · rw [herror]
        exact Or.inl ⟨hlt, rfl⟩

/-- Everything asked for so far is still waited for. -/
def Waits (maxInstant : Nat) (s : GateRun) : Prop :=
  s.gate.blockedUntil ≤ maxInstant ∧ ∀ until_ ∈ s.asked, until_ ≤ s.gate.blockedUntil

theorem step_blockedUntil_le {s : GateRun} {c : GateCall} (h : s.gate.blockedUntil ≤ maxInstant) :
    (s.step maxInstant budget c).gate.blockedUntil ≤ maxInstant := by
  rcases step_blockedUntil maxInstant budget s c with
    ⟨_, hgate⟩ | ⟨until_, _, ⟨_, hgate⟩ | ⟨hle, hgate⟩⟩
  · rw [hgate]
    exact h
  · rw [hgate]
    exact h
  · rw [hgate]
    split
    · exact hle
    · exact max_le h hle

theorem step_asked (s : GateRun) (c : GateCall) :
    (s.step maxInstant budget c).asked = s.asked ++ (asks c).toList := by
  obtain ⟨at_, request⟩ := c
  cases request with
  | reserve weight =>
    show _ = s.asked ++ []
    rw [List.append_nil]
    unfold step
    dsimp only
    split
    · rfl
    · rfl
    · rfl
  | binance status retryAfter => rfl
  | okex status code => rfl

/-- A response that can be kept leaves `blocked_until` no earlier than before, nor than it
asks for. -/
theorem Keepable.step_le {s : GateRun} {c : GateCall} (h : Keepable maxInstant s c)
    (budget : Nat) :
    s.gate.blockedUntil ≤ (s.step maxInstant budget c).gate.blockedUntil ∧
      ∀ until_, asks c = some until_ → until_ ≤ (s.step maxInstant budget c).gate.blockedUntil := by
  rcases step_blockedUntil maxInstant budget s c with
    ⟨hasks, hgate⟩ | ⟨until_, hasks, ⟨hlt, _⟩ | ⟨_, hgate⟩⟩
  · rw [hgate, hasks]
    exact ⟨Nat.le_refl _, fun until_ h => by cases h⟩
  · have := h.1 until_ hasks
    omega
  · have hboth : s.gate.blockedUntil ≤ (s.step maxInstant budget c).gate.blockedUntil ∧
        until_ ≤ (s.step maxInstant budget c).gate.blockedUntil := by
      rw [hgate]
      split
      · next status code hc =>
        have hlimited : okexLimited status code = true := by
          unfold asks at hasks
          rw [hc] at hasks
          dsimp only at hasks
          split at hasks
          · assumption
          · cases hasks
        have huntil : until_ = c.at_ + seconds 60 := by
          unfold asks at hasks
          rw [hc] at hasks
          dsimp only at hasks
          rw [hlimited] at hasks
          exact (Option.some.inj hasks).symm
        rw [huntil]
        exact ⟨h.2 status code hc hlimited, Nat.le_refl _⟩
      · exact ⟨le_max_left _ _, le_max_right _ _⟩
    refine ⟨hboth.1, fun until' h' => ?_⟩
    rw [hasks] at h'
    cases h'
    exact hboth.2

theorem Waits.step {s : GateRun} {c : GateCall} (hwaits : Waits maxInstant s)
    (h : Keepable maxInstant s c) : Waits maxInstant (s.step maxInstant budget c) := by
  obtain ⟨hmono, hasks⟩ := h.step_le budget
  refine ⟨step_blockedUntil_le hwaits.1, fun until_ huntil => ?_⟩
  rw [step_asked] at huntil
  rcases List.mem_append.1 huntil with huntil | huntil
  · exact (hwaits.2 until_ huntil).trans hmono
  · exact hasks until_ (Option.mem_toList.1 huntil)

theorem Keepable.cooldownKept {s : GateRun} {c : GateCall} (hwaits : Waits maxInstant s)
    (h : Keepable maxInstant s c) : CooldownKept maxInstant budget s c := by
  obtain ⟨hmono, hasks⟩ := h.step_le budget
  refine ⟨hmono, hasks, fun weight gate _ hreserve until_ huntil => ?_⟩
  exact (hwaits.2 until_ huntil).trans ((reserve_blockedUntil hreserve).2 rfl)

theorem CooldownKept.keepable {s : GateRun} {c : GateCall} (hmax : s.gate.blockedUntil ≤ maxInstant)
    (h : CooldownKept maxInstant budget s c) : Keepable maxInstant s c := by
  obtain ⟨hmono, hasks, _⟩ := h
  rcases step_blockedUntil maxInstant budget s c with
    ⟨hnone, _⟩ | ⟨until_, hsome, ⟨hlt, hgate⟩ | ⟨hle, hgate⟩⟩
  · refine ⟨fun until_ h => ?_, fun status code hc hlimited => ?_⟩
    · rw [hnone] at h
      cases h
    · unfold asks at hnone
      rw [hc] at hnone
      dsimp only at hnone
      rw [hlimited] at hnone
      cases hnone
  · -- the instant cannot be represented, and nothing waits for it
    have := hasks until_ hsome
    omega
  · refine ⟨fun until' h => ?_, fun status code hc hlimited => ?_⟩
    · rw [hsome] at h
      cases h
      exact hle
    · rw [hgate, hc] at hmono
      have huntil : until_ = c.at_ + seconds 60 := by
        unfold asks at hsome
        rw [hc] at hsome
        dsimp only at hsome
        rw [hlimited] at hsome
        exact (Option.some.inj hsome).symm
      rw [huntil] at hmono
      exact hmono

end GateRun

open GateRun in
/-- Which runs keep every cooldown. -/
theorem cooldowns_kept_iff (maxInstant budget start : Nat) (hstart : start ≤ maxInstant)
    (calls : List GateCall) :
    Steps.Along (step maxInstant budget) (CooldownKept maxInstant budget) (init start) calls ↔
      Steps.Along (step maxInstant budget) (Keepable maxInstant) (init start) calls := by
  constructor
  · intro h
    refine h.strengthen (I := fun s => s.gate.blockedUntil ≤ maxInstant) ?_ ?_ hstart
    · exact fun s c hmax _ => step_blockedUntil_le hmax
    · exact fun s c hmax hkept => hkept.keepable hmax
  · intro h
    refine h.strengthen (I := Waits maxInstant) ?_ ?_ ⟨hstart, fun until_ hmem => ?_⟩
    · exact fun s c hwaits hkeep => hwaits.step hkeep
    · exact fun s c hwaits hkeep => hkeep.cooldownKept hwaits
    · exact absurd hmem List.not_mem_nil

section

open GateRun

/-- A Binance ban of five minutes, an OKX limit a second later, and a request after 100
seconds. -/
def bannedCalls : List GateCall :=
  [⟨0, .binance 418 (some "300")⟩, ⟨seconds 1, .okex 429 none⟩, ⟨seconds 100, .reserve 2⟩]

/-- The OKX limit first, then the ban, and a request when it has ended. -/
def keptCalls : List GateCall :=
  [⟨0, .okex 429 none⟩, ⟨seconds 1, .binance 418 (some "300")⟩, ⟨seconds 301, .reserve 2⟩]

/-- The responses of both venues are kept in the one order, and not in the other. -/
theorem cooldowns_kept_iff_banned :
    Steps.Along (step (seconds 1000) 600) (CooldownKept (seconds 1000) 600) (init 0) keptCalls ∧
      ¬Steps.Along (step (seconds 1000) 600) (CooldownKept (seconds 1000) 600) (init 0)
        bannedCalls := by
  have hmax : 0 ≤ seconds 1000 := by decide
  constructor
  · refine (cooldowns_kept_iff (seconds 1000) 600 0 hmax keptCalls).2 ⟨⟨?_, ?_⟩, ⟨?_, ?_⟩, ⟨?_, ?_⟩, trivial⟩
    · intro until_ huntil
      cases huntil
      decide
    · intro _ _ _ _
      decide
    · intro until_ huntil
      cases huntil
      decide
    · intro status code hokex
      cases hokex
    · intro until_ huntil
      cases huntil
    · intro status code hokex
      cases hokex
  · intro hkept
    obtain ⟨-, ⟨-, hlimited⟩, -⟩ := (cooldowns_kept_iff (seconds 1000) 600 0 hmax bannedCalls).1 hkept
    exact absurd (hlimited 429 none rfl (by decide)) (by decide)

/-- The ban ends after a minute, and the request is granted. -/
theorem cooldown_shortened :
    (Steps.run (step (seconds 1000) 600) (init 0) (bannedCalls.take 1)).gate.blockedUntil =
        seconds 300 ∧
      (Steps.run (step (seconds 1000) 600) (init 0) (bannedCalls.take 2)).gate.blockedUntil =
        seconds 61 ∧
      (Steps.run (step (seconds 1000) 600) (init 0) bannedCalls).granted = [(seconds 100, 2)] := by
  decide

end

end CtaManager.Candles
