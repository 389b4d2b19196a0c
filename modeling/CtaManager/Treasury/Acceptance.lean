import CtaManager.Treasury.LimiterRuns

/-!
The room a granted convert quote leaves for its acceptance.

`reserve` grants a quote only with headroom for accepting it, but what is granted is one
list per pool for all accounts of the egress.  So the acceptance finds the room taken by
what was granted on the pool in between, the acceptance of another quote included.
-/

namespace CtaManager.Treasury

open Check SlidingWindow

/-- The two convert products. -/
inductive Convert
  | usdM
  | sapi
  deriving DecidableEq, Repr

namespace Convert

def quotePath : Convert → String
  | usdM => "/fapi/v1/convert/getQuote"
  | sapi => "/sapi/v1/convert/getQuote"

def acceptPath : Convert → String
  | usdM => "/fapi/v1/convert/acceptQuote"
  | sapi => "/sapi/v1/convert/acceptQuote"

def pool : Convert → Pool
  | usdM => .futures
  | sapi => .sapiAccount

def quoteWeight : Convert → Nat
  | usdM => 50
  | sapi => 200

def acceptWeight : Convert → Nat
  | usdM => 200
  | sapi => 500

theorem cost_quote (convert : Convert) (method : Method) :
    cost method convert.quotePath = .ok (convert.pool, convert.quoteWeight) := by
  cases convert <;> rfl

theorem cost_accept (convert : Convert) (method : Method) :
    cost method convert.acceptPath = .ok (convert.pool, convert.acceptWeight) := by
  cases convert <;> rfl

/-- The headroom of a quote is the weight of its acceptance. -/
theorem headroom_quote (convert : Convert) :
    State.headroom convert.quotePath = convert.acceptWeight := by
  cases convert <;> rfl

theorem headroom_accept (convert : Convert) : State.headroom convert.acceptPath = 0 := by
  cases convert <;> rfl

theorem not_isQuote_accept (convert : Convert) : State.isQuote convert.acceptPath = false := by
  cases convert <;> decide

theorem not_isEarnWrite_accept (convert : Convert) (method : Method) :
    State.isEarnWrite method convert.acceptPath = false := by
  have hpath : Text.startsWith convert.acceptPath "/sapi/v1/simple-earn/" = false := by
    cases convert <;> decide +kernel
  unfold State.isEarnWrite
  rw [hpath, Bool.and_false]

end Convert

/-! ## Weights of a window -/

namespace Window

def grant (window : Window) (entries : List (Nat × Nat)) : Window :=
  { window with reservations := window.reservations ++ entries }

@[simp] theorem grant_nil (window : Window) : window.grant [] = window := by
  unfold grant
  rw [List.append_nil]

@[simp] theorem grant_grant (window : Window) (l l' : List (Nat × Nat)) :
    (window.grant l).grant l' = window.grant (l ++ l') := by
  unfold grant
  rw [List.append_assoc]

theorem prune_grant (window : Window) (entries : List (Nat × Nat)) (now : Nat) :
    (window.grant entries).prune now =
      (window.prune now).grant (kept Prod.fst (seconds 60) now entries) := by
  unfold grant prune kept
  rw [List.filter_append]

theorem foldl_max_le {l : List Nat} {start b : Nat} (hstart : start ≤ b) (h : ∀ a ∈ l, a ≤ b) :
    l.foldl max start ≤ b := by
  induction l generalizing start with
  | nil => exact hstart
  | cons a l ih =>
    rw [List.forall_mem_cons] at h
    exact ih (max_le hstart h.1) h.2

theorem sum_filter_le (p : Nat × Nat → Bool) (l : List (Nat × Nat)) :
    ((l.filter p).map Prod.snd).sum ≤ (l.map Prod.snd).sum :=
  List.Sublist.sum_le_sum ((List.filter_sublist).map _) fun _ _ => Nat.zero_le _

theorem saturatingAdd_add_le (a b c : Nat) : saturatingAdd a (b + c) ≤ saturatingAdd a b + c := by
  unfold saturatingAdd
  omega

theorem saturatingAdd_mono {a b c : Nat} (h : b ≤ c) : saturatingAdd a b ≤ saturatingAdd a c := by
  unfold saturatingAdd
  omega

/-- The weight reserved after an instant. -/
def reservedAfter (window : Window) (at_ : Nat) : Nat :=
  ((window.reservations.filter fun p => decide (at_ < p.1)).map Prod.snd).sum

theorem reserved_le_weight (window : Window) :
    (window.reservations.map Prod.snd).sum ≤ window.weight := Nat.le_max_left _ _

theorem reported_le_weight (window : Window) {o : Nat × Nat} (ho : o ∈ window.observations) :
    saturatingAdd o.2 (window.reservedAfter o.1) ≤ window.weight := by
  have hle := (LimitLog.le_foldl_max (window.observations.map fun o =>
    saturatingAdd o.2 (window.reservedAfter o.1)) 0).2 _ (List.mem_map_of_mem ho)
  exact hle.trans (Nat.le_max_right _ _)

/-- The weight in use is the least bound of the reservations and the reports. -/
theorem weight_le {window : Window} {b : Nat} (hlocal : (window.reservations.map Prod.snd).sum ≤ b)
    (hreported : ∀ o ∈ window.observations, saturatingAdd o.2 (window.reservedAfter o.1) ≤ b) :
    window.weight ≤ b := by
  refine max_le hlocal (foldl_max_le (Nat.zero_le _) fun a ha => ?_)
  obtain ⟨o, ho, rfl⟩ := List.mem_map.1 ha
  exact hreported o ho

/-- What is granted on top adds at most its own weight. -/
theorem weight_grant_le (window : Window) (entries : List (Nat × Nat)) :
    (window.grant entries).weight ≤ window.weight + (entries.map Prod.snd).sum := by
  apply weight_le
  · show ((window.reservations ++ entries).map Prod.snd).sum ≤ _
    rw [List.map_append, List.sum_append]
    exact Nat.add_le_add_right window.reserved_le_weight _
  · intro o ho
    have hafter : (window.grant entries).reservedAfter o.1 =
        window.reservedAfter o.1 +
          ((entries.filter fun p => decide (o.1 < p.1)).map Prod.snd).sum := by
      unfold reservedAfter grant
      rw [List.filter_append, List.map_append, List.sum_append]
    have hold := window.reported_le_weight ho
    have hnew := sum_filter_le (fun p => decide (o.1 < p.1)) entries
    rw [hafter]
    exact (saturatingAdd_add_le _ _ _).trans (Nat.add_le_add hold hnew)

/-- What grows old takes weight away. -/
theorem weight_prune_le (window : Window) (now : Nat) :
    (window.prune now).weight ≤ window.weight := by
  apply weight_le
  · exact (sum_filter_le _ _).trans window.reserved_le_weight
  · intro o ho
    have hsum : (window.prune now).reservedAfter o.1 ≤ window.reservedAfter o.1 := by
      refine List.Sublist.sum_le_sum (List.Sublist.map _ ?_) fun _ _ => Nat.zero_le _
      exact (List.filter_sublist).filter _
    exact (saturatingAdd_mono hsum).trans (window.reported_le_weight (List.mem_of_mem_filter ho))

end Window

/-! ## Reservations after one another -/

/-- A reservation of some account of the egress. -/
structure Reservation where
  at_ : Nat
  method : Method
  path : String

namespace State

def reserveAll (state : State) : List Reservation → State
  | [] => state
  | r :: rest => reserveAll (state.reserve r.method r.path r.at_).1 rest

/-- What one reservation books on a pool: nothing if it is refused. -/
def booked (pool : Pool) (state : State) (r : Reservation) : List (Nat × Nat) :=
  match (state.reserve r.method r.path r.at_).2, cost r.method r.path with
  | .ok (), .ok (p, weight) => if p = pool then [(r.at_, weight)] else []
  | _, _ => []

/-- What a sequence of reservations books on a pool. -/
def bookedAll (pool : Pool) (state : State) : List Reservation → List (Nat × Nat)
  | [] => []
  | r :: rest => booked pool state r ++ bookedAll pool (state.reserve r.method r.path r.at_).1 rest

/-- One reservation adds to a pool what it books, and leaves the cooldown. -/
theorem reserve_window (state : State) (r : Reservation) (pool : Pool) {now : Nat}
    (h : r.at_ ≤ now) :
    (((state.reserve r.method r.path r.at_).1.windows pool).prune now =
        ((state.windows pool).grant (booked pool state r)).prune now) ∧
      (state.reserve r.method r.path r.at_).1.cooldown = state.cooldown := by
  have hreserved := state.reserve_reserved r.method r.path r.at_
  unfold booked
  generalize state.reserve r.method r.path r.at_ = reply at hreserved
  cases hreserved with
  | refused state' e hsame =>
    refine ⟨?_, hsame.cooldown⟩
    rw [Window.grant_nil]
    exact (hsame.mono h).windows pool
  | granted state' p weight hcost hready _ _ _ hwindows hcooldown _ _ =>
    refine ⟨?_, hcooldown⟩
    rw [hcost]
    show (state'.windows pool).prune now =
      ((state.windows pool).grant (if p = pool then [(r.at_, weight)] else [])).prune now
    rw [hwindows]
    by_cases hp : p = pool
    · subst hp
      rw [Function.update_self, if_pos rfl]
      show (((state.windows p).prune r.at_).grant [(r.at_, weight)]).prune now = _
      rw [Window.prune_grant, Window.prune_grant, Same.prune_prune h]
    · rw [Function.update_of_ne (Ne.symm hp), if_neg hp, Window.grant_nil]

/-- A run adds to a pool what its reservations book. -/
theorem reserveAll_window (state : State) (calls : List Reservation) (pool : Pool) {now : Nat}
    (h : ∀ r ∈ calls, r.at_ ≤ now) :
    ((state.reserveAll calls).windows pool).prune now =
        ((state.windows pool).grant (bookedAll pool state calls)).prune now ∧
      (state.reserveAll calls).cooldown = state.cooldown := by
  induction calls generalizing state with
  | nil => exact ⟨by rw [bookedAll, Window.grant_nil]; rfl, rfl⟩
  | cons r rest ih =>
    rw [List.forall_mem_cons] at h
    obtain ⟨hwindow, hcooldown⟩ := reserve_window state r pool h.1
    obtain ⟨hrest, hkept⟩ := ih (state.reserve r.method r.path r.at_).1 h.2
    refine ⟨?_, hkept.trans hcooldown⟩
    show ((reserveAll _ rest).windows pool).prune now = _
    rw [hrest, Window.prune_grant, hwindow, bookedAll, ← Window.grant_grant,
      Window.prune_grant ((state.windows pool).grant _)]

/-! ## Accepting a quote -/

theorem saturatingAdd_le_iff {a b limit : Nat} (h : limit < maxU32) :
    saturatingAdd (saturatingAdd a b) 0 ≤ limit ↔ a + b ≤ limit := by
  unfold saturatingAdd
  omega

/-- The reply to an acceptance once the egress is not cooling down. -/
theorem reserve_accept_iff (convert : Convert) (state : State) (method : Method) {now : Nat}
    (hready : ∀ at_, state.cooldown = some at_ → at_ ≤ now) :
    (state.reserve method convert.acceptPath now).2 = .ok () ↔
      ((state.windows convert.pool).prune now).weight + convert.acceptWeight ≤ convert.pool.limit := by
  have hlimit := LimitLog.limit_lt convert.pool
  rw [reserve_snd]
  unfold verdict
  rw [ready_eq_ok.2 hready, ok_bind, convert.cost_accept method, ok_bind,
    convert.not_isQuote_accept, convert.not_isEarnWrite_accept method, convert.headroom_accept]
  show (ensure _ _ : Except LimitError Unit) = .ok () ↔ _
  rw [ensure_eq_ok, Bool.not_eq_true', decide_eq_false_iff_not, not_lt]
  exact saturatingAdd_le_iff hlimit

/-- A granted quote left the weight of its acceptance free. -/
theorem quote_room (convert : Convert) (state : State) (method : Method) {now : Nat}
    (hquote : (state.reserve method convert.quotePath now).2 = .ok ()) :
    (∀ at_, state.cooldown = some at_ → at_ ≤ now) ∧
      ((state.windows convert.pool).prune now).weight + convert.quoteWeight +
        convert.acceptWeight ≤ convert.pool.limit := by
  have hreserved := state.reserve_reserved method convert.quotePath now
  generalize state.reserve method convert.quotePath now = reply at hquote hreserved
  cases hreserved with
  | refused => cases hquote
  | granted state' pool weight hcost hready _ _ hweight _ _ _ _ =>
    rw [convert.cost_quote method] at hcost
    obtain ⟨rfl, rfl⟩ := Prod.mk.inj (Except.ok.inj hcost)
    rw [convert.headroom_quote] at hweight
    exact ⟨hready, LimitLog.add_le_of_saturatingAdd (LimitLog.limit_lt _) hweight⟩

end State

/-- What the pool's window holds at `now`, when a quote was granted at `quotedAt` and
`between` was booked since. -/
def Convert.windowAfter (convert : Convert) (state : State) (quotedAt : Nat)
    (between : List (Nat × Nat)) (now : Nat) : Window :=
  ((state.windows convert.pool).grant ((quotedAt, convert.quoteWeight) :: between)).prune now

/-- The weight a quote leaves free besides its own and its acceptance's. -/
def Convert.room (convert : Convert) (state : State) (quotedAt : Nat) : Nat :=
  convert.pool.limit -
    (((state.windows convert.pool).prune quotedAt).weight + convert.quoteWeight +
      convert.acceptWeight)

/-- What is booked in between, within the room, leaves the acceptance its weight. -/
theorem weight_windowAfter_le (convert : Convert) (state : State) {quotedAt now : Nat}
    (hnow : quotedAt ≤ now) (between : List (Nat × Nat)) :
    (convert.windowAfter state quotedAt between now).weight ≤
      ((state.windows convert.pool).prune quotedAt).weight + convert.quoteWeight +
        (between.map Prod.snd).sum := by
  unfold Convert.windowAfter
  rw [Window.prune_grant, ← Same.prune_prune hnow, ← Window.prune_grant]
  refine (Window.weight_prune_le _ now).trans ((Window.weight_grant_le _ _).trans ?_)
  rw [List.map_cons, List.sum_cons]
  omega

/-- An acceptance is granted exactly if the weight in use leaves its own.  What the quote
left free can be booked in between. -/
theorem acceptQuote_granted_iff (convert : Convert) (state : State) (method acceptMethod : Method)
    (quotedAt now : Nat) (between : List Reservation)
    (hquote : (state.reserve method convert.quotePath quotedAt).2 = .ok ())
    (hnow : quotedAt ≤ now) (hbetween : ∀ r ∈ between, r.at_ ≤ now) :
    let quoted := (state.reserve method convert.quotePath quotedAt).1
    let booked := quoted.bookedAll convert.pool between
    let accepted := ((quoted.reserveAll between).reserve acceptMethod convert.acceptPath now).2
    (accepted = .ok () ↔
        (convert.windowAfter state quotedAt booked now).weight + convert.acceptWeight ≤
          convert.pool.limit) ∧
      ((booked.map Prod.snd).sum ≤ convert.room state quotedAt → accepted = .ok ()) := by
  intro quoted booked accepted
  obtain ⟨hready, hroom⟩ := State.quote_room convert state method hquote
  have hfirst : State.booked convert.pool state ⟨quotedAt, method, convert.quotePath⟩ =
      [(quotedAt, convert.quoteWeight)] := by
    unfold State.booked
    simp only [hquote, convert.cost_quote method, if_true]
  obtain ⟨hwindow, hcooldown⟩ := State.reserveAll_window state
    (⟨quotedAt, method, convert.quotePath⟩ :: between) convert.pool
    (List.forall_mem_cons.2 ⟨hnow, hbetween⟩)
  have hall : State.bookedAll convert.pool state (⟨quotedAt, method, convert.quotePath⟩ :: between) =
      (quotedAt, convert.quoteWeight) :: booked := by
    show State.booked _ _ _ ++ booked = _
    rw [hfirst]
    rfl
  rw [hall] at hwindow
  have hiff := State.reserve_accept_iff convert (quoted.reserveAll between) acceptMethod
    (fun at_ hat => (hready at_ (hcooldown ▸ hat)).trans hnow)
  rw [show ((quoted.reserveAll between).windows convert.pool).prune now =
    convert.windowAfter state quotedAt booked now from hwindow] at hiff
  refine ⟨hiff, fun hbooked => hiff.2 ?_⟩
  have hle := weight_windowAfter_le convert state hnow booked
  unfold Convert.room at hbooked
  omega

section

/-- Another client of the address has used 1550 of the minute. -/
def busyResponse : Response where
  status := 200
  headers name := if name = "x-mbx-used-weight-1m" then some "1550" else none

/-- After a margin read and its response. -/
def busy : State :=
  ((State.init.reserve .get "/fapi/v2/account" 0).1.observe (seconds 86400) .get "/fapi/v2/account"
    busyResponse 0).1

/-- A margin read, which does not wait for the treasury round. -/
def marginRead : List Reservation := [⟨seconds 2, .get, "/fapi/v2/account"⟩]

/-- A granted quote that cannot be accepted two seconds later. -/
theorem acceptQuote_refused :
    (busy.reserve .post "/fapi/v1/convert/getQuote" (seconds 1)).2 = .ok () ∧
      ((((busy.reserve .post "/fapi/v1/convert/getQuote" (seconds 1)).1.reserveAll
          marginRead).reserve .post "/fapi/v1/convert/acceptQuote" (seconds 3)).2 =
        .error (.weightBudgetExhausted .post "/fapi/v1/convert/acceptQuote" .futures 1605 200 0
          1800)) := by
  decide +kernel

/-- With room left it is accepted after the same margin read. -/
theorem acceptQuote_granted_roomy :
    (((State.init.reserve .post Convert.usdM.quotePath (seconds 1)).1.reserveAll
      marginRead).reserve .post Convert.usdM.acceptPath (seconds 3)).2 = .ok () :=
  (acceptQuote_granted_iff .usdM State.init .post .post (seconds 1) (seconds 3) marginRead
    (by decide +kernel) (by decide)
    (fun r hr => by rw [List.mem_singleton.1 hr]; decide)).2 (by decide +kernel)

end

end CtaManager.Treasury
