import CtaManager.Treasury.RateLimit
import CtaManager.Library.Steps

/-!
The limiter over any run of calls at non-decreasing instants.

What was granted, observed and asked for is a log (`LimitLog`).  A limiter that never
forgets an entry (`LimitLog.state`) answers as the one that prunes (`Same`), so a
grant is what the whole log allows (`Allowed`), and a refusal leaves no trace.
-/

namespace CtaManager.Treasury

open Check SlidingWindow

/-! ## Calls and their log -/

inductive LimitRequest
  | reserve (method : Method) (path : String)
  | observe (method : Method) (path : String) (response : Response)

structure LimitCall where
  at_ : Nat
  request : LimitRequest

structure Grant where
  method : Method
  path : String
  pool : Pool
  weight : Nat
  at_ : Nat
  deriving DecidableEq

/-- The weight a response reported. -/
structure Observation where
  pool : Pool
  at_ : Nat
  used : Nat
  deriving DecidableEq

/-- What happened, in call order. -/
structure LimitLog where
  grants : List Grant
  observed : List Observation
  /-- The instants throttled responses asked to wait for. -/
  asked : List Nat

namespace LimitLog

def empty : LimitLog := { grants := [], observed := [], asked := [] }

/-- The grants of a pool. -/
def granted (log : LimitLog) (pool : Pool) : List Grant :=
  log.grants.filter fun g => decide (g.pool = pool)

def quotes (log : LimitLog) : List Grant := log.grants.filter fun g => State.isQuote g.path

def earnWrites (log : LimitLog) : List Grant :=
  log.grants.filter fun g => State.isEarnWrite g.method g.path

def addGrant (log : LimitLog) (g : Grant) : LimitLog := { log with grants := log.grants ++ [g] }

/-- What a response adds: the weight it reports and the instant it asks for. -/
def addResponse (log : LimitLog) (maxInstant : Nat) (pool : Pool) (response : Response)
    (now : Nat) : LimitLog :=
  { log with
    observed := log.observed ++
      (((response.headers pool.header).bind (parseUnsigned maxU32)).map fun used =>
        { pool, at_ := now, used }).toList
    asked := log.asked ++
      if State.throttled response.status then [State.retryUntil maxInstant response now] else [] }

/-- What a call adds. -/
def record (log : LimitLog) (maxInstant : Nat) (call : LimitCall)
    (reply : Except LimitError Unit) : LimitLog :=
  match call.request with
  | .reserve method path =>
    match reply, cost method path with
    | .ok (), .ok (pool, weight) => log.addGrant { method, path, pool, weight, at_ := call.at_ }
    | _, _ => log
  | .observe method path response =>
    match cost method path with
    | .ok (pool, _) => log.addResponse maxInstant pool response call.at_
    | .error _ => log

/-- The limiter that forgets nothing. -/
def state (log : LimitLog) : State where
  windows := fun pool =>
    { reservations := (log.granted pool).map fun g => (g.at_, g.weight)
      observations := (log.observed.filter fun o => decide (o.pool = pool)).map
        fun o => (o.at_, o.used) }
  cooldown := log.asked.foldl (fun cooldown until_ =>
    some (match cooldown with | none => until_ | some old => max old until_)) none
  lastEarnWrite := log.earnWrites.getLast?.map Grant.at_
  futuresQuotes := log.quotes.map Grant.at_

end LimitLog

namespace State

def call (maxInstant : Nat) (state : State) (c : LimitCall) : State × Except LimitError Unit :=
  match c.request with
  | .reserve method path => state.reserve method path c.at_
  | .observe method path response => state.observe maxInstant method path response c.at_

def step (maxInstant : Nat) (s : State × LimitLog) (c : LimitCall) : State × LimitLog :=
  ((s.1.call maxInstant c).1, s.2.record maxInstant c (s.1.call maxInstant c).2)

/-- The replies of a run. -/
def replies (maxInstant : Nat) : State → List LimitCall → List (Except LimitError Unit)
  | _, [] => []
  | state, c :: calls =>
    (state.call maxInstant c).2 :: replies maxInstant (state.call maxInstant c).1 calls

end State

/-! ## Limiters that differ in forgotten entries only -/

/-- The same limiter from `now` on. -/
structure Same (now : Nat) (s t : State) : Prop where
  windows : ∀ pool, (s.windows pool).prune now = (t.windows pool).prune now
  cooldown : s.cooldown = t.cooldown
  lastEarnWrite : s.lastEarnWrite = t.lastEarnWrite
  futuresQuotes : kept id (seconds 86400) now s.futuresQuotes =
    kept id (seconds 86400) now t.futuresQuotes

namespace Same

theorem refl (now : Nat) (s : State) : Same now s s := ⟨fun _ => rfl, rfl, rfl, rfl⟩

theorem symm {now : Nat} {s t : State} (h : Same now s t) : Same now t s :=
  ⟨fun pool => (h.windows pool).symm, h.cooldown.symm, h.lastEarnWrite.symm, h.futuresQuotes.symm⟩

theorem trans {now : Nat} {s t u : State} (h : Same now s t) (h' : Same now t u) : Same now s u :=
  ⟨fun pool => (h.windows pool).trans (h'.windows pool), h.cooldown.trans h'.cooldown,
    h.lastEarnWrite.trans h'.lastEarnWrite, h.futuresQuotes.trans h'.futuresQuotes⟩

theorem prune_prune {now later : Nat} (h : now ≤ later) (window : Window) :
    (window.prune now).prune later = window.prune later := by
  have hr := kept_kept Prod.fst h (le_refl (seconds 60)) window.reservations
  have ho := kept_kept Prod.fst h (le_refl (seconds 60)) window.observations
  unfold kept at hr ho
  unfold Window.prune
  simp only [hr, ho]

theorem mono {now later : Nat} {s t : State} (hle : now ≤ later) (h : Same now s t) :
    Same later s t := by
  refine ⟨fun pool => ?_, h.cooldown, h.lastEarnWrite, ?_⟩
  · rw [← prune_prune hle, h.windows, prune_prune hle]
  · rw [← kept_kept id hle le_rfl, h.futuresQuotes, kept_kept id hle le_rfl]

theorem setWindow {now : Nat} {s t : State} (h : Same now s t) (pool : Pool) {w w' : Window}
    (hw : w.prune now = w'.prune now) : Same now (s.setWindow pool w) (t.setWindow pool w') := by
  refine ⟨fun other => ?_, h.cooldown, h.lastEarnWrite, h.futuresQuotes⟩
  unfold State.setWindow
  by_cases hp : other = pool
  · subst hp
    simp only [Function.update_self]
    exact hw
  · simp only [Function.update_of_ne hp]
    exact h.windows other

theorem setWindow_self {now : Nat} (s : State) (pool : Pool) {w : Window}
    (hw : w.prune now = (s.windows pool).prune now) : Same now (s.setWindow pool w) s := by
  refine ⟨fun other => ?_, rfl, rfl, rfl⟩
  unfold State.setWindow
  by_cases hp : other = pool
  · subst hp
    simp only [Function.update_self]
    exact hw
  · simp only [Function.update_of_ne hp]

theorem pruneQuotes {now : Nat} (s : State) :
    Same now { s with futuresQuotes := kept id (seconds 86400) now s.futuresQuotes } s :=
  ⟨fun _ => rfl, rfl, rfl, kept_kept id le_rfl le_rfl _⟩

end Same

/-! ## One reservation -/

namespace State

/-- The two quote windows are full. -/
def quotesFull (quotes : List Nat) (now : Nat) : Bool :=
  decide (500 ≤ quotes.length) ||
    decide (360 ≤ (quotes.filter fun at_ => decide (now - at_ < seconds 3600)).length)

/-- A refused or granted reservation. -/
inductive Reserved (s : State) (method : Method) (path : String) (now : Nat) :
    State × Except LimitError Unit → Prop
  | refused (state : State) (e : LimitError) (hsame : Same now state s) :
    Reserved s method path now (state, .error e)
  | granted (state : State) (pool : Pool) (weight : Nat) (hcost : cost method path = .ok (pool, weight))
    (hready : ∀ at_, s.cooldown = some at_ → at_ ≤ now)
    (hquotes : isQuote path = true →
      quotesFull (kept id (seconds 86400) now s.futuresQuotes) now = false)
    (hearn : isEarnWrite method path = true → ∀ at_, s.lastEarnWrite = some at_ →
      seconds 3 ≤ now - at_)
    (hweight : saturatingAdd (saturatingAdd ((s.windows pool).prune now).weight weight)
      (headroom path) ≤ pool.limit)
    (hwindows : state.windows = Function.update s.windows pool
      { (s.windows pool).prune now with
        reservations := ((s.windows pool).prune now).reservations ++ [(now, weight)] })
    (hcooldown : state.cooldown = s.cooldown)
    (hlast : state.lastEarnWrite =
      if isEarnWrite method path then some now else s.lastEarnWrite)
    (hfutures : state.futuresQuotes = kept id (seconds 86400) now s.futuresQuotes ++
      if isQuote path then [now] else []) :
    Reserved s method path now (state, .ok ())

theorem ready_eq_ok {s : State} {now : Nat} :
    s.ready now = .ok () ↔ ∀ at_, s.cooldown = some at_ → at_ ≤ now := by
  unfold ready
  rw [ensure_eq_ok]
  cases s.cooldown with
  | none => simp
  | some at_ => simp

theorem reserve_reserved (s : State) (method : Method) (path : String) (now : Nat) :
    Reserved s method path now (s.reserve method path now) := by
  unfold reserve
  cases hready : s.ready now with
  | error e => exact .refused _ _ (Same.refl now s)
  | ok u =>
    cases hcost : cost method path with
    | error e => exact .refused _ _ (Same.refl now s)
    | ok p =>
      obtain ⟨pool, weight⟩ := p
      simp only
      have hkept : (s.futuresQuotes.filter fun at_ => decide (now - at_ < seconds 86400)) =
          kept id (seconds 86400) now s.futuresQuotes := rfl
      rw [hkept]
      have hfull : (decide (500 ≤ (kept id (seconds 86400) now s.futuresQuotes).length) ||
          decide (360 ≤ ((kept id (seconds 86400) now s.futuresQuotes).filter fun at_ =>
            decide (now - at_ < seconds 3600)).length)) =
          quotesFull (kept id (seconds 86400) now s.futuresQuotes) now := rfl
      rw [hfull]
      by_cases hquote : (isQuote path &&
          quotesFull (kept id (seconds 86400) now s.futuresQuotes) now) = true
      · rw [if_pos hquote]
        exact .refused _ _ (Same.pruneQuotes s)
      rw [if_neg hquote]
      by_cases hearn : (isEarnWrite method path &&
          s.lastEarnWrite.any fun at_ => decide (now - at_ < seconds 3)) = true
      · rw [if_pos hearn]
        exact .refused _ _ (Same.pruneQuotes s)
      rw [if_neg hearn]
      unfold Window.used
      simp only
      by_cases hlimit : decide (pool.limit < saturatingAdd (saturatingAdd
          ((s.windows pool).prune now).weight weight) (headroom path)) = true
      · rw [if_pos hlimit]
        exact .refused _ _ ((Same.pruneQuotes s).setWindow pool (Same.prune_prune le_rfl _) |>.trans
          (Same.setWindow_self s pool rfl))
      · rw [if_neg hlimit]
        refine .granted _ pool weight hcost (ready_eq_ok.1 hready) ?_ ?_ (by simpa using hlimit) ?_ rfl rfl ?_
        · intro hq
          rw [hq, Bool.true_and] at hquote
          exact Bool.eq_false_iff.2 hquote
        · intro he at_ hat
          rw [he, Bool.true_and, hat, Option.any_some, decide_eq_true_eq] at hearn
          omega
        · unfold setWindow
          simp only [Function.update_idem]
        · cases isQuote path with
          | true => rfl
          | false => exact (List.append_nil _).symm

/-- The reply of `reserve` alone. -/
def verdict (s : State) (method : Method) (path : String) (now : Nat) :
    Except LimitError Unit := do
  s.ready now
  let p ← cost method path
  ensure (!(isQuote path && quotesFull (kept id (seconds 86400) now s.futuresQuotes) now))
    .quoteBudgetExhausted
  ensure (!(isEarnWrite method path &&
      s.lastEarnWrite.any fun at_ => decide (now - at_ < seconds 3))) .earnWriteCooldown
  let used := ((s.windows p.1).prune now).weight
  ensure (!decide (p.1.limit < saturatingAdd (saturatingAdd used p.2) (headroom path)))
    (.weightBudgetExhausted method path p.1 used p.2 (headroom path) p.1.limit)

theorem reserve_snd (s : State) (method : Method) (path : String) (now : Nat) :
    (s.reserve method path now).2 = s.verdict method path now := by
  unfold reserve verdict
  cases s.ready now with
  | error e => rfl
  | ok u =>
    cases cost method path with
    | error e => rfl
    | ok p =>
      obtain ⟨pool, weight⟩ := p
      simp only [ok_bind]
      by_cases hquote : (isQuote path &&
          quotesFull (kept id (seconds 86400) now s.futuresQuotes) now) = true
      · rw [hquote]
        exact congrArg Prod.snd (if_pos hquote)
      by_cases hearn : (isEarnWrite method path &&
          s.lastEarnWrite.any fun at_ => decide (now - at_ < seconds 3)) = true
      · rw [Bool.eq_false_iff.2 hquote, hearn]
        refine (congrArg Prod.snd (if_neg hquote)).trans ?_
        exact congrArg Prod.snd (if_pos rfl)
      rw [Bool.eq_false_iff.2 hquote, Bool.eq_false_iff.2 hearn]
      refine (congrArg Prod.snd (if_neg hquote)).trans ?_
      refine (congrArg Prod.snd (if_neg Bool.false_ne_true)).trans ?_
      by_cases hlimit : decide (pool.limit < saturatingAdd (saturatingAdd
          ((s.windows pool).prune now).weight weight) (headroom path)) = true
      · rw [hlimit]
        exact congrArg Prod.snd (if_pos hlimit)
      · rw [Bool.eq_false_iff.2 hlimit]
        exact congrArg Prod.snd (if_neg hlimit)

/-- Limiters that differ in forgotten entries only give the same reply. -/
theorem reserve_reply {now : Nat} {s t : State} (h : Same now s t) (method : Method)
    (path : String) : (s.reserve method path now).2 = (t.reserve method path now).2 := by
  have hready : s.ready now = t.ready now := by
    unfold ready
    rw [h.cooldown]
  rw [reserve_snd, reserve_snd]
  unfold verdict
  rw [hready, h.futuresQuotes, h.lastEarnWrite]
  congr 1
  funext _
  congr 1
  funext p
  rw [h.windows p.1]

/-- They stay so. -/
theorem reserve_same {now : Nat} {s t : State} (h : Same now s t) (method : Method)
    (path : String) : Same now (s.reserve method path now).1 (t.reserve method path now).1 := by
  have hreply := reserve_reply h method path
  have hs := s.reserve_reserved method path now
  have ht := t.reserve_reserved method path now
  generalize s.reserve method path now = rs at hreply hs
  generalize t.reserve method path now = rt at hreply ht
  cases hs with
  | refused s' e hs' =>
    cases ht with
    | refused t' e' ht' => exact hs'.trans (h.trans ht'.symm)
    | granted => cases hreply
  | granted s' pool weight hcost _ _ _ _ hwindows hcooldown hlast hfutures =>
    cases ht with
    | refused => cases hreply
    | granted t' pool' weight' hcost' _ _ _ _ hwindows' hcooldown' hlast' hfutures' =>
      obtain ⟨rfl, rfl⟩ := Prod.mk.inj (Except.ok.inj (hcost.symm.trans hcost'))
      refine ⟨fun other => ?_, ?_, ?_, ?_⟩
      · show (s'.windows other).prune now = (t'.windows other).prune now
        rw [hwindows, hwindows', h.windows pool]
        by_cases hp : other = pool
        · subst hp
          rw [Function.update_self, Function.update_self]
        · rw [Function.update_of_ne hp, Function.update_of_ne hp]
          exact h.windows other
      · rw [hcooldown, hcooldown', h.cooldown]
      · rw [hlast, hlast', h.lastEarnWrite]
      · show kept _ _ _ s'.futuresQuotes = kept _ _ _ t'.futuresQuotes
        rw [hfutures, hfutures', h.futuresQuotes]

theorem observeUsage_same {now : Nat} {s t : State} (h : Same now s t) (pool : Pool)
    (response : Response) :
    Same now (s.observeUsage pool response now) (t.observeUsage pool response now) := by
  unfold observeUsage
  cases (response.headers pool.header).bind (parseUnsigned maxU32) with
  | none => exact h
  | some used =>
    refine h.setWindow pool ?_
    have hw := h.windows pool
    unfold Window.prune at hw ⊢
    obtain ⟨hr, ho⟩ := Window.mk.inj hw
    simp only [hr, ho]

theorem observe_same {maxInstant now : Nat} {s t : State} (h : Same now s t) (method : Method)
    (path : String) (response : Response) :
    (s.observe maxInstant method path response now).2 =
        (t.observe maxInstant method path response now).2 ∧
      Same now (s.observe maxInstant method path response now).1
        (t.observe maxInstant method path response now).1 := by
  unfold observe
  cases cost method path with
  | error e => exact ⟨rfl, h⟩
  | ok p =>
    have hu := observeUsage_same h p.1 response
    refine ⟨rfl, ?_⟩
    show Same now ((s.observeUsage p.1 response now).observeThrottle maxInstant response now)
      ((t.observeUsage p.1 response now).observeThrottle maxInstant response now)
    unfold observeThrottle
    by_cases hthrottled : throttled response.status = true
    · rw [if_pos hthrottled, if_pos hthrottled]
      refine ⟨hu.windows, ?_, hu.lastEarnWrite, hu.futuresQuotes⟩
      simp only [hu.cooldown]
    · rw [if_neg hthrottled, if_neg hthrottled]
      exact hu

/-- Limiters that differ in forgotten entries only answer any call alike. -/
theorem call_same (maxInstant : Nat) {c : LimitCall} {s t : State} (h : Same c.at_ s t) :
    (s.call maxInstant c).2 = (t.call maxInstant c).2 ∧
      Same c.at_ (s.call maxInstant c).1 (t.call maxInstant c).1 := by
  unfold call
  cases c.request with
  | reserve method path => exact ⟨reserve_reply h method path, reserve_same h method path⟩
  | observe method path response => exact observe_same h method path response

/-- And any run of calls from then on. -/
theorem replies_same {maxInstant now : Nat} {s t : State} (h : Same now s t)
    {calls : List LimitCall} (hsorted : (now :: calls.map LimitCall.at_).Pairwise (· ≤ ·)) :
    s.replies maxInstant calls = t.replies maxInstant calls := by
  induction calls generalizing now s t with
  | nil => rfl
  | cons c calls ih =>
    obtain ⟨hfirst, hrest⟩ := List.pairwise_cons.1 hsorted
    have hc := h.mono (hfirst c.at_ List.mem_cons_self)
    obtain ⟨hreply, hnext⟩ := call_same maxInstant hc
    unfold replies
    rw [hreply, ih hnext hrest]

/-- A refused reservation changes no later reply. -/
theorem refused_no_effect {maxInstant now : Nat} (s : State) (method : Method) (path : String)
    {e : LimitError} (hrefused : (s.reserve method path now).2 = .error e)
    {calls : List LimitCall} (hsorted : (now :: calls.map LimitCall.at_).Pairwise (· ≤ ·)) :
    (s.reserve method path now).1.replies maxInstant calls = s.replies maxInstant calls := by
  have hreserved := s.reserve_reserved method path now
  generalize s.reserve method path now = r at hrefused hreserved
  cases hreserved with
  | refused state e' hsame => exact replies_same hsame hsorted
  | granted => cases hrefused

end State

/-! ## The limiter that forgets nothing -/

namespace LimitLog

/-- The cooldown covers every instant that was asked for. -/
theorem asked_le {log : LimitLog} {now : Nat} (h : ∀ at_, log.state.cooldown = some at_ → at_ ≤ now) :
    ∀ until_ ∈ log.asked, until_ ≤ now := by
  have hfold : ∀ (l : List Nat) (now : Nat),
      (∀ at_, l.foldl (fun cooldown until_ =>
        some (match cooldown with | none => until_ | some old => max old until_)) none = some at_ →
          at_ ≤ now) → ∀ until_ ∈ l, until_ ≤ now := by
    intro l
    induction l using List.reverseRecOn with
    | nil => exact fun _ _ _ h => absurd h List.not_mem_nil
    | append_singleton l u ih =>
      intro now hnow until_ hmem
      rw [List.foldl_append, List.foldl_cons, List.foldl_nil] at hnow
      cases hl : l.foldl (fun cooldown until_ =>
        some (match cooldown with | none => until_ | some old => max old until_)) none with
      | none =>
        rw [hl] at hnow
        have hu := hnow u rfl
        rcases List.mem_append.1 hmem with hmem | hmem
        · exact ih now (fun at_ hat => by rw [hl] at hat; cases hat) until_ hmem
        · rw [List.mem_singleton.1 hmem]
          exact hu
      | some old =>
        rw [hl] at hnow
        have hmax := hnow (max old u) rfl
        rcases List.mem_append.1 hmem with hmem | hmem
        · refine ih now (fun at_ hat => ?_) until_ hmem
          rw [hl] at hat
          obtain rfl := Option.some.inj hat
          exact (le_max_left _ _).trans hmax
        · rw [List.mem_singleton.1 hmem]
          exact (le_max_right _ _).trans hmax
  exact hfold log.asked now h

theorem le_foldl_max (l : List Nat) (start : Nat) :
    start ≤ l.foldl max start ∧ ∀ a ∈ l, a ≤ l.foldl max start := by
  induction l generalizing start with
  | nil => exact ⟨le_rfl, fun _ h => absurd h List.not_mem_nil⟩
  | cons b l ih =>
    obtain ⟨h1, h2⟩ := ih (max start b)
    refine ⟨(le_max_left _ _).trans h1, fun a ha => ?_⟩
    rcases List.mem_cons.1 ha with rfl | ha
    · exact (le_max_right _ _).trans h1
    · exact h2 a ha

theorem add_le_of_saturatingAdd {a b c limit : Nat} (hlimit : limit < maxU32)
    (h : saturatingAdd (saturatingAdd a b) c ≤ limit) : a + b + c ≤ limit := by
  unfold saturatingAdd at h
  omega

theorem limit_lt (pool : Pool) : pool.limit < maxU32 := by
  cases pool <;> decide

/-- What the weight in use covers: the grants of the last minute, and every report of
the last minute with the grants after it. -/
theorem le_weight (log : LimitLog) (pool : Pool) (now : Nat) :
    ((kept Grant.at_ (seconds 60) now (log.granted pool)).map Grant.weight).sum ≤
        ((log.state.windows pool).prune now).weight ∧
      ∀ o ∈ log.observed, o.pool = pool → now - o.at_ < seconds 60 →
        ((log.state.windows pool).prune now).weight < maxU32 →
        o.used + ((((log.granted pool).filter fun g => decide (o.at_ < g.at_))).map
          Grant.weight).sum ≤ ((log.state.windows pool).prune now).weight := by
  have hreservations : ((log.state.windows pool).prune now).reservations =
      (kept Grant.at_ (seconds 60) now (log.granted pool)).map fun g => (g.at_, g.weight) :=
    kept_map Prod.fst (fun g : Grant => (g.at_, g.weight)) _
  have hobservations : ((log.state.windows pool).prune now).observations =
      (kept Observation.at_ (seconds 60) now
        (log.observed.filter fun o => decide (o.pool = pool))).map fun o => (o.at_, o.used) :=
    kept_map Prod.fst (fun o : Observation => (o.at_, o.used)) _
  unfold Window.weight
  rw [hreservations, hobservations]
  simp only [List.map_map]
  constructor
  · exact le_max_left _ _
  · intro o ho hpool hyoung hsmall
    -- the grants after a young report are young
    have hafter : ((log.granted pool).filter fun g => decide (o.at_ < g.at_)) =
        (kept Grant.at_ (seconds 60) now (log.granted pool)).filter
          fun g => decide (o.at_ < g.at_) := by
      unfold kept
      rw [List.filter_filter]
      refine List.filter_congr fun g _ => ?_
      by_cases hg : o.at_ < g.at_
      · have : now - g.at_ < seconds 60 := by omega
        simp [hg, this]
      · simp [hg]
    have hmem : o ∈ kept Observation.at_ (seconds 60) now
        (log.observed.filter fun o => decide (o.pool = pool)) :=
      mem_kept.2 ⟨List.mem_filter.2 ⟨ho, by simpa using hpool⟩, hyoung⟩
    have hle := (le_foldl_max _ 0).2 _ (List.mem_map_of_mem (f := (fun x : Nat × Nat =>
      saturatingAdd x.2 (((((kept Grant.at_ (seconds 60) now (log.granted pool)).map
        fun g => (g.at_, g.weight)).filter fun p => decide (x.1 < p.1)).map Prod.snd).sum)) ∘
      fun o : Observation => (o.at_, o.used)) hmem)
    have hsum : ((((kept Grant.at_ (seconds 60) now (log.granted pool)).map
        fun g => (g.at_, g.weight)).filter fun p => decide (o.at_ < p.1)).map Prod.snd) =
        ((kept Grant.at_ (seconds 60) now (log.granted pool)).filter
          fun g => decide (o.at_ < g.at_)).map Grant.weight := by
      rw [List.filter_map, List.map_map]
      rfl
    simp only [Function.comp_apply, hsum, ← hafter] at hle
    have hext := hle.trans (le_max_right
      (((kept Grant.at_ (seconds 60) now (log.granted pool)).map (Prod.snd ∘ fun g : Grant =>
        (g.at_, g.weight))).sum) _)
    refine le_trans ?_ hext
    unfold saturatingAdd
    have hlt := hext.trans_lt hsmall
    unfold saturatingAdd at hlt
    omega

/-- The quotes of a log, by their instants. -/
theorem kept_quotes (log : LimitLog) (d now : Nat) :
    kept id d now log.state.futuresQuotes = (kept Grant.at_ d now log.quotes).map Grant.at_ :=
  kept_map id Grant.at_ _

theorem filter_addGrant (log : LimitLog) (g : Grant) (p : Grant → Bool) :
    (log.addGrant g).grants.filter p = log.grants.filter p ++ if p g then [g] else [] := by
  unfold addGrant
  rw [List.filter_append]
  cases hp : p g with
  | true => rw [List.filter_cons_of_pos hp, List.filter_nil]; rfl
  | false => rw [List.filter_cons_of_neg (by simp [hp]), List.filter_nil]; rfl

/-- A granted reservation leaves the limiter of the log with the grant. -/
theorem same_addGrant (log : LimitLog) {method : Method} {path : String} {now : Nat} {state : State}
    {pool : Pool} {weight : Nat}
    (hwindows : state.windows = Function.update log.state.windows pool
      { (log.state.windows pool).prune now with
        reservations := ((log.state.windows pool).prune now).reservations ++ [(now, weight)] })
    (hcooldown : state.cooldown = log.state.cooldown)
    (hlast : state.lastEarnWrite =
      if State.isEarnWrite method path then some now else log.state.lastEarnWrite)
    (hfutures : state.futuresQuotes = kept id (seconds 86400) now log.state.futuresQuotes ++
      if State.isQuote path then [now] else []) :
    Same now state (log.addGrant { method, path, pool, weight, at_ := now }).state := by
  refine ⟨fun other => ?_, hcooldown, ?_, ?_⟩
  · -- the window of the pool gets the grant, after pruning or before
    have hgranted : (log.addGrant { method, path, pool, weight, at_ := now }).granted other =
        log.granted other ++ if pool = other then
          [{ method, path, pool, weight, at_ := now }] else [] := by
      have := log.filter_addGrant { method, path, pool, weight, at_ := now }
        fun g => decide (g.pool = other)
      simp only [decide_eq_true_eq] at this
      exact this
    rw [hwindows]
    by_cases hp : other = pool
    · subst hp
      rw [if_pos rfl] at hgranted
      rw [Function.update_self]
      have hr := kept_kept Prod.fst (le_refl now) (le_refl (seconds 60))
        (log.state.windows other).reservations
      have ho := kept_kept Prod.fst (le_refl now) (le_refl (seconds 60))
        (log.state.windows other).observations
      unfold kept at hr ho
      show Window.mk _ _ = Window.mk _ _
      congr 1
      show ((((log.state.windows other).reservations.filter _) ++ [(now, weight)]).filter _) =
        ((((log.addGrant _).granted other).map _).filter _)
      rw [hgranted, List.map_append, List.filter_append, List.filter_append, hr]
      rfl
    · rw [if_neg fun h => hp h.symm, List.append_nil] at hgranted
      rw [Function.update_of_ne hp]
      show Window.prune { reservations := (log.granted other).map _, observations := _ } now = _
      rw [← hgranted]
      rfl
  · rw [hlast]
    have hearn := log.filter_addGrant { method, path, pool, weight, at_ := now }
      fun g => State.isEarnWrite g.method g.path
    show _ = (((log.addGrant _).grants.filter _).getLast?).map Grant.at_
    rw [hearn]
    cases State.isEarnWrite method path with
    | true =>
      rw [if_pos rfl, if_pos rfl, List.getLast?_append]
      rfl
    | false =>
      rw [if_neg Bool.false_ne_true, if_neg Bool.false_ne_true, List.append_nil]
      rfl
  · have hquotes := log.filter_addGrant { method, path, pool, weight, at_ := now }
      fun g => State.isQuote g.path
    rw [hfutures]
    show kept id (seconds 86400) now _ =
      kept id (seconds 86400) now (((log.addGrant _).grants.filter _).map Grant.at_)
    rw [hquotes, List.map_append, kept_append, kept_append, kept_kept id le_rfl le_rfl]
    cases State.isQuote path with
    | true => rfl
    | false => rfl

/-- A response leaves the limiter of the log with what it reports. -/
theorem same_addResponse (maxInstant : Nat) (log : LimitLog) (pool : Pool) (response : Response)
    (now : Nat) :
    Same now ((log.state.observeUsage pool response now).observeThrottle maxInstant response now)
      (log.addResponse maxInstant pool response now).state := by
  have hu : Same now (log.state.observeUsage pool response now)
      { (log.addResponse maxInstant pool response now).state with cooldown := log.state.cooldown } := by
    unfold State.observeUsage addResponse
    cases (response.headers pool.header).bind (parseUnsigned maxU32) with
    | none =>
      refine ⟨fun other => ?_, rfl, rfl, rfl⟩
      simp only [Option.map_none, Option.toList_none, List.append_nil]
      rfl
    | some used =>
      simp only [Option.map_some, Option.toList_some]
      refine ⟨fun other => ?_, rfl, rfl, rfl⟩
      unfold State.setWindow
      by_cases hp : other = pool
      · subst hp
        have ho := kept_kept Prod.fst (le_refl now) (le_refl (seconds 60))
          (log.state.windows other).observations
        unfold kept at ho
        simp only [Function.update_self]
        unfold Window.prune
        congr 1
        rw [List.filter_append, ho, ← List.filter_append]
        congr 1
        show (log.observed.filter _).map _ ++ [(now, used)] =
          ((log.observed ++ [_]).filter _).map _
        rw [List.filter_append, List.map_append, List.filter_cons_of_pos (by simp)]
        rfl
      · simp only [Function.update_of_ne hp]
        congr 1
        show Window.mk _ _ = Window.mk _ _
        congr 1
        rw [List.filter_append, List.filter_cons_of_neg (by simpa using fun h => hp h.symm),
          List.filter_nil, List.append_nil]
  unfold State.observeThrottle
  by_cases hthrottled : State.throttled response.status = true
  · rw [if_pos hthrottled]
    refine ⟨hu.windows, ?_, hu.lastEarnWrite, hu.futuresQuotes⟩
    show some _ = (log.addResponse maxInstant pool response now).asked.foldl _ none
    unfold addResponse
    rw [if_pos hthrottled, List.foldl_append, List.foldl_cons, List.foldl_nil]
    simp only [hu.cooldown]
    rfl
  · rw [if_neg hthrottled]
    refine ⟨hu.windows, ?_, hu.lastEarnWrite, hu.futuresQuotes⟩
    rw [hu.cooldown]
    show _ = (log.addResponse maxInstant pool response now).asked.foldl _ none
    unfold addResponse
    rw [if_neg hthrottled, List.append_nil]
    rfl

/-- A call on the limiter that forgets nothing leaves the limiter of the longer log. -/
theorem call_state (maxInstant : Nat) (log : LimitLog) (c : LimitCall) :
    Same c.at_ (log.state.call maxInstant c).1
      (log.record maxInstant c (log.state.call maxInstant c).2).state := by
  unfold State.call record
  cases c.request with
  | reserve method path =>
    have hreserved := log.state.reserve_reserved method path c.at_
    simp only
    generalize log.state.reserve method path c.at_ = r at hreserved
    cases hreserved with
    | refused state e hsame => exact hsame
    | granted state pool weight hcost _ _ _ _ hwindows hcooldown hlast hfutures =>
      simp only [hcost]
      exact log.same_addGrant hwindows hcooldown hlast hfutures
  | observe method path response =>
    simp only [State.observe]
    cases cost method path with
    | error e => exact Same.refl _ _
    | ok p => exact same_addResponse maxInstant log p.1 response c.at_

/-! ## What the log allows -/

/-- What a grant at `now` needs of the log. -/
structure Allowed (log : LimitLog) (method : Method) (path : String) (pool : Pool) (weight now : Nat) :
    Prop where
  waited : ∀ until_ ∈ log.asked, until_ ≤ now
  fits : ((kept Grant.at_ (seconds 60) now (log.granted pool)).map Grant.weight).sum + weight ≤
    pool.limit
  reported : ∀ o ∈ log.observed, o.pool = pool → now - o.at_ < seconds 60 →
    o.used + (((log.granted pool).filter fun g => decide (o.at_ < g.at_)).map Grant.weight).sum +
      weight ≤ pool.limit
  hour : State.isQuote path = true →
    (kept Grant.at_ (seconds 3600) now log.quotes).length + 1 ≤ 360
  day : State.isQuote path = true →
    (kept Grant.at_ (seconds 86400) now log.quotes).length + 1 ≤ 500
  earn : State.isEarnWrite method path = true → ∀ g ∈ log.earnWrites, g.at_ + seconds 3 ≤ now

/-- The log of a safe limiter, up to the instant `last`. -/
structure Limited (last : Nat) (log : LimitLog) : Prop where
  old : ∀ g ∈ log.grants, g.at_ ≤ last
  sorted : log.grants.Pairwise fun a b => a.at_ ≤ b.at_
  booked : ∀ pool, Booked Grant.at_ Grant.weight (seconds 60) pool.limit (log.granted pool)
  hour : Booked Grant.at_ (fun _ => 1) (seconds 3600) 360 log.quotes
  day : Booked Grant.at_ (fun _ => 1) (seconds 86400) 500 log.quotes
  earn : log.earnWrites.Pairwise fun a b => a.at_ + seconds 3 ≤ b.at_

theorem sum_map_one (l : List Grant) : (l.map fun _ => 1).sum = l.length := by
  simp

theorem Limited.allowed {last : Nat} {log : LimitLog} (h : Limited last log) {method : Method}
    {path : String} {now : Nat} {pool : Pool} {weight : Nat}
    (hcost : cost method path = .ok (pool, weight))
    (hgranted : (log.state.reserve method path now).2 = .ok ()) :
    Allowed log method path pool weight now := by
  have hreserved := log.state.reserve_reserved method path now
  generalize log.state.reserve method path now = r at hgranted hreserved
  cases hreserved with
  | refused state e hsame => cases hgranted
  | granted state pool' weight' hcost' hready hquotes hearn hweight =>
    obtain ⟨rfl, rfl⟩ := Prod.mk.inj (Except.ok.inj (hcost.symm.trans hcost'))
    have hlimit := add_le_of_saturatingAdd (limit_lt pool) hweight
    obtain ⟨hlocal, hexternal⟩ := log.le_weight pool now
    have hsmall : ((log.state.windows pool).prune now).weight < maxU32 := by
      have := limit_lt pool
      omega
    refine ⟨asked_le hready, by omega, fun o ho hpool hyoung => ?_, fun hq => ?_, fun hq => ?_,
      fun he => ?_⟩
    · have := hexternal o ho hpool hyoung hsmall
      omega
    · have hfull := hquotes hq
      unfold State.quotesFull at hfull
      have hkept : ((kept id (seconds 86400) now log.state.futuresQuotes).filter fun at_ =>
          decide (now - at_ < seconds 3600)) = kept id (seconds 3600) now
            (kept id (seconds 86400) now log.state.futuresQuotes) := rfl
      rw [hkept, kept_kept id le_rfl (by decide), kept_quotes, kept_quotes, List.length_map,
        List.length_map] at hfull
      simp only [Bool.or_eq_false_iff, decide_eq_false_iff_not] at hfull
      omega
    · have hfull := hquotes hq
      unfold State.quotesFull at hfull
      rw [kept_quotes, List.length_map] at hfull
      simp only [Bool.or_eq_false_iff, decide_eq_false_iff_not] at hfull
      omega
    · -- the last write is the latest one
      intro g hg
      cases hlast : log.earnWrites.getLast? with
      | none =>
        rw [List.getLast?_eq_none_iff.1 hlast] at hg
        exact absurd hg List.not_mem_nil
      | some last =>
        have hwait := hearn he last.at_ (by
          show log.earnWrites.getLast?.map Grant.at_ = _
          rw [hlast]
          rfl)
        have hle : g.at_ ≤ last.at_ := by
          obtain ⟨init, hinit⟩ := List.getLast?_eq_some_iff.1 hlast
          have hsorted : log.earnWrites.Pairwise fun a b => a.at_ ≤ b.at_ := h.sorted.filter _
          rw [hinit] at hg hsorted
          rcases List.mem_append.1 hg with hg | hg
          · exact (List.pairwise_append.1 hsorted).2.2 g hg last (List.mem_singleton_self _)
          · rw [List.mem_singleton.1 hg]
        have : 0 < seconds 3 := by decide
        omega

theorem Limited.mono {last now : Nat} {log : LimitLog} (h : Limited last log) (hle : last ≤ now) :
    Limited now log :=
  ⟨fun g hg => (h.old g hg).trans hle, h.sorted, h.booked, h.hour, h.day, h.earn⟩

/-- The step lemma: a grant the log allows keeps the log safe. -/
theorem Limited.addGrant {last : Nat} {log : LimitLog} (h : Limited last log) {method : Method}
    {path : String} {now : Nat} (hnow : last ≤ now) {pool : Pool} {weight : Nat}
    (hallowed : Allowed log method path pool weight now) :
    Limited now (log.addGrant { method, path, pool, weight, at_ := now }) := by
  have hbefore : ∀ g ∈ log.grants, g.at_ ≤ now := fun g hg => (h.old g hg).trans hnow
  have hquotes := log.filter_addGrant { method, path, pool, weight, at_ := now }
    fun g => State.isQuote g.path
  have hearn := log.filter_addGrant { method, path, pool, weight, at_ := now }
    fun g => State.isEarnWrite g.method g.path
  constructor
  · intro g hg
    rcases List.mem_append.1 hg with hg | hg
    · exact hbefore g hg
    · rw [List.mem_singleton.1 hg]
  · refine List.pairwise_append.2 ⟨h.sorted, List.pairwise_singleton _ _, fun g hg g' hg' => ?_⟩
    rw [List.mem_singleton.1 hg']
    exact hbefore g hg
  · intro other
    unfold granted
    rw [filter_addGrant]
    by_cases hp : pool = other
    · subst hp
      rw [if_pos (by simp)]
      exact (h.booked pool).append_singleton hallowed.fits
    · rw [if_neg (by simpa using hp), List.append_nil]
      exact h.booked other
  · unfold quotes
    rw [hquotes]
    by_cases hq : State.isQuote path = true
    · rw [if_pos hq]
      refine h.hour.append_singleton ?_
      rw [sum_map_one]
      exact hallowed.hour hq
    · rw [if_neg hq, List.append_nil]
      exact h.hour
  · unfold quotes
    rw [hquotes]
    by_cases hq : State.isQuote path = true
    · rw [if_pos hq]
      refine h.day.append_singleton ?_
      rw [sum_map_one]
      exact hallowed.day hq
    · rw [if_neg hq, List.append_nil]
      exact h.day
  · unfold earnWrites
    rw [hearn]
    by_cases he : State.isEarnWrite method path = true
    · rw [if_pos he]
      refine List.pairwise_append.2 ⟨h.earn, List.pairwise_singleton _ _, fun g hg g' hg' => ?_⟩
      rw [List.mem_singleton.1 hg']
      exact hallowed.earn he g hg
    · rw [if_neg he, List.append_nil]
      exact h.earn

end LimitLog

/-! ## Runs -/

/-- The limiter and its log agree up to `last`, and the log is safe. -/
structure Limiting (last : Nat) (s : State × LimitLog) : Prop where
  same : Same last s.1 s.2.state
  limited : s.2.Limited last

namespace Limiting

theorem init : Limiting 0 (State.init, LimitLog.empty) := by
  refine ⟨⟨fun _ => rfl, rfl, rfl, rfl⟩, fun _ h => absurd h List.not_mem_nil, List.Pairwise.nil,
    fun _ => Booked.nil, Booked.nil, Booked.nil, List.Pairwise.nil⟩

/-- What a grant at `now` says of the log. -/
theorem allowed {last : Nat} {s : State × LimitLog} (h : Limiting last s) {method : Method}
    {path : String} {now : Nat} (hnow : last ≤ now) {pool : Pool} {weight : Nat}
    (hcost : cost method path = .ok (pool, weight))
    (hgranted : (s.1.reserve method path now).2 = .ok ()) :
    s.2.Allowed method path pool weight now := by
  rw [State.reserve_reply (h.same.mono hnow)] at hgranted
  exact h.limited.allowed hcost hgranted

theorem step {maxInstant last : Nat} {s : State × LimitLog} (h : Limiting last s) (c : LimitCall)
    (hnow : last ≤ c.at_) : Limiting c.at_ (State.step maxInstant s c) := by
  obtain ⟨hreply, hsame⟩ := State.call_same maxInstant (h.same.mono hnow)
  refine ⟨?_, ?_⟩
  · show Same c.at_ (s.1.call maxInstant c).1
      (s.2.record maxInstant c (s.1.call maxInstant c).2).state
    rw [hreply]
    exact hsame.trans (s.2.call_state maxInstant c)
  · show (s.2.record maxInstant c (s.1.call maxInstant c).2).Limited c.at_
    unfold State.call LimitLog.record
    cases c.request with
    | reserve method path =>
      simp only
      cases hr : (s.1.reserve method path c.at_).2 with
      | error e => exact h.limited.mono hnow
      | ok u =>
        cases hcost : cost method path with
        | error e => exact h.limited.mono hnow
        | ok p => exact h.limited.addGrant hnow (h.allowed hnow hcost hr)
    | observe method path response =>
      simp only
      cases cost method path with
      | error e => exact h.limited.mono hnow
      | ok p =>
        have hl := h.limited.mono hnow
        exact ⟨hl.old, hl.sorted, hl.booked, hl.hour, hl.day, hl.earn⟩

theorem run (maxInstant : Nat) {last : Nat} {s : State × LimitLog} (h : Limiting last s)
    {calls : List LimitCall} (hsorted : (last :: calls.map LimitCall.at_).Pairwise (· ≤ ·))
    {now : Nat} (hlast : last ≤ now) (hnow : ∀ c ∈ calls, c.at_ ≤ now) :
    Limiting now (Steps.run (State.step maxInstant) s calls) := by
  induction calls generalizing last s with
  | nil => exact ⟨h.same.mono hlast, h.limited.mono hlast⟩
  | cons c calls ih =>
    obtain ⟨hfirst, hrest⟩ := List.pairwise_cons.1 hsorted
    exact ih (h.step c (hfirst c.at_ List.mem_cons_self)) hrest (hnow c List.mem_cons_self)
      fun c' hc' => hnow c' (List.mem_cons_of_mem _ hc')

end Limiting

/-- The limiter and its log after the calls. -/
def limiterRun (maxInstant : Nat) (calls : List LimitCall) : State × LimitLog :=
  Steps.run (State.step maxInstant) (State.init, .empty) calls

/-- The limiter after any run of calls at non-decreasing instants. -/
theorem limiter_safe (maxInstant : Nat) (calls : List LimitCall)
    (hsorted : (calls.map LimitCall.at_).Pairwise (· ≤ ·)) :
    (∀ pool start,
      ((((limiterRun maxInstant calls).2.granted pool).filter
        fun g => decide (start ≤ g.at_ ∧ g.at_ < start + seconds 60)).map Grant.weight).sum ≤
          pool.limit) ∧
      (∀ start,
        ((limiterRun maxInstant calls).2.quotes.filter
          fun g => decide (start ≤ g.at_ ∧ g.at_ < start + seconds 3600)).length ≤ 360 ∧
        ((limiterRun maxInstant calls).2.quotes.filter
          fun g => decide (start ≤ g.at_ ∧ g.at_ < start + seconds 86400)).length ≤ 500) ∧
      (limiterRun maxInstant calls).2.earnWrites.Pairwise
        (fun a b => a.at_ + seconds 3 ≤ b.at_) ∧
      ∀ method path now, (∀ c ∈ calls, c.at_ ≤ now) →
        (((limiterRun maxInstant calls).1.reserve method path now).2 = .ok () →
          (∀ until_ ∈ (limiterRun maxInstant calls).2.asked, until_ ≤ now) ∧
          ∀ pool weight, cost method path = .ok (pool, weight) →
            ∀ o ∈ (limiterRun maxInstant calls).2.observed,
              o.pool = pool → now - o.at_ < seconds 60 →
                o.used + ((((limiterRun maxInstant calls).2.granted pool).filter
                  fun g => decide (o.at_ < g.at_)).map Grant.weight).sum + weight ≤ pool.limit) ∧
        ∀ e, ((limiterRun maxInstant calls).1.reserve method path now).2 = .error e →
          ∀ later : List LimitCall, (now :: later.map LimitCall.at_).Pairwise (· ≤ ·) →
            ((limiterRun maxInstant calls).1.reserve method path now).1.replies maxInstant later =
              (limiterRun maxInstant calls).1.replies maxInstant later := by
  have hstart : (0 :: calls.map LimitCall.at_).Pairwise (· ≤ ·) :=
    List.pairwise_cons.2 ⟨fun _ _ => Nat.zero_le _, hsorted⟩
  -- some instant after the run
  have hend : ∃ now, ∀ c ∈ calls, c.at_ ≤ now := by
    refine ⟨(calls.map LimitCall.at_).foldl max 0, fun c hc => ?_⟩
    exact (LimitLog.le_foldl_max _ 0).2 _ (List.mem_map_of_mem hc)
  obtain ⟨bound, hbound⟩ := hend
  have hrun := Limiting.init.run maxInstant hstart (Nat.zero_le bound) hbound
  refine ⟨fun pool start => ?_, fun start => ⟨?_, ?_⟩, hrun.limited.earn, ?_⟩
  · exact (hrun.limited.booked pool).sum_window_le (hrun.limited.sorted.filter _) start
  · have := hrun.limited.hour.sum_window_le (hrun.limited.sorted.filter _) start
    rwa [LimitLog.sum_map_one] at this
  · have := hrun.limited.day.sum_window_le (hrun.limited.sorted.filter _) start
    rwa [LimitLog.sum_map_one] at this
  · intro method path now hnow
    have hrun := Limiting.init.run maxInstant hstart (Nat.zero_le now) hnow
    refine ⟨fun hgranted => ⟨?_, fun pool weight hcost => ?_⟩, fun e he later hlater => ?_⟩
    · -- a grant has a cost
      have hreserved := (limiterRun maxInstant calls).1.reserve_reserved method path now
      cases hcost : cost method path with
      | error e =>
        generalize (limiterRun maxInstant calls).1.reserve method path now = r at hgranted hreserved
        cases hreserved with
        | refused => cases hgranted
        | granted state pool weight hcost' =>
          rw [hcost] at hcost'
          cases hcost'
      | ok p => exact (hrun.allowed le_rfl hcost hgranted).waited
    · exact (hrun.allowed le_rfl hcost hgranted).reported
    · exact State.refused_no_effect _ method path he hlater

/-- A throttled response of an endpoint without a weight, and one that asks for longer
than the clock reaches. -/
def throttledCalls (path retryAfter : String) : List LimitCall :=
  [{ at_ := 0, request := .observe .get path
      { status := 429, headers := fun name => if name == "retry-after" then some retryAfter else none } }]

/-- Neither is waited for: the first not at all, the second for three days only. -/
theorem limiter_ignores_throttling :
    ((limiterRun (seconds 9223372036854775807) (throttledCalls "/sapi/v1/account/status" "60")).1.reserve
        .get "/api/v3/account" (seconds 1)).2 = .ok () ∧
      ((limiterRun (seconds 9223372036854775807) (throttledCalls "/api/v3/account"
        "9223372036854775808")).1.reserve .get "/api/v3/account" (seconds (86400 * 3))).2 = .ok () := by
  decide +kernel

/-- A quote, an earn write, a response that asks for a minute, and another earn write after it. -/
def waitedCalls : List LimitCall :=
  [{ at_ := 0, request := .reserve .post "/fapi/v1/convert/getQuote" },
    { at_ := seconds 1, request := .reserve .post "/sapi/v1/simple-earn/flexible/subscribe" },
    { at_ := seconds 2, request := .observe .get "/api/v3/account"
        { status := 429, headers := fun name => if name == "retry-after" then some "60" else none } },
    { at_ := seconds 30, request := .reserve .post "/sapi/v1/simple-earn/flexible/redeem" },
    { at_ := seconds 62, request := .reserve .post "/sapi/v1/simple-earn/flexible/redeem" }]

/-- The write within the minute is refused, the one after it granted. -/
theorem limiter_safe_after_wait :
    let s := limiterRun (seconds 9223372036854775807) waitedCalls
    s.2.earnWrites.map Grant.at_ = [seconds 1, seconds 62] ∧
      s.2.earnWrites.Pairwise (fun a b => a.at_ + seconds 3 ≤ b.at_) ∧
      (((s.2.granted .futures).filter
        fun g => decide (0 ≤ g.at_ ∧ g.at_ < 0 + seconds 60)).map Grant.weight).sum ≤
          Pool.futures.limit ∧
      ∀ until_ ∈ s.2.asked, until_ ≤ seconds 63 := by
  intro s
  have h := limiter_safe (seconds 9223372036854775807) waitedCalls (by decide)
  refine ⟨by decide +kernel, h.2.2.1, h.1 .futures 0, ?_⟩
  refine ((h.2.2.2 .get "/api/v3/account" (seconds 63) fun c hc => ?_).1 (by decide +kernel)).1
  have hlast : ∀ at_ ∈ waitedCalls.map LimitCall.at_, at_ ≤ seconds 63 := by decide
  exact hlast c.at_ (List.mem_map_of_mem hc)

end CtaManager.Treasury
