import CtaManager.Library.OrdMapFold
import CtaManager.Text

/-!
Alerts and recoveries of the monitor (`monitor.rs`).

Each poll turns its issues into notices (`AlertTracker.pending`), sends the notices
of each channel together and marks what was sent (`AlertTracker.markSent`).
Instants are nanoseconds of one monotonic clock.
-/

namespace CtaManager.Monitor

def NANOS_PER_SEC : Nat := 1000000000

structure MonitorIssue where
  key : String
  message : String
  /-- Delay the first notification while a transient condition settles. -/
  initialDelaySecs : Nat

structure PendingNotice where
  key : String
  message : String
  recovery : Bool
  deriving DecidableEq

inductive NoticeChannel where
  | market
  | order
  deriving DecidableEq

def channelForKey (key : String) : NoticeChannel :=
  if Text.startsWith key "market:" then .market else .order

def PendingNotice.channel (notice : PendingNotice) : NoticeChannel := channelForKey notice.key

/-- Minimum gap between repeated alerts for the same unresolved issue. -/
def MIN_REPEAT_ALERT_SECS : Nat := 30

structure AlertState where
  active : Bool
  visible : Bool
  firstSeen : Option Nat
  lastSent : Option Nat
  recoveryPending : Bool
  /-- Message of the last alert sent, reused for the recovery notice. -/
  message : String
  deriving DecidableEq

/-- `AlertState::default`. -/
def AlertState.default : AlertState where
  active := false
  visible := false
  firstSeen := none
  lastSent := none
  recoveryPending := false
  message := ""

abbrev AlertTracker := OrdMap String AlertState

def repeatInterval (repeatAlertSecs : Nat) : Nat :=
  max repeatAlertSecs MIN_REPEAT_ALERT_SECS * NANOS_PER_SEC

/-- An issue of the state's key is there. -/
def AlertState.see (now : Nat) (state : AlertState) (issue : MonitorIssue) : AlertState :=
  let firstSeen := if !state.active then some now else state.firstSeen
  { state with
    active := true
    recoveryPending := false
    firstSeen
    visible := firstSeen.all fun t => decide (issue.initialDelaySecs * NANOS_PER_SEC ≤ now - t) }

def AlertState.due (now interval : Nat) (state : AlertState) : Bool :=
  state.lastSent.all fun t => decide (interval ≤ now - t)

def MonitorIssue.notice (issue : MonitorIssue) : PendingNotice where
  key := issue.key
  message := issue.message
  recovery := false

/-- The state of a key, as `entry(key).or_default()` finds it. -/
def AlertTracker.state (tracker : AlertTracker) (key : String) : AlertState :=
  (tracker[key]?).getD AlertState.default

def AlertTracker.see (now : Nat) (tracker : AlertTracker) (issue : MonitorIssue) : AlertTracker :=
  OrdMap.updateAt MonitorIssue.key (AlertState.see now) AlertState.default tracker issue

/-- One issue of the first loop of `pending`. -/
def pendIssue (now interval : Nat) (s : AlertTracker × List PendingNotice) (issue : MonitorIssue) :
    AlertTracker × List PendingNotice :=
  let states := s.1.see now issue
  let state := AlertTracker.state states issue.key
  if state.visible && state.due now interval then (states, s.2 ++ [issue.notice])
  else (states, s.2)

/-- One state of the second loop of `pending`; `current` says that its issue is there. -/
def AlertState.settle (current : Bool) (state : AlertState) : AlertState :=
  if !state.active || current then state
  else if state.lastSent.isNone then AlertState.default
  else state

def AlertState.recovery (current : Bool) (key : String) (state : AlertState) :
    Option PendingNotice :=
  if !state.active || current then none
  else if state.lastSent.isNone then none
  else if !state.recoveryPending then
    let detail := if state.message = "" then key else state.message
    some { key, message := "问题已恢复: " ++ detail, recovery := true }
  else none

def isCurrent (issues : List MonitorIssue) (key : String) : Bool :=
  issues.any fun issue => issue.key == key

def AlertTracker.pending (tracker : AlertTracker) (issues : List MonitorIssue)
    (now repeatAlertSecs : Nat) : AlertTracker × List PendingNotice :=
  let s := issues.foldl (pendIssue now (repeatInterval repeatAlertSecs)) (tracker, [])
  (s.1.map fun key state => state.settle (isCurrent issues key),
    s.2 ++ s.1.toList.filterMap fun (key, state) => state.recovery (isCurrent issues key) key)

/-- One notice of `mark_sent`. -/
def AlertState.mark (now : Nat) (state : AlertState) (notice : PendingNotice) : AlertState :=
  if notice.recovery then
    { state with
      active := false
      visible := false
      firstSeen := none
      lastSent := none
      recoveryPending := false
      message := "" }
  else
    { state with
      active := true
      lastSent := some now
      recoveryPending := false
      message := notice.message }

def AlertTracker.markSent (tracker : AlertTracker) (notices : List PendingNotice) (now : Nat) :
    AlertTracker :=
  notices.foldl (OrdMap.updateAt PendingNotice.key (AlertState.mark now) AlertState.default) tracker

/-! ## The polls -/

/-- One round of `run`: its issues, and when the send on each channel succeeded. -/
structure Poll where
  issues : List MonitorIssue
  now : Nat
  repeatAlertSecs : Nat
  market : Option Nat
  order : Option Nat

def Poll.sent (p : Poll) : NoticeChannel → Option Nat
  | .market => p.market
  | .order => p.order

structure Delivery where
  sentAt : Nat
  notice : PendingNotice

/-- The send of one channel; a failed one is followed by nothing. -/
def sendChannel (p : Poll) (pending : List PendingNotice) (s : AlertTracker × List Delivery)
    (channel : NoticeChannel) : AlertTracker × List Delivery :=
  let batch := pending.filter fun notice => notice.channel = channel
  match p.sent channel with
  | some sentAt => (s.1.markSent batch sentAt, s.2 ++ batch.map fun notice => ⟨sentAt, notice⟩)
  | none => s

/-- One round, over the tracker and what was delivered before. -/
def poll (s : AlertTracker × List Delivery) (p : Poll) : AlertTracker × List Delivery :=
  let (states, pending) := s.1.pending p.issues p.now p.repeatAlertSecs
  [NoticeChannel.market, .order].foldl (sendChannel p pending) (states, s.2)

/-- The tracker and the deliveries after some rounds. -/
def afterPolls (polls : List Poll) : AlertTracker × List Delivery := polls.foldl poll (∅, [])

/-! ## What the two loops do to one key -/

variable {tracker : AlertTracker} {issues : List MonitorIssue} {now interval : Nat}

/-- The issue is offered: its delay is over, and no alert was sent within the interval. -/
def AlertTracker.offers (tracker : AlertTracker) (now interval : Nat) (issue : MonitorIssue) :
    Bool :=
  ((tracker.state issue.key).see now issue).visible && (tracker.state issue.key).due now interval

theorem state_see (tracker : AlertTracker) (issue : MonitorIssue) (key : String) :
    (tracker.see now issue).state key =
      if issue.key = key then (tracker.state key).see now issue else tracker.state key :=
  OrdMap.getD_updateAt tracker issue key

theorem offers_see (tracker : AlertTracker) (issue other : MonitorIssue) :
    (tracker.see now issue).offers now interval other = tracker.offers now interval other := by
  unfold AlertTracker.offers
  rw [state_see]
  split
  · unfold AlertState.see AlertState.due
    dsimp only
    cases (tracker.state other.key).active <;> rfl
  · rfl

theorem pendIssue_eq (tracker : AlertTracker) (pending : List PendingNotice)
    (issue : MonitorIssue) : pendIssue now interval (tracker, pending) issue =
      if tracker.offers now interval issue then
        (tracker.see now issue, pending ++ [issue.notice])
      else (tracker.see now issue, pending) := by
  have hstate : (tracker.see now issue).state issue.key =
      (tracker.state issue.key).see now issue := by
    rw [state_see, if_pos rfl]
  unfold pendIssue
  dsimp only
  rw [hstate]
  rfl

/-- The first loop sees every issue and offers those that are due. -/
theorem foldl_pendIssue (issues : List MonitorIssue) (tracker : AlertTracker)
    (pending : List PendingNotice) :
    issues.foldl (pendIssue now interval) (tracker, pending) =
      (issues.foldl (AlertTracker.see now) tracker,
        pending ++ (issues.filter (tracker.offers now interval)).map MonitorIssue.notice) := by
  induction issues generalizing tracker pending with
  | nil => simp
  | cons issue issues ih =>
    have hrest : issues.filter ((tracker.see now issue).offers now interval) =
        issues.filter (tracker.offers now interval) :=
      List.filter_congr fun other _ => offers_see tracker issue other
    rw [List.foldl_cons, List.foldl_cons, pendIssue_eq]
    by_cases h : tracker.offers now interval issue = true
    · rw [if_pos h, ih, hrest, List.filter_cons_of_pos h, List.map_cons, List.append_assoc]
      rfl
    · rw [if_neg h, ih, hrest, List.filter_cons_of_neg h]

theorem state_foldl_see (issues : List MonitorIssue) (tracker : AlertTracker) (key : String) :
    AlertTracker.state (issues.foldl (AlertTracker.see now) tracker) key =
      (issues.filter fun issue => decide (issue.key = key)).foldl (AlertState.see now)
        (tracker.state key) :=
  OrdMap.getD_foldl_update issues tracker key

theorem state_map (tracker : AlertTracker) (f : String → AlertState → AlertState) (key : String)
    (hf : f key AlertState.default = AlertState.default) :
    AlertTracker.state (tracker.map f) key = f key (tracker.state key) := by
  unfold AlertTracker.state
  rw [Std.ExtTreeMap.getElem?_map]
  cases tracker[key]? with
  | none => exact hf.symm
  | some state => rfl

theorem settle_default (current : Bool) : AlertState.default.settle current = AlertState.default := by
  cases current <;> rfl

end CtaManager.Monitor
