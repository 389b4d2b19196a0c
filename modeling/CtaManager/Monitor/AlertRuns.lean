import CtaManager.Monitor.AlertTracker

/-!
Runs of the alert tracker (`monitor.rs`).

`outstanding` and `seenSince` say from the deliveries and the polls alone when the
last alert of a key went out with no recovery since, and since when its issue has
been in every poll.  The tracker holds both for every key (`KeyInv`), whatever sends
fail, so what a poll offers can be read off the history.  Two issues of one key are
offered twice, so the laws hold of a run exactly when no poll has two that are due
(`alerts_iff`).
-/

namespace CtaManager.Monitor

/-! ## The history -/

/-- When the last alert of a key was delivered, if no recovery came after it. -/
def outstanding (log : List Delivery) (key : String) : Option Nat :=
  log.foldl (fun sent d =>
    if d.notice.key = key then (if d.notice.recovery then none else some d.sentAt) else sent) none

/-- The first of the polls up to the last one that all have an issue of the key. -/
def seenSince (polls : List Poll) (key : String) : Option Nat :=
  polls.foldl (fun seen p =>
    if isCurrent p.issues key then some (seen.getD p.now) else none) none

theorem outstanding_concat (log : List Delivery) (d : Delivery) (key : String) :
    outstanding (log ++ [d]) key =
      if d.notice.key = key then (if d.notice.recovery then none else some d.sentAt)
      else outstanding log key := by
  unfold outstanding
  rw [List.foldl_append]
  rfl

theorem seenSince_concat (polls : List Poll) (p : Poll) (key : String) :
    seenSince (polls ++ [p]) key =
      if isCurrent p.issues key then some ((seenSince polls key).getD p.now) else none := by
  unfold seenSince
  rw [List.foldl_append]
  rfl

/-- The state of a key says what its history says. -/
structure KeyInv (seen sent : Option Nat) (state : AlertState) : Prop where
  lastSent : state.lastSent = sent
  recoveryPending : state.recoveryPending = false
  alerted : sent.isSome = true → state.active = true
  waiting : sent = none → state.active = seen.isSome ∧ (state.active = true → state.firstSeen = seen)

theorem keyInv_default : KeyInv none none AlertState.default where
  lastSent := rfl
  recoveryPending := rfl
  alerted h := by cases h
  waiting _ := ⟨rfl, fun h => (by cases h)⟩

section

variable {seen sent : Option Nat} {state : AlertState} {now : Nat}

theorem KeyInv.see (h : KeyInv seen sent state) (now : Nat) (issue : MonitorIssue) :
    KeyInv (some (seen.getD now)) sent (state.see now issue) where
  lastSent := h.lastSent
  recoveryPending := rfl
  alerted _ := rfl
  waiting hsent := by
    obtain ⟨hactive, hfirst⟩ := h.waiting hsent
    refine ⟨rfl, fun _ => ?_⟩
    show (if !state.active then some now else state.firstSeen) = some (seen.getD now)
    cases seen with
    | none =>
      rw [hactive]
      rfl
    | some t =>
      have hact : state.active = true := hactive
      rw [hact, hfirst hact]
      rfl

theorem KeyInv.foldl_see (h : KeyInv seen sent state) (now : Nat) (issues : List MonitorIssue) :
    KeyInv (if issues = [] then seen else some (seen.getD now)) sent
      (issues.foldl (AlertState.see now) state) := by
  induction issues generalizing seen state with
  | nil => exact h
  | cons issue issues ih =>
    rw [List.foldl_cons, if_neg (List.cons_ne_nil _ _)]
    have hrest := ih (h.see now issue)
    by_cases hnil : issues = []
    · rw [if_pos hnil] at hrest
      exact hrest
    · rw [if_neg hnil] at hrest
      exact hrest

/-- The second loop, where the issue is there and where it is not. -/
theorem KeyInv.settle_current (h : KeyInv seen sent state) : KeyInv seen sent (state.settle true) := by
  unfold AlertState.settle
  rw [Bool.or_true, if_pos rfl]
  exact h

theorem KeyInv.settle_absent (h : KeyInv seen sent state) : KeyInv none sent (state.settle false) := by
  unfold AlertState.settle
  rw [Bool.or_false]
  cases sent with
  | none =>
    rw [h.lastSent]
    by_cases hactive : state.active = true
    · rw [if_neg (by simp [hactive]), if_pos (by rfl)]
      exact keyInv_default
    · rw [if_pos (by simpa using hactive)]
      refine ⟨h.lastSent, h.recoveryPending, fun hs => (by cases hs), fun _ => ⟨?_, fun ha => ?_⟩⟩
      · simpa using hactive
      · exact absurd ha hactive
  | some t =>
    rw [h.alerted rfl, h.lastSent, if_neg (by simp), if_neg (by simp)]
    exact ⟨h.lastSent, h.recoveryPending, h.alerted, fun hs => (by cases hs)⟩

theorem keyInv_mark_alert {notice : PendingNotice}
    (halert : notice.recovery = false) : KeyInv seen (some now) (state.mark now notice) := by
  unfold AlertState.mark
  rw [halert, if_neg Bool.false_ne_true]
  exact ⟨rfl, rfl, fun _ => rfl, fun hs => (by cases hs)⟩

theorem keyInv_mark_recovery {notice : PendingNotice} (hrecovery : notice.recovery = true) :
    KeyInv none none (state.mark now notice) := by
  unfold AlertState.mark
  rw [hrecovery, if_pos rfl]
  exact ⟨rfl, rfl, fun hs => (by cases hs), fun _ => ⟨rfl, fun hs => (by cases hs)⟩⟩

end

/-! ## What a poll offers -/

section

variable {tracker : AlertTracker} {issues : List MonitorIssue} {now repeatAlertSecs : Nat}

theorem isCurrent_iff {key : String} :
    isCurrent issues key = true ↔ ∃ issue ∈ issues, issue.key = key := by
  unfold isCurrent
  rw [List.any_eq_true]
  exact exists_congr fun issue => and_congr_right fun _ => beq_iff_eq

/-- The alerts of a poll. -/
def alertsOf (tracker : AlertTracker) (issues : List MonitorIssue) (now interval : Nat) :
    List PendingNotice :=
  (issues.filter (tracker.offers now interval)).map MonitorIssue.notice

/-- The recoveries of a poll. -/
def recoveriesOf (tracker : AlertTracker) (issues : List MonitorIssue) (now : Nat) :
    List PendingNotice :=
  (issues.foldl (AlertTracker.see now) tracker).toList.filterMap fun (key, state) =>
    state.recovery (isCurrent issues key) key

theorem pending_eq : tracker.pending issues now repeatAlertSecs =
    ((issues.foldl (AlertTracker.see now) tracker).map fun key state =>
        state.settle (isCurrent issues key),
      alertsOf tracker issues now (repeatInterval repeatAlertSecs) ++
        recoveriesOf tracker issues now) := by
  unfold AlertTracker.pending
  dsimp only
  rw [foldl_pendIssue, List.nil_append]
  rfl

/-- The first loop leaves a key without an issue alone. -/
theorem state_foldl_see_absent {key : String} (now : Nat) (h : isCurrent issues key = false) :
    AlertTracker.state (issues.foldl (AlertTracker.see now) tracker) key = tracker.state key := by
  rw [state_foldl_see, List.filter_eq_nil_iff.2]
  · rfl
  · intro issue hissue heq
    have hcurrent := isCurrent_iff.2 ⟨issue, hissue, of_decide_eq_true heq⟩
    rw [h] at hcurrent
    cases hcurrent

theorem recovery_eq_some {state : AlertState} {current : Bool} {key : String}
    {notice : PendingNotice} (h : state.recovery current key = some notice) :
    current = false ∧ notice.key = key ∧ notice.recovery = true ∧ state.lastSent.isSome = true := by
  unfold AlertState.recovery at h
  split at h
  · cases h
  · next hactive =>
    split at h
    · cases h
    · next hsent =>
      split at h
      · cases h
        refine ⟨?_, rfl, rfl, ?_⟩
        · cases current
          · rfl
          · simp at hactive
        · simpa [Option.isSome_iff_ne_none] using hsent
      · cases h

theorem mem_recoveriesOf {notice : PendingNotice} (h : notice ∈ recoveriesOf tracker issues now) :
    isCurrent issues notice.key = false ∧ notice.recovery = true ∧
      (tracker.state notice.key).lastSent.isSome = true := by
  obtain ⟨⟨key, state⟩, hmem, hnotice⟩ := List.mem_filterMap.1 h
  obtain ⟨hcurrent, hkey, hrecovery, hsent⟩ := recovery_eq_some hnotice
  have hstate : AlertTracker.state (issues.foldl (AlertTracker.see now) tracker) key = state := by
    unfold AlertTracker.state
    rw [OrdMap.mem_toList.1 hmem]
    rfl
  rw [state_foldl_see_absent now hcurrent] at hstate
  rw [hkey, hstate]
  exact ⟨hcurrent, hrecovery, hsent⟩

theorem exists_recovery {key : String} (now : Nat) (hcurrent : isCurrent issues key = false)
    (hactive : (tracker.state key).active = true)
    (hsent : (tracker.state key).lastSent.isSome = true)
    (hpending : (tracker.state key).recoveryPending = false) :
    ∃ notice ∈ recoveriesOf tracker issues now, notice.key = key ∧ notice.recovery = true := by
  rw [← state_foldl_see_absent now hcurrent] at hactive hsent hpending
  cases hstate : (issues.foldl (AlertTracker.see now) tracker)[key]? with
  | none =>
    unfold AlertTracker.state at hactive
    rw [hstate] at hactive
    cases hactive
  | some state =>
    unfold AlertTracker.state at hactive hsent hpending
    rw [hstate, Option.getD_some] at hactive hsent hpending
    obtain ⟨sentAt, hsentAt⟩ := Option.isSome_iff_exists.1 hsent
    refine ⟨{ key
              message := "问题已恢复: " ++ if state.message = "" then key else state.message
              recovery := true },
      List.mem_filterMap.2 ⟨(key, state), OrdMap.mem_toList.2 hstate, ?_⟩, rfl, rfl⟩
    unfold AlertState.recovery
    dsimp only
    rw [hcurrent, hactive, hsentAt, hpending]
    rfl

theorem mem_alertsOf {notice : PendingNotice} {interval : Nat} :
    notice ∈ alertsOf tracker issues now interval ↔
      ∃ issue ∈ issues, tracker.offers now interval issue = true ∧ issue.notice = notice := by
  unfold alertsOf
  rw [List.mem_map]
  constructor
  · rintro ⟨issue, hissue, heq⟩
    rw [List.mem_filter] at hissue
    exact ⟨issue, hissue.1, hissue.2, heq⟩
  · rintro ⟨issue, hissue, hoffers, heq⟩
    exact ⟨issue, List.mem_filter.2 ⟨hissue, hoffers⟩, heq⟩

/-- A poll gives one notice of each key exactly when no two due issues have one key. -/
theorem nodup_pending_iff :
    ((tracker.pending issues now repeatAlertSecs).2.map PendingNotice.key).Nodup ↔
      ((issues.filter (tracker.offers now (repeatInterval repeatAlertSecs))).map
        MonitorIssue.key).Nodup := by
  have halerts : (alertsOf tracker issues now (repeatInterval repeatAlertSecs)).map
      PendingNotice.key = (issues.filter (tracker.offers now (repeatInterval repeatAlertSecs))).map
        MonitorIssue.key := by
    unfold alertsOf
    rw [List.map_map]
    rfl
  have hrecoveries : ((recoveriesOf tracker issues now).map PendingNotice.key).Nodup := by
    rw [List.Nodup, List.pairwise_map]
    refine List.Pairwise.filterMap _ (R := fun e e' => e.1 ≠ e'.1) ?_ ?_
    · intro e e' hne notice hnotice notice' hnotice' heq
      obtain ⟨-, hkey, -⟩ := recovery_eq_some hnotice
      obtain ⟨-, hkey', -⟩ := recovery_eq_some hnotice'
      exact hne (hkey.symm.trans (heq.trans hkey'))
    · exact List.pairwise_map.1 (OrdMap.nodup_keys_toList _)
  rw [pending_eq, List.map_append, halerts, List.nodup_append]
  refine ⟨fun h => h.1, fun h => ⟨h, hrecoveries, ?_⟩⟩
  rintro key hkey key' hkey' rfl
  obtain ⟨issue, hissue, rfl⟩ := List.mem_map.1 hkey
  obtain ⟨notice, hnotice, heq⟩ := List.mem_map.1 hkey'
  have habsent := (mem_recoveriesOf hnotice).1
  rw [heq, isCurrent_iff.2 ⟨issue, (List.mem_filter.1 hissue).1, rfl⟩] at habsent
  cases habsent

end

/-! ## What a poll leaves -/

section

variable {tracker : AlertTracker} {log : List Delivery} {seen : String → Option Nat}

/-- The tracker has the history of every key. -/
def TrackerInv (seen : String → Option Nat) (s : AlertTracker × List Delivery) : Prop :=
  ∀ key, KeyInv (seen key) (outstanding s.2 key) (s.1.state key)

theorem TrackerInv.pending {polls : List Poll} (h : TrackerInv (seenSince polls) (tracker, log))
    (p : Poll) : TrackerInv (seenSince (polls ++ [p]))
      ((tracker.pending p.issues p.now p.repeatAlertSecs).1, log) := by
  intro key
  rw [pending_eq, seenSince_concat]
  dsimp only
  rw [state_map _ _ _ (settle_default _)]
  cases hcurrent : isCurrent p.issues key with
  | true =>
    obtain ⟨issue, hissue, hkey⟩ := isCurrent_iff.1 hcurrent
    have hne : (p.issues.filter fun issue => decide (issue.key = key)) ≠ [] :=
      List.ne_nil_of_mem (List.mem_filter.2 ⟨hissue, decide_eq_true hkey⟩)
    have hsee := (h key).foldl_see p.now (p.issues.filter fun issue => decide (issue.key = key))
    rw [if_neg hne, ← state_foldl_see] at hsee
    exact hsee.settle_current
  | false =>
    rw [state_foldl_see_absent p.now hcurrent, if_neg Bool.false_ne_true]
    exact (h key).settle_absent

/-- One delivered notice; a recovery is delivered where the issue is not there. -/
theorem TrackerInv.mark (h : TrackerInv seen (tracker, log)) {notice : PendingNotice}
    (habsent : notice.recovery = true → seen notice.key = none) (sentAt : Nat) :
    TrackerInv seen
      (OrdMap.updateAt PendingNotice.key (AlertState.mark sentAt) AlertState.default tracker notice,
        log ++ [⟨sentAt, notice⟩]) := by
  intro key
  have hstate : AlertTracker.state (OrdMap.updateAt PendingNotice.key (AlertState.mark sentAt)
      AlertState.default tracker notice) key =
        if notice.key = key then (tracker.state key).mark sentAt notice else tracker.state key :=
    OrdMap.getD_updateAt tracker notice key
  dsimp only
  rw [outstanding_concat, hstate]
  dsimp only
  split
  · next heq =>
    subst heq
    cases hrecovery : notice.recovery with
    | true =>
      rw [habsent hrecovery]
      exact keyInv_mark_recovery hrecovery
    | false => exact keyInv_mark_alert hrecovery
  · exact h key

theorem TrackerInv.markSent {batch : List PendingNotice} (h : TrackerInv seen (tracker, log))
    (habsent : ∀ notice ∈ batch, notice.recovery = true → seen notice.key = none) (sentAt : Nat) :
    TrackerInv seen (tracker.markSent batch sentAt,
      log ++ batch.map fun notice => ⟨sentAt, notice⟩) := by
  induction batch generalizing tracker log with
  | nil =>
    rw [List.map_nil, List.append_nil]
    exact h
  | cons notice batch ih =>
    have hrest := ih (h.mark (habsent notice List.mem_cons_self) sentAt) fun other hother =>
      habsent other (List.mem_cons_of_mem _ hother)
    rw [List.append_assoc] at hrest
    exact hrest

theorem TrackerInv.sendChannel {s : AlertTracker × List Delivery} (h : TrackerInv seen s)
    {pending : List PendingNotice}
    (habsent : ∀ notice ∈ pending, notice.recovery = true → seen notice.key = none) (p : Poll)
    (channel : NoticeChannel) : TrackerInv seen (sendChannel p pending s channel) := by
  unfold Monitor.sendChannel
  dsimp only
  split
  · exact h.markSent (fun notice hnotice => habsent notice (List.mem_filter.1 hnotice).1) _
  · exact h

/-- The recoveries of a poll are of keys without an issue. -/
theorem absent_of_pending {p : Poll} {notice : PendingNotice}
    (hmem : notice ∈ (tracker.pending p.issues p.now p.repeatAlertSecs).2)
    (hrecovery : notice.recovery = true) : notice ∈ recoveriesOf tracker p.issues p.now := by
  rw [pending_eq] at hmem
  refine (List.mem_append.1 hmem).resolve_left fun halert => ?_
  obtain ⟨issue, -, -, rfl⟩ := mem_alertsOf.1 halert
  cases hrecovery

theorem TrackerInv.poll {polls : List Poll} {s : AlertTracker × List Delivery}
    (h : TrackerInv (seenSince polls) s) (p : Poll) :
    TrackerInv (seenSince (polls ++ [p])) (poll s p) := by
  have hpending := h.pending p
  have habsent : ∀ notice ∈ (s.1.pending p.issues p.now p.repeatAlertSecs).2,
      notice.recovery = true → seenSince (polls ++ [p]) notice.key = none := by
    intro notice hmem hrecovery
    obtain ⟨hcurrent, -⟩ := mem_recoveriesOf (absent_of_pending hmem hrecovery)
    rw [seenSince_concat, hcurrent, if_neg Bool.false_ne_true]
  exact (hpending.sendChannel habsent p .market).sendChannel habsent p .order

theorem trackerInv_afterPolls (polls : List Poll) :
    TrackerInv (seenSince polls) (afterPolls polls) := by
  induction polls using List.reverseRecOn with
  | nil =>
    intro key
    have hstate : AlertTracker.state (∅ : AlertTracker) key = AlertState.default := by
      unfold AlertTracker.state
      rw [Std.ExtTreeMap.getElem?_empty]
      rfl
    show KeyInv none none (AlertTracker.state ∅ key)
    rw [hstate]
    exact keyInv_default
  | append_singleton polls p ih =>
    have hstep : afterPolls (polls ++ [p]) = Monitor.poll (afterPolls polls) p := by
      unfold afterPolls
      rw [List.foldl_append]
      rfl
    rw [hstep]
    exact ih.poll p

end

/-! ## The laws of a run -/

/-- The deliveries before a poll. -/
def logBefore (before : List Poll) : List Delivery := (afterPolls before).2

/-- The notices that a poll offers. -/
def pendingAt (before : List Poll) (p : Poll) : List PendingNotice :=
  ((afterPolls before).1.pending p.issues p.now p.repeatAlertSecs).2

/-- What a poll delivers. -/
def deliveredAt (before : List Poll) (p : Poll) : List Delivery :=
  (logBefore (before ++ [p])).drop (logBefore before).length

/-- The laws of a poll after the polls `before`: one notice for each key, alerts of a key a
repeat interval apart, and a notice for every issue and every recovery that is due. -/
structure PollLaws (before : List Poll) (p : Poll) : Prop where
  single : ((pendingAt before p).map PendingNotice.key).Nodup
  /-- A recovery is delivered only after an alert. -/
  alternates : ∀ d ∈ deliveredAt before p, d.notice.recovery = true →
    (outstanding (logBefore before) d.notice.key).isSome = true
  spaced : ∀ d ∈ deliveredAt before p, d.notice.recovery = false →
    ∀ t, outstanding (logBefore before) d.notice.key = some t →
      t + repeatInterval p.repeatAlertSecs ≤ d.sentAt
  /-- An issue is offered from its initial delay on until an alert is delivered. -/
  offers : ∀ issue ∈ p.issues, outstanding (logBefore before) issue.key = none →
    ∀ t, seenSince (before ++ [p]) issue.key = some t →
      issue.initialDelaySecs * NANOS_PER_SEC ≤ p.now - t →
        ∃ notice ∈ pendingAt before p, notice.key = issue.key ∧ notice.recovery = false
  /-- A recovery is offered while the issue of an alert is absent. -/
  recovers : ∀ key, (∀ issue ∈ p.issues, issue.key ≠ key) →
    (outstanding (logBefore before) key).isSome = true →
      ∃ notice ∈ pendingAt before p, notice.key = key ∧ notice.recovery = true

/-- The instants of a round, in their order. -/
def Poll.instants (p : Poll) : List Nat := p.now :: (p.market.toList ++ p.order.toList)

/-- The clock does not go back. -/
def Timed (polls : List Poll) : Prop := (polls.flatMap Poll.instants).Pairwise (· ≤ ·)

/-- No key has two issues in one poll that are due: their initial delay is over since the
key is first seen, and no alert of it was sent within the repeat interval. -/
def Unrepeated (before : List Poll) (p : Poll) : Prop :=
  ((p.issues.filter
    ((afterPolls before).1.offers p.now (repeatInterval p.repeatAlertSecs))).map
      MonitorIssue.key).Nodup

section

variable {before : List Poll} {p : Poll}

theorem unrepeated_of_nodup (h : (p.issues.map MonitorIssue.key).Nodup) : Unrepeated before p :=
  List.Nodup.sublist (List.filter_sublist.map _) h

theorem sendChannel_snd (pending : List PendingNotice) (s : AlertTracker × List Delivery)
    (channel : NoticeChannel) : ∃ sent : List Delivery, (sendChannel p pending s channel).2 =
      s.2 ++ sent ∧ ∀ d ∈ sent, d.notice ∈ pending ∧ p.sent channel = some d.sentAt := by
  unfold Monitor.sendChannel
  dsimp only
  split
  · next sentAt hsent =>
    refine ⟨_, rfl, fun d hd => ?_⟩
    obtain ⟨notice, hnotice, rfl⟩ := List.mem_map.1 hd
    exact ⟨(List.mem_filter.1 hnotice).1, hsent⟩
  · exact ⟨[], (List.append_nil _).symm, fun d hd => absurd hd List.not_mem_nil⟩

/-- What a poll delivers, it offered, and it was sent on one of the channels. -/
theorem of_mem_deliveredAt {d : Delivery} (h : d ∈ deliveredAt before p) :
    d.notice ∈ pendingAt before p ∧ ∃ channel, p.sent channel = some d.sentAt := by
  have hstep : afterPolls (before ++ [p]) = Monitor.poll (afterPolls before) p := by
    unfold afterPolls
    rw [List.foldl_append]
    rfl
  obtain ⟨market, hmarket, hmarketMem⟩ := sendChannel_snd (p := p) (pendingAt before p)
    (((afterPolls before).1.pending p.issues p.now p.repeatAlertSecs).1, logBefore before) .market
  obtain ⟨order, horder, horderMem⟩ := sendChannel_snd (p := p) (pendingAt before p)
    (sendChannel p (pendingAt before p)
      (((afterPolls before).1.pending p.issues p.now p.repeatAlertSecs).1, logBefore before) .market)
    .order
  have hlog : logBefore (before ++ [p]) = logBefore before ++ (market ++ order) := by
    unfold logBefore
    rw [hstep]
    show (sendChannel p (pendingAt before p) (sendChannel p (pendingAt before p)
      (((afterPolls before).1.pending p.issues p.now p.repeatAlertSecs).1, logBefore before)
        .market) .order).2 = _
    rw [horder, hmarket, List.append_assoc]
    rfl
  rw [deliveredAt, hlog, List.drop_left, List.mem_append] at h
  rcases h with h | h
  · exact ⟨(hmarketMem d h).1, _, (hmarketMem d h).2⟩
  · exact ⟨(horderMem d h).1, _, (horderMem d h).2⟩

theorem Timed.now_le {after : List Poll} (h : Timed (before ++ p :: after)) {channel : NoticeChannel}
    {sentAt : Nat} (hsent : p.sent channel = some sentAt) : p.now ≤ sentAt := by
  have hround : p.instants.Pairwise (· ≤ ·) := by
    refine h.sublist ?_
    rw [List.flatMap_append, List.flatMap_cons]
    exact (List.sublist_append_left _ _).trans (List.sublist_append_right _ _)
  refine (List.pairwise_cons.1 hround).1 sentAt ?_
  rw [List.mem_append, Option.mem_toList, Option.mem_toList]
  cases channel with
  | market => exact Or.inl hsent
  | order => exact Or.inr hsent

theorem lastSent_eq (before : List Poll) (key : String) :
    ((afterPolls before).1.state key).lastSent = outstanding (logBefore before) key :=
  (trackerInv_afterPolls before key).lastSent

theorem alternates {d : Delivery} (hd : d ∈ deliveredAt before p)
    (hrecovery : d.notice.recovery = true) :
    (outstanding (logBefore before) d.notice.key).isSome = true := by
  obtain ⟨hpending, -⟩ := of_mem_deliveredAt hd
  obtain ⟨-, -, hsent⟩ := mem_recoveriesOf (absent_of_pending hpending hrecovery)
  rwa [lastSent_eq] at hsent

theorem spaced {after : List Poll} (htimed : Timed (before ++ p :: after)) {d : Delivery}
    (hd : d ∈ deliveredAt before p) (halert : d.notice.recovery = false) {t : Nat}
    (ht : outstanding (logBefore before) d.notice.key = some t) :
    t + repeatInterval p.repeatAlertSecs ≤ d.sentAt := by
  obtain ⟨hpending, channel, hsent⟩ := of_mem_deliveredAt hd
  have hnow := htimed.now_le hsent
  rw [pendingAt, pending_eq, List.mem_append] at hpending
  rcases hpending with hpending | hpending
  · obtain ⟨issue, -, hoffers, hnotice⟩ := mem_alertsOf.1 hpending
    have hkey : d.notice.key = issue.key := by
      rw [← hnotice]
      rfl
    rw [hkey] at ht
    have hdue := (Bool.and_eq_true_iff.1 hoffers).2
    rw [AlertState.due, lastSent_eq, ht, Option.all_some, decide_eq_true_eq] at hdue
    have hpos : 0 < repeatInterval p.repeatAlertSecs := by
      unfold repeatInterval MIN_REPEAT_ALERT_SECS NANOS_PER_SEC
      omega
    omega
  · rw [(mem_recoveriesOf hpending).2.1] at halert
    cases halert

theorem offered {issue : MonitorIssue} (hissue : issue ∈ p.issues)
    (hnone : outstanding (logBefore before) issue.key = none) {t : Nat}
    (ht : seenSince (before ++ [p]) issue.key = some t)
    (hdelay : issue.initialDelaySecs * NANOS_PER_SEC ≤ p.now - t) :
    ∃ notice ∈ pendingAt before p, notice.key = issue.key ∧ notice.recovery = false := by
  refine ⟨issue.notice, ?_, rfl, rfl⟩
  rw [pendingAt, pending_eq, List.mem_append]
  refine Or.inl (mem_alertsOf.2 ⟨issue, hissue, ?_, rfl⟩)
  have hinv := trackerInv_afterPolls before issue.key
  have hsent : ((afterPolls before).1.state issue.key).lastSent = none :=
    (lastSent_eq before issue.key).trans hnone
  have hsee := hinv.see p.now issue
  rw [seenSince_concat, isCurrent_iff.2 ⟨issue, hissue, rfl⟩, if_pos rfl] at ht
  have hfirst := (hsee.waiting hnone).2 rfl
  rw [ht] at hfirst
  have hvisible : (((afterPolls before).1.state issue.key).see p.now issue).visible = true := by
    show (((afterPolls before).1.state issue.key).see p.now issue).firstSeen.all _ = true
    rw [hfirst, Option.all_some]
    exact decide_eq_true hdelay
  rw [AlertTracker.offers, hvisible, AlertState.due, hsent]
  rfl

theorem recovery_offered {key : String} (habsent : ∀ issue ∈ p.issues, issue.key ≠ key)
    (hsent : (outstanding (logBefore before) key).isSome = true) :
    ∃ notice ∈ pendingAt before p, notice.key = key ∧ notice.recovery = true := by
  have hcurrent : isCurrent p.issues key = false := by
    rw [← Bool.not_eq_true, isCurrent_iff]
    rintro ⟨issue, hissue, hkey⟩
    exact habsent issue hissue hkey
  have hinv := trackerInv_afterPolls before key
  obtain ⟨notice, hnotice, hkey, hrecovery⟩ := exists_recovery p.now hcurrent
    (hinv.alerted hsent) (by rwa [lastSent_eq]) hinv.recoveryPending
  refine ⟨notice, ?_, hkey, hrecovery⟩
  rw [pendingAt, pending_eq, List.mem_append]
  exact Or.inr hnotice

end

/-- **Alerts and recoveries alternate and none is lost**, in a run whose polls offer no key
twice. -/
theorem alerts_iff {polls : List Poll} (htimed : Timed polls) :
    (∀ before p after, polls = before ++ p :: after → PollLaws before p) ↔
      ∀ before p after, polls = before ++ p :: after → Unrepeated before p := by
  constructor
  · intro h before p after hpolls
    exact nodup_pending_iff.1 (h before p after hpolls).single
  · intro h before p after hpolls
    have hsingle := nodup_pending_iff.2 (h before p after hpolls)
    subst hpolls
    exact {
      single := hsingle
      alternates := fun _ hd hrecovery => alternates hd hrecovery
      spaced := fun _ hd halert _ ht => spaced htimed hd halert ht
      offers := fun _ hissue hnone _ ht hdelay => offered hissue hnone ht hdelay
      recovers := fun _ habsent hsent => recovery_offered habsent hsent }

/-- An issue of a quantity that the rows of a snapshot disagree on. -/
def sampleIssue : MonitorIssue where
  key := "position:one:account-qty:BTCUSDT"
  message := "BTCUSDT"
  initialDelaySecs := 0

def samplePoll (issues : List MonitorIssue) (now : Nat) : Poll where
  issues := issues
  now := now
  repeatAlertSecs := 60
  market := none
  order := some now

/-- Three rows with three quantities give the issue twice, and two alerts go out at once. -/
theorem alerts_repeated : ¬ PollLaws [] (samplePoll [sampleIssue, sampleIssue] 0) := by
  intro h
  have hsingle := nodup_pending_iff.1 h.single
  revert hsingle
  decide +kernel

/-- An alert, its recovery, and the alert of the next failure. -/
theorem alerts_iff_sample : PollLaws [] (samplePoll [sampleIssue] 0) ∧
    PollLaws [samplePoll [sampleIssue] 0] (samplePoll [] 1) ∧
    PollLaws [samplePoll [sampleIssue] 0, samplePoll [] 1] (samplePoll [sampleIssue] 2) := by
  have hnodup : ∀ p ∈ [samplePoll [sampleIssue] 0, samplePoll [] 1, samplePoll [sampleIssue] 2],
      (p.issues.map MonitorIssue.key).Nodup := by
    decide
  have hlaws : ∀ before p after, [samplePoll [sampleIssue] 0, samplePoll [] 1,
      samplePoll [sampleIssue] 2] = before ++ p :: after → PollLaws before p := by
    refine (alerts_iff (by unfold Timed; decide)).2 fun before p after hpolls => ?_
    refine unrepeated_of_nodup (hnodup p ?_)
    rw [hpolls]
    exact List.mem_append_right _ List.mem_cons_self
  exact ⟨hlaws [] _ _ rfl, hlaws [_] _ _ rfl, hlaws [_, _] _ [] rfl⟩

end CtaManager.Monitor
