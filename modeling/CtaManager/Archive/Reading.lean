import CtaManager.Archive.History
import CtaManager.Library.Pages

/-!
Reading the archive page by page, and what holds of it after every run of calls.
-/

namespace CtaManager.Archive

open Check Catalog

variable {F : Type}

/-! ## Pages -/

/-- What a filter hides of a message leaves its key. -/
theorem PositionUpdateMsg.key_of_visible {sources names : Option (OrdSet String)}
    {message shown : PositionUpdateMsg F} (h : message.visible sources names = some shown) :
    shown.key = message.key := by
  unfold PositionUpdateMsg.visible at h
  split at h
  · cases h
  · cases sources with
    | none =>
      obtain rfl := Option.some.inj h
      rfl
    | some sources =>
      simp only at h
      split at h
      · cases h
      · obtain rfl := Option.some.inj h
        rfl

namespace ArchiveDb

/-- Everything a reader may see, in key order. -/
def visible (db : ArchiveDb F) (sources names : Option (OrdSet String)) :
    List (PositionUpdateMsg F) :=
  db.updates.toList.filterMap fun p => p.2.visible sources names

theorem pageLoop_eq (sources names : Option (OrdSet String)) (after : Option SeqKey) (limit : Nat)
    (l : List (SeqKey × PositionUpdateMsg F)) (count : Nat) (hcount : count < limit) :
    pageLoop sources names after limit l count =
      ((l.filter fun p => after.all fun k => decide (k < p.1)).filterMap
        fun p => p.2.visible sources names).take (limit - count) := by
  induction l generalizing count with
  | nil => simp [pageLoop]
  | cons p l ih =>
    obtain ⟨cursor, message⟩ := p
    have hskip : (after.any fun k => decide (cursor ≤ k)) = !(after.all fun k => decide (k < cursor)) := by
      cases after with
      | none => rfl
      | some k =>
        by_cases h : cursor ≤ k
        · simp [h, not_lt.2 h]
        · simp [h, not_le.1 h]
    unfold pageLoop
    rw [hskip]
    cases hafter : after.all fun k => decide (k < cursor) with
    | false =>
      rw [List.filter_cons_of_neg (by simp [hafter])]
      exact ih count hcount
    | true =>
      rw [List.filter_cons_of_pos (by simp [hafter]), List.filterMap_cons]
      simp only [Bool.not_true, Bool.false_eq_true, if_false]
      cases message.visible sources names with
      | none => exact ih count hcount
      | some shown =>
        simp only
        by_cases hlast : count + 1 = limit
        · have : limit - count = 1 := by omega
          rw [if_pos hlast, this]
          simp
        · have : limit - count = limit - (count + 1) + 1 := by omega
          rw [if_neg hlast, this, List.take_succ_cons, ih (count + 1) (by omega)]

end ArchiveDb

section

variable [F64 F] [Text.Unicode]

namespace Faithful

theorem visible_sorted {s : PositionArchive F × History F} (h : Faithful s)
    (sources names : Option (OrdSet String)) :
    (s.1.db.visible sources names).Pairwise fun a b => a.key < b.key := by
  unfold ArchiveDb.visible
  rw [List.pairwise_filterMap]
  refine (OrdMap.sorted_keys_toList s.1.db.updates).imp_of_mem fun {a b} ha hb hlt => ?_
  intro shown hshown shown' hshown'
  rw [PositionUpdateMsg.key_of_visible hshown, PositionUpdateMsg.key_of_visible hshown',
    (h.stamped _ _ (OrdMap.mem_toList.1 ha)).1, (h.stamped _ _ (OrdMap.mem_toList.1 hb)).1]
  exact hlt

/-- A page behind a stored key, or the first one. -/
theorem rawJsonPageForSources_eq {s : PositionArchive F × History F} (h : Faithful s)
    {limit : Nat} (hlimit : 0 < limit) (sources names : Option (OrdSet String))
    {after : Option SeqKey} (hafter : ∀ k ∈ after, 0 < k.receivedAtUs) :
    s.1.db.rawJsonPageForSources after limit sources names =
      .ok (Pages.page PositionUpdateMsg.key (s.1.db.visible sources names) limit after) := by
  have hstart : (after.map fun k => (⟨max k.receivedAtUs 1, k.seq⟩ : SeqKey)) = after := by
    cases after with
    | none => rfl
    | some k =>
      have hk := hafter k rfl
      rw [Option.map_some, max_eq_left (by omega)]
  have hsign : (!after.any fun k => decide (k.receivedAtUs < 0)) = true := by
    cases after with
    | none => rfl
    | some k =>
      have hk := hafter k rfl
      simp only [Option.any_some, Bool.not_eq_true', decide_eq_false_iff_not]
      omega
  have hlimit' : (limit != 0) = true := by simpa using hlimit.ne'
  unfold ArchiveDb.rawJsonPageForSources
  simp only [hlimit', hsign, ensure_true, ok_bind, hstart, pure_eq_ok]
  rw [ArchiveDb.pageLoop_eq _ _ _ _ _ _ hlimit, Nat.sub_zero, List.filter_filter]
  unfold Pages.page Pages.following ArchiveDb.visible
  congr 2
  -- what the iterator skips comes before the cursor
  have hskip : (s.1.db.updates.toList.filter fun p =>
      (after.all fun k => decide (k < p.1)) && after.all fun k => decide (k ≤ p.1)) =
      s.1.db.updates.toList.filter fun p => after.all fun k => decide (k < p.1) := by
    refine List.filter_congr fun p _ => ?_
    cases after with
    | none => rfl
    | some k =>
      by_cases hlt : k < p.1
      · simp [hlt, hlt.le]
      · simp [hlt]
  rw [hskip, List.filter_filterMap, List.filterMap_filter]
  refine List.filterMap_congr fun p hp => ?_
  have hkey := (h.stamped _ _ (OrdMap.mem_toList.1 hp)).1
  cases hshown : p.2.visible sources names with
  | none => simp
  | some shown =>
    have hshownKey : shown.key = p.1 :=
      (PositionUpdateMsg.key_of_visible hshown).trans hkey
    rw [← hshownKey]
    simp [Option.filter]

/-- Reading page by page shows every visible message once, in key order. -/
theorem readPages_eq {s : PositionArchive F × History F} (h : Faithful s) {limit : Nat}
    (hlimit : 0 < limit) (sources names : Option (OrdSet String)) (rounds : Nat)
    {after : Option SeqKey} (hafter : ∀ k ∈ after, 0 < k.receivedAtUs) :
    s.1.db.readPages limit sources names rounds after =
      .ok (Pages.pages PositionUpdateMsg.key (s.1.db.visible sources names) limit rounds after) := by
  induction rounds generalizing after with
  | zero => rfl
  | succ rounds ih =>
    unfold ArchiveDb.readPages Pages.pages
    rw [h.rawJsonPageForSources_eq hlimit sources names hafter, ok_bind]
    cases hlast : (Pages.page PositionUpdateMsg.key (s.1.db.visible sources names) limit
      after).getLast? with
    | none => rfl
    | some last =>
      have hmem := List.mem_of_mem_take (List.mem_of_getLast? hlast)
      have hmem := (List.mem_filter.1 hmem).1
      obtain ⟨p, hp, hshown⟩ := List.mem_filterMap.1 hmem
      have hstamped := h.stamped _ _ (OrdMap.mem_toList.1 hp)
      have hpos : 0 < last.key.receivedAtUs := by
        rw [PositionUpdateMsg.key_of_visible hshown, hstamped.1]
        exact hstamped.2.1
      have hrest := @ih (some last.key) fun k hk => by
        rw [← Option.some.inj hk]
        exact hpos
      simp only [hrest, ok_bind]
      rfl

end Faithful

end

/-! ## Runs -/

section

variable [DecidableEq F] [F64 F] [Text.Unicode]

/-- What a run leaves: the messages in call order under consecutive numbers, a current
target whose retry adds nothing, and pages that show everything once. -/
structure ArchiveSound (s : PositionArchive F × History F) : Prop where
  rows : ∀ key : SeqKey, s.1.db.updates[key]? = (s.2.received key.receivedAtUs)[key.seq]?
  stamped : ∀ (key : SeqKey) (message : PositionUpdateMsg F),
    s.1.db.updates[key]? = some message → message.key = key
  retried : ∀ t : StoredTarget F, s.2.targets t.strategy.strategyName = some t →
    ∀ (publishedAccounts : List (ArchivedPublishedAccount F)) (outcome : WriteOutcome),
      (s.1.appendTarget t.strategy t.createdAtUs publishedAccounts outcome).1.db = s.1.db ∧
      (outcome = .committed → s.1.targetWrites.revision < maxRevision →
        (s.1.appendTarget t.strategy t.createdAtUs publishedAccounts outcome).2 =
          .ok t.message ∧
        (s.1.appendTarget t.strategy t.createdAtUs publishedAccounts outcome).1.lastKey =
          max s.1.lastKey t.message.key)
  pages : ∀ limit, 0 < limit → ∀ sources names : Option (OrdSet String),
    ∃ pages, s.1.db.readPages limit sources names (s.1.db.updates.size + 1) none = .ok pages ∧
      pages.flatten = s.1.db.visible sources names
  ordered : ∀ sources names : Option (OrdSet String),
    (s.1.db.visible sources names).Pairwise fun a b => a.key < b.key

theorem Faithful.sound {s : PositionArchive F × History F} (h : Faithful s) : ArchiveSound s := by
  refine ⟨h.rows, fun key message hmem => (h.stamped key message hmem).1,
    fun t ht publishedAccounts outcome => h.retry ht publishedAccounts outcome, ?_,
    h.visible_sorted⟩
  intro limit hlimit sources names
  refine ⟨_, h.readPages_eq hlimit sources names _ (fun k hk => by cases hk), ?_⟩
  have hall : Pages.following PositionUpdateMsg.key (s.1.db.visible sources names) none =
      s.1.db.visible sources names := List.filter_eq_self.2 fun _ _ => rfl
  rw [Pages.flatten_pages (h.visible_sorted sources names) hlimit, hall]
  rw [hall]
  refine lt_of_le_of_lt (List.length_filterMap_le _ _) ?_
  rw [Std.ExtTreeMap.length_toList]
  exact Nat.lt_succ_self _

/-- A new archive. -/
def PositionArchive.start : PositionArchive F × History F := (openDb .empty, .empty)

/-- A run in which no message clashes with an unacknowledged one and no target is
shadowed. -/
theorem faithful_run {calls : List (ArchiveCall F)}
    (h : Steps.Along PositionArchive.step
      (fun s c => ∀ q, c.request = some q → s.1.Unclashing q ∧ s.1.Unshadowed q)
      PositionArchive.start calls) :
    Faithful (Steps.run PositionArchive.step PositionArchive.start calls) :=
  h.invariant (I := Faithful) (fun _ c hs hc => hs.step c hc) .empty

theorem kept_run {s : PositionArchive F × History F} (hs : Faithful s)
    {calls : List (ArchiveCall F)}
    (h : Steps.Along PositionArchive.step
      (fun s c => ∀ q, c.request = some q → s.1.Unclashing q ∧ s.1.Unshadowed q) s calls)
    {key : SeqKey} {message : PositionUpdateMsg F} (hmem : s.1.db.updates[key]? = some message) :
    (Steps.run PositionArchive.step s calls).1.db.updates[key]? = some message := by
  induction calls generalizing s with
  | nil => exact hmem
  | cons c calls ih =>
    exact ih (hs.step c h.1) h.2 (hs.kept c (fun q hq => (h.1 q hq).1) hmem)

/-- What holds of the archive after every run of appends, target appends and reopens.

A run none of whose calls reports an error for a message it stored above the head,
and none of whose targets is stored beside an earlier message of its name and time,
has the last stored key as its head.  Without the first condition all but the head
stay right as long as no message is added under a timestamp with a stored key above
the head: the failed target is retried, or the archive reopened, before. -/
theorem archive_runs (calls : List (ArchiveCall F)) :
    (Steps.Along PositionArchive.step
        (fun s c => ∀ q, c.request = some q → s.1.Acknowledged q ∧ s.1.Unshadowed q)
        PositionArchive.start calls →
      ArchiveSound (Steps.run PositionArchive.step PositionArchive.start calls) ∧
        (Steps.run PositionArchive.step PositionArchive.start calls).1.latestCursor =
          (Steps.run PositionArchive.step PositionArchive.start calls).1.db.latestKey.getD ⟨0, 0⟩) ∧
      (Steps.Along PositionArchive.step
          (fun s c => ∀ q, c.request = some q → s.1.Unclashing q ∧ s.1.Unshadowed q)
          PositionArchive.start calls →
        ArchiveSound (Steps.run PositionArchive.step PositionArchive.start calls) ∧
          ∀ before after, calls = before ++ after →
            ∀ (key : SeqKey) (message : PositionUpdateMsg F),
              (Steps.run PositionArchive.step PositionArchive.start before).1.db.updates[key]? =
                  some message →
                (Steps.run PositionArchive.step PositionArchive.start calls).1.db.updates[key]? =
                  some message) := by
  constructor
  · intro h
    -- the head knows every key, so nothing clashes
    have hstep : ∀ (s : PositionArchive F × History F) (c : ArchiveCall F),
        Faithful s ∧ Settled s.1 →
        (∀ q, c.request = some q → s.1.Acknowledged q ∧ s.1.Unshadowed q) →
        Faithful (PositionArchive.step s c) ∧ Settled (PositionArchive.step s c).1 := by
      rintro s c ⟨hs, hsettled⟩ hc
      refine ⟨hs.step c fun q hq => ⟨fun _ key hkey _ => hsettled key hkey, (hc q hq).2⟩, ?_⟩
      exact hs.step_settled hsettled c fun q hq => (hc q hq).1
    have hstart : Settled (PositionArchive.start : PositionArchive F × History F).1 :=
      fun _ hkey => absurd hkey Std.ExtTreeMap.not_mem_empty
    obtain ⟨hs, hsettled⟩ := h.invariant
      (I := fun s : PositionArchive F × History F => Faithful s ∧ Settled s.1)
      hstep ⟨.empty, hstart⟩
    exact ⟨hs.sound, hs.lastKey_eq hsettled⟩
  · intro h
    refine ⟨(faithful_run h).sound, ?_⟩
    rintro before after rfl key message hmem
    rw [Steps.along_append] at h
    rw [Steps.run_append]
    exact kept_run (faithful_run h.1) h.2 hmem

end

/-! ## A target whose stored batch was reported as failed -/

/-- A strategy without targets. -/
def plainStrategy (name : String) (updatedAtUs : Int) : PositionStrategy ℚ :=
  { strategyName := name, targets := ∅, symbolOrderStrategyOverrides := ∅, updatedAtUs }

/-- The batch of a target is stored, but its call reports an error; then another
strategy appends in the same microsecond. -/
def clashingCalls : List (ArchiveCall ℚ) :=
  [.appendTarget (plainStrategy "live" 200) 7 [] .reported,
    .append 200 (plainStrategy "other" 100) [] [] .committed]

/-- A configuration event of a strategy at the time of its target, before the target. -/
def shadowingCalls : List (ArchiveCall ℚ) :=
  [.append 200 (plainStrategy "live" 200) [] [⟨"main", "live", 0⟩] .committed,
    .appendTarget (plainStrategy "live" 200) 7 [⟨"main", "live", 1⟩] .committed]

/-- A target and its retry, a message of its microsecond, another target and a reopen. -/
def calmCalls (first : WriteOutcome) : List (ArchiveCall ℚ) :=
  [.appendTarget (plainStrategy "live" 200) 7 [] first,
    .appendTarget (plainStrategy "live" 200) 7 [] .committed,
    .append 200 (plainStrategy "other" 100) [] [] .committed,
    .appendTarget (plainStrategy "live" 300) 7 [] .committed, .reopen]

/-- The message of the failed target is overwritten; and the retry of a target returns
the earlier event of its strategy and time, not its own. -/
theorem archive_overwrites :
    let _ := Text.Unicode.ascii
    let stored (calls : List (ArchiveCall ℚ)) :=
      (Steps.run PositionArchive.step PositionArchive.start calls).1.db.updates.toList.map
        fun p => (p.1, p.2.strategy.strategyName)
    (stored (clashingCalls.take 1) = [(⟨200, 0⟩, "live")] ∧
      stored clashingCalls = [(⟨200, 0⟩, "other")]) ∧
    let shadowed := Steps.run PositionArchive.step PositionArchive.start shadowingCalls
    ((shadowed.2.targets "live").map fun t => t.message.key) = some ⟨200, 1⟩ ∧
      (shadowed.1.appendTarget (plainStrategy "live" 200) 7 [⟨"main", "live", 1⟩]
        .committed).2.toOption.map PositionUpdateMsg.key = some ⟨200, 0⟩ := by
  decide +kernel

/-- What a call needs, looked up in the rows. -/
theorem unclashing_unshadowed [Text.Unicode] {archive : PositionArchive ℚ} {q : AppendRequest ℚ}
    (h : (archive.retries q || archive.db.updates.toList.all fun p =>
      p.1.receivedAtUs != q.receivedAtUs ||
        (decide (p.1 ≤ archive.lastKey) && !sameEvent q.strategy p.2)) = true) :
    archive.Unclashing q ∧ archive.Unshadowed q := by
  have hrow : archive.retries q = false → ∀ (key : SeqKey) message,
      archive.db.updates[key]? = some message → key.receivedAtUs = q.receivedAtUs →
        key ≤ archive.lastKey ∧ sameEvent q.strategy message = false := by
    intro hretry key message hmem hkey
    rw [hretry, Bool.false_or, List.all_eq_true] at h
    have hcheck := h (key, message) (OrdMap.mem_toList.2 hmem)
    simpa [hkey] using hcheck
  refine ⟨fun hretry key hmem hkey => ?_, fun hretry _ key message hmem hkey hsame => ?_⟩
  · obtain ⟨message, hmessage⟩ := Option.isSome_iff_exists.1
      (Std.ExtTreeMap.mem_iff_isSome_getElem?.1 hmem)
    exact (hrow hretry key message hmessage hkey).1
  · have hother := (hrow hretry key message hmem hkey).2
    unfold sameEvent at hother
    simp [hsame] at hother

/-- The calm runs keep all three messages, also when the first target is reported as failed. -/
theorem archive_runs_calm :
    let _ := Text.Unicode.ascii
    let after (first : WriteOutcome) :=
      Steps.run PositionArchive.step PositionArchive.start (calmCalls first)
    ArchiveSound (after .committed) ∧
      (after .committed).1.latestCursor =
        (after .committed).1.db.latestKey.getD ⟨0, 0⟩ ∧
      ArchiveSound (after .reported) ∧
      (after .reported).1.db.updates.toList.map Prod.fst = [⟨200, 0⟩, ⟨200, 1⟩, ⟨300, 0⟩] := by
  intro _ after
  have hcommitted : Steps.Along PositionArchive.step
      (fun s c => ∀ q, c.request = some q → s.1.Acknowledged q ∧ s.1.Unshadowed q)
      PositionArchive.start (calmCalls .committed) := by
    refine ⟨?_, ?_, ?_, ?_, (fun q hq => nomatch hq), trivial⟩
    all_goals
      intro q hq
      obtain rfl := Option.some.inj hq
      refine ⟨fun _ _ => ⟨by decide, fun _ => by decide +kernel⟩, ?_⟩
      exact (unclashing_unshadowed (by decide +kernel)).2
  have hreported : Steps.Along PositionArchive.step
      (fun s c => ∀ q, c.request = some q → s.1.Unclashing q ∧ s.1.Unshadowed q)
      PositionArchive.start (calmCalls .reported) := by
    refine ⟨?_, ?_, ?_, ?_, (fun q hq => nomatch hq), trivial⟩
    all_goals
      intro q hq
      obtain rfl := Option.some.inj hq
      exact unclashing_unshadowed (by decide +kernel)
  obtain ⟨hsound, hcursor⟩ := (archive_runs (calmCalls .committed)).1 hcommitted
  exact ⟨hsound, hcursor, ((archive_runs (calmCalls .reported)).2 hreported).1, by decide +kernel⟩

end CtaManager.Archive
