import CtaManager.Archive.History

/-!
The writes behind a reader (`target_changes_since` of `position_archive.rs`).

The archive counts its writes and lists the keys of those that went behind the head, the last
1024 of them.  A reader that has read the count and everything up to a cursor asks what was
counted since.  A write behind the head is known from its count on (`Knows`): it stays in the
list, or it is at most what was dropped from it.
-/

namespace CtaManager.Archive

open Check

variable {F : Type}

/-- `target_changes_since`: the count of writes, and whether one of those counted after
`revision` went behind the cursor. -/
def PositionArchive.targetChangesSince (archive : PositionArchive F) (revision : Nat)
    (stableCursor : Option SeqKey) : Nat × Bool :=
  (archive.targetWrites.revision, stableCursor.any fun cursor =>
    decide (revision < archive.targetWrites.discardedLateRevision) ||
      archive.targetWrites.late.any fun entry =>
        decide (revision < entry.1) && decide (entry.2 ≤ cursor))

namespace TargetWrites

/-- The late keys are listed in the order of their counts, above what was dropped. -/
structure Ordered (writes : TargetWrites) : Prop where
  discarded : writes.discardedLateRevision ≤ writes.revision
  late : writes.late.Pairwise fun a b => a.1 ≤ b.1
  counted : ∀ entry ∈ writes.late,
    writes.discardedLateRevision ≤ entry.1 ∧ entry.1 ≤ writes.revision

/-- A write under the key, counted after `revision`, is listed or was dropped. -/
def Knows (writes : TargetWrites) (revision : Nat) (key : SeqKey) : Prop :=
  revision < writes.discardedLateRevision ∨
    ∃ counted, revision < counted ∧ (counted, key) ∈ writes.late

theorem ordered_start : Ordered ⟨0, 0, []⟩ :=
  ⟨le_rfl, List.Pairwise.nil, fun _ h => absurd h List.not_mem_nil⟩

theorem Ordered.not_knows {writes : TargetWrites} (h : writes.Ordered) (key : SeqKey) :
    ¬writes.Knows writes.revision key := by
  rintro (hlt | ⟨counted, hlt, hmem⟩)
  · exact absurd h.discarded (not_le.2 hlt)
  · exact absurd (h.counted _ hmem).2 (not_le.2 hlt)

end TargetWrites

namespace PositionArchive

/-- What is known behind a cursor is reported. -/
theorem targetChangesSince_of_knows {archive : PositionArchive F} {revision : Nat}
    {cursor key : SeqKey} (h : archive.targetWrites.Knows revision key) (hle : key ≤ cursor) :
    (archive.targetChangesSince revision (some cursor)).2 = true := by
  show (decide _ || _) = true
  rw [Bool.or_eq_true, decide_eq_true_eq, List.any_eq_true]
  rcases h with hlt | ⟨counted, hlt, hmem⟩
  · exact Or.inl hlt
  · exact Or.inr ⟨_, hmem, by simp [hlt, hle]⟩

/-- What the count of a write leaves. -/
structure Recorded (archive : PositionArchive F) (key : SeqKey) (after : PositionArchive F) :
    Prop where
  db : after.db = archive.db
  head : after.lastKey = max archive.lastKey key
  revision : after.targetWrites.revision = archive.targetWrites.revision + 1
  ordered : after.targetWrites.Ordered
  keeps : ∀ revision key', archive.targetWrites.Knows revision key' →
    after.targetWrites.Knows revision key'
  knows : ∀ revision ≤ archive.targetWrites.revision, key < archive.lastKey →
    after.targetWrites.Knows revision key

theorem recordAppend_recorded {archive : PositionArchive F} {key : SeqKey}
    (hordered : archive.targetWrites.Ordered) (h : archive.targetWrites.revision < maxRevision) :
    Recorded archive key (archive.recordAppend key).1 := by
  obtain ⟨hdiscarded, hlate, hcounted⟩ := hordered
  unfold recordAppend
  rw [if_pos h]
  by_cases hlt : key < archive.lastKey
  · simp only [if_pos hlt]
    have hpairwise : (archive.targetWrites.late ++ [(archive.targetWrites.revision + 1, key)]).Pairwise
        fun a b => a.1 ≤ b.1 := by
      refine List.pairwise_append.2 ⟨hlate, List.pairwise_singleton _ _, fun a ha b hb => ?_⟩
      obtain rfl := List.mem_singleton.1 hb
      exact (hcounted a ha).2.trans (Nat.le_succ _)
    have hbounds : ∀ entry ∈ archive.targetWrites.late ++ [(archive.targetWrites.revision + 1, key)],
        archive.targetWrites.discardedLateRevision ≤ entry.1 ∧
          entry.1 ≤ archive.targetWrites.revision + 1 := by
      intro entry hentry
      rcases List.mem_append.1 hentry with hmem | hmem
      · exact ⟨(hcounted entry hmem).1, (hcounted entry hmem).2.trans (Nat.le_succ _)⟩
      · obtain rfl := List.mem_singleton.1 hmem
        exact ⟨hdiscarded.trans (Nat.le_succ _), le_rfl⟩
    have hnew : (archive.targetWrites.revision + 1, key) ∈
        archive.targetWrites.late ++ [(archive.targetWrites.revision + 1, key)] :=
      List.mem_append_right _ (List.mem_singleton_self _)
    have hold : ∀ entry ∈ archive.targetWrites.late,
        entry ∈ archive.targetWrites.late ++ [(archive.targetWrites.revision + 1, key)] :=
      fun entry hentry => List.mem_append_left _ hentry
    generalize archive.targetWrites.late ++ [(archive.targetWrites.revision + 1, key)] = late
      at hpairwise hbounds hnew hold
    cases late with
    | nil => exact absurd hnew List.not_mem_nil
    | cons first rest =>
      obtain ⟨hfirst, hrest⟩ := List.pairwise_cons.1 hpairwise
      simp only
      by_cases hfull : 1024 < (first :: rest).length
      · -- the first of them is dropped, and what was dropped before is below it
        rw [if_pos hfull]
        have hdropped : ∀ revision entry, revision < entry.1 → entry ∈ first :: rest →
            revision < first.1 ∨ entry ∈ rest := by
          intro revision entry hrev hmem
          rcases List.mem_cons.1 hmem with rfl | hmem
          · exact Or.inl hrev
          · exact Or.inr hmem
        refine ⟨rfl, rfl, rfl, ⟨?_, hrest, fun entry hentry => ?_⟩, ?_, ?_⟩
        · exact (hbounds first List.mem_cons_self).2
        · exact ⟨hfirst entry hentry, (hbounds entry (List.mem_cons_of_mem _ hentry)).2⟩
        · rintro revision key' (hdisc | ⟨counted, hrev, hmem⟩)
          · exact Or.inl (lt_of_lt_of_le hdisc (hbounds first List.mem_cons_self).1)
          · rcases hdropped revision _ hrev (hold _ hmem) with hlt' | hmem
            · exact Or.inl hlt'
            · exact Or.inr ⟨counted, hrev, hmem⟩
        · intro revision hrev _
          rcases hdropped revision _ (Nat.lt_succ_of_le hrev) hnew with hlt' | hmem
          · exact Or.inl hlt'
          · exact Or.inr ⟨_, Nat.lt_succ_of_le hrev, hmem⟩
      · rw [if_neg hfull]
        refine ⟨rfl, rfl, rfl, ⟨hdiscarded.trans (Nat.le_succ _), hpairwise, hbounds⟩, ?_, ?_⟩
        · rintro revision key' (hdisc | ⟨counted, hrev, hmem⟩)
          · exact Or.inl hdisc
          · exact Or.inr ⟨counted, hrev, hold _ hmem⟩
        · exact fun revision hrev _ => Or.inr ⟨_, Nat.lt_succ_of_le hrev, hnew⟩
  · simp only [if_neg hlt]
    refine ⟨rfl, rfl, rfl, ⟨hdiscarded.trans (Nat.le_succ _), hlate, fun entry hentry => ?_⟩, ?_,
      fun _ _ h => absurd h hlt⟩
    · exact ⟨(hcounted entry hentry).1, (hcounted entry hentry).2.trans (Nat.le_succ _)⟩
    · exact fun _ _ h => h

section

variable [DecidableEq F] [F64 F] [Text.Unicode]

omit [DecidableEq F] [F64 F] [Text.Unicode] in
/-- The number of the next message is above those of its timestamp. -/
theorem nextSeq_fresh {archive : PositionArchive F} (hsettled : Settled archive)
    (hseqs : ∀ key ∈ archive.db.updates, key.seq ≤ maxSeq) {receivedAtUs : Int} {seq : Nat}
    (h : archive.nextSeq receivedAtUs = .ok seq) :
    seq ≤ maxSeq ∧ (⟨receivedAtUs, seq⟩ : SeqKey) ∉ archive.db.updates := by
  have hfollowing : ∀ seq' : Nat, (do
      ensure (decide (seq' < maxSeq)) ArchiveError.sequenceExhausted
      return seq' + 1) = Except.ok seq → seq = seq' + 1 ∧ seq ≤ maxSeq := by
    intro seq' hok
    obtain ⟨_, hlt, hret⟩ := bind_eq_ok.1 hok
    rw [ensure_eq_ok, decide_eq_true_eq] at hlt
    have : seq' + 1 = seq := Except.ok.inj hret
    omega
  unfold nextSeq at h
  simp only at h
  by_cases hnew : archive.lastKey.receivedAtUs < receivedAtUs
  · rw [if_pos hnew] at h
    obtain rfl : 0 = seq := Except.ok.inj h
    refine ⟨Nat.zero_le _, fun hmem => ?_⟩
    exact absurd (hsettled _ hmem) (not_le.2 (SeqKey.lt_iff.2 (Or.inl hnew)))
  rw [if_neg hnew] at h
  by_cases heq : receivedAtUs = archive.lastKey.receivedAtUs
  · rw [if_pos heq] at h
    obtain ⟨hsucc, hmax⟩ := hfollowing _ h
    refine ⟨hmax, fun hmem => ?_⟩
    refine absurd (hsettled _ hmem) (not_le.2 (SeqKey.lt_iff.2 (Or.inr ⟨heq.symm, ?_⟩)))
    show archive.lastKey.seq < seq
    omega
  · rw [if_neg heq] at h
    -- an older timestamp: the last stored key up to its end
    have hbound : ∀ seq', seq' ≤ maxSeq →
        (⟨receivedAtUs, seq'⟩ : SeqKey) ≤ ⟨receivedAtUs, maxSeq⟩ :=
      fun seq' hle => SeqKey.le_iff.2 (Or.inr ⟨rfl, hle⟩)
    cases hprevious : (archive.db.updates.toList.filter fun p =>
        decide (p.1 ≤ (⟨receivedAtUs, maxSeq⟩ : SeqKey))).getLast? with
    | none =>
      rw [hprevious] at h
      obtain rfl : 0 = seq := Except.ok.inj h
      refine ⟨Nat.zero_le _, fun hmem => ?_⟩
      obtain ⟨message, hmessage⟩ := Option.isSome_iff_exists.1
        (Std.ExtTreeMap.mem_iff_isSome_getElem?.1 hmem)
      have hfalse := OrdMap.getLast?_filter_toList_eq_none
        (p := fun k => decide (k ≤ (⟨receivedAtUs, maxSeq⟩ : SeqKey))) hprevious _ _ hmessage
      rw [decide_eq_false_iff_not] at hfalse
      exact hfalse (hbound 0 (Nat.zero_le _))
    | some p =>
      obtain ⟨key, message⟩ := p
      rw [hprevious] at h
      obtain ⟨-, hkey, hgreatest⟩ := OrdMap.getLast?_filter_toList
        (p := fun k => decide (k ≤ (⟨receivedAtUs, maxSeq⟩ : SeqKey))) hprevious
      rw [decide_eq_true_eq] at hkey
      -- a stored key of the timestamp is at most the one found, which is of it then
      have hlast : ∀ seq', (⟨receivedAtUs, seq'⟩ : SeqKey) ∈ archive.db.updates →
          key.receivedAtUs = receivedAtUs ∧ seq' ≤ key.seq := by
        intro seq' hmem
        obtain ⟨message', hmessage'⟩ := Option.isSome_iff_exists.1
          (Std.ExtTreeMap.mem_iff_isSome_getElem?.1 hmem)
        have hle := hgreatest _ _ hmessage' (decide_eq_true (hbound seq' (hseqs _ hmem)))
        rcases SeqKey.le_iff.1 hle with hlt | ⟨heq', hle'⟩
        · rcases SeqKey.le_iff.1 hkey with hlt' | ⟨heq', -⟩
          · exact absurd hlt (lt_asymm hlt')
          · exact absurd hlt (not_lt.2 heq'.le)
        · exact ⟨heq'.symm, hle'⟩
      by_cases hsame : key.receivedAtUs = receivedAtUs
      · simp only [if_pos hsame] at h
        obtain ⟨hsucc, hmax⟩ := hfollowing _ h
        refine ⟨hmax, fun hmem => ?_⟩
        have := (hlast seq hmem).2
        omega
      · simp only [if_neg hsame] at h
        obtain rfl : 0 = seq := Except.ok.inj h
        exact ⟨Nat.zero_le _, fun hmem => hsame (hlast 0 hmem).1⟩

/-- The key of a new message is a new key. -/
theorem batch_fresh {archive : PositionArchive F} (hsettled : Settled archive)
    (hseqs : ∀ key ∈ archive.db.updates, key.seq ≤ maxSeq) {q : AppendRequest F}
    {message : PositionUpdateMsg F} (h : archive.batch q = some message) :
    message.seq ≤ maxSeq ∧ message.key ∉ archive.db.updates := by
  obtain ⟨-, -, -, hseq, htime, -, -⟩ := batch_eq_some h
  obtain ⟨hmax, hfresh⟩ := nextSeq_fresh hsettled hseqs hseq
  refine ⟨hmax, ?_⟩
  show (⟨message.receivedAtUs, message.seq⟩ : SeqKey) ∉ archive.db.updates
  rw [htime]
  exact hfresh

/-- A target that is published again is counted again, at most. -/
theorem appendInner_of_retries {archive : PositionArchive F} {q : AppendRequest F}
    (h : archive.retries q = true) :
    (archive.appendInner q.receivedAtUs q.strategy q.factualPositions q.publishedAccounts
        q.currentIdentity q.outcome).1 = archive ∨
      ∃ key ∈ archive.db.updates,
        (archive.appendInner q.receivedAtUs q.strategy q.factualPositions q.publishedAccounts
          q.currentIdentity q.outcome).1 = (archive.recordAppend key).1 := by
  unfold appendInner
  by_cases hpos : q.receivedAtUs ≤ 0
  · rw [if_pos hpos]
    exact Or.inl rfl
  rw [if_neg hpos]
  cases hvalid : q.strategy.validate with
  | error e => exact Or.inl rfl
  | ok u =>
    simp only
    have hretry : (q.currentIdentity.any fun identity =>
        archive.db.current[q.strategy.strategyName]? == some (identity, q.strategy)) = true := h
    rw [if_pos hretry]
    cases hstored : archive.storedTarget q.receivedAtUs q.strategy with
    | none => exact Or.inl rfl
    | some event =>
      obtain ⟨key, message⟩ := event
      simp only
      by_cases hout : q.outcome = .committed
      · rw [if_pos hout]
        refine Or.inr ⟨key, ?_, ?_⟩
        · unfold storedTarget at hstored
          have hmem := List.mem_of_find?_eq_some hstored
          have hevent := (List.mem_filter.1 ((List.takeWhile_sublist _).subset hmem)).1
          exact Std.ExtTreeMap.mem_iff_isSome_getElem?.2
            (by rw [OrdMap.mem_toList.1 hevent]; rfl)
        · rcases archive.recordAppend_cases key with ⟨-, writes, hrec⟩ | ⟨-, hrec⟩
          · rw [hrec]
          · rw [hrec]
      · rw [if_neg hout]
        exact Or.inl rfl

end

end PositionArchive

end CtaManager.Archive
