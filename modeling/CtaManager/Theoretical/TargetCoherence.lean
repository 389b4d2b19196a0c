import CtaManager.Archive.Reading
import CtaManager.Theoretical.TargetRuns

/-!
The target cache is the fold of the archive.

Every step keeps the invariant: a write is missed only until it is counted, a count is read
before the messages it counts, and a cursor that a counted write went behind is dropped.  When
nothing was counted since the last refresh there is nothing missed, and the two parts of the
cache are the deltas of all messages up to that refresh.
-/

namespace CtaManager.Theoretical

open Check Archive Steps

section

variable {F : Type}

/-! ## Messages under some keys -/

theorem messagesOf_congr {rows : TargetRows F} {p q : SeqKey → Bool}
    (h : ∀ key ∈ rows, p key = q key) : messagesOf rows p = messagesOf rows q := by
  unfold messagesOf
  refine congrArg (List.map Prod.snd) (List.filter_congr fun row hrow => h row.1 ?_)
  exact Std.ExtTreeMap.mem_iff_isSome_getElem?.2 (by rw [OrdMap.mem_toList.1 hrow]; rfl)

theorem messagesOf_append {rows : TargetRows F} {p q : SeqKey → Bool}
    (h : ∀ k k', p k = true → q k' = true → k < k') :
    messagesOf rows (fun key => p key || q key) = messagesOf rows p ++ messagesOf rows q := by
  unfold messagesOf
  rw [OrdMap.filter_toList_append h, List.map_append]

/-- A new message, under another key. -/
theorem messagesOf_insert {rows : TargetRows F} {p : SeqKey → Bool} {key : SeqKey}
    (h : p key = false) (message : TargetUpdate F) :
    messagesOf (rows.insert key message) p = messagesOf rows p := by
  unfold messagesOf
  refine congrArg (List.map Prod.snd) (OrdMap.filter_toList_congr fun key' hkey' => ?_)
  rw [OrdMap.getElem?_insert_of_key, if_neg]
  rintro rfl
  rw [h] at hkey'
  cases hkey'

/-- The keys of a visit. -/
def reached (after : Option SeqKey) (endReceivedAtUs : Int) (key : SeqKey) : Bool :=
  (after.all fun cursor => decide (cursor < key)) && decide (key.receivedAtUs ≤ endReceivedAtUs)

theorem visitTargetUpdatesAfter_eq (rows : TargetRows F) (after : Option SeqKey)
    (endReceivedAtUs : Int) :
    visitTargetUpdatesAfter rows after endReceivedAtUs =
      messagesOf rows (reached after endReceivedAtUs) := by
  have hdown : ∀ k k' : SeqKey, k < k' → decide (k'.receivedAtUs ≤ endReceivedAtUs) = true →
      decide (k.receivedAtUs ≤ endReceivedAtUs) = true := by
    intro k k' hlt hle
    rw [decide_eq_true_eq] at hle ⊢
    rcases SeqKey.lt_iff.1 hlt with hlt | ⟨heq, -⟩
    · omega
    · omega
  unfold visitTargetUpdatesAfter messagesOf reached
  rw [OrdMap.takeWhile_filter_toList_down rows
    (fun key => decide (key.receivedAtUs ≤ endReceivedAtUs))
    (fun key => after.all fun cursor => decide (cursor < key)) hdown]

theorem reached_iff {after : Option SeqKey} {endReceivedAtUs : Int} {key : SeqKey} :
    reached after endReceivedAtUs key = true ↔
      (∀ cursor, after = some cursor → cursor < key) ∧ key.receivedAtUs ≤ endReceivedAtUs := by
  unfold reached
  rw [Bool.and_eq_true, decide_eq_true_eq]
  cases after with
  | none => simp
  | some cursor => simp

variable {w : TargetWorld F}

theorem sorted_messagesOf (h : Stored w) (p : SeqKey → Bool) :
    (messagesOf w.rows p).Pairwise fun a b => a.key < b.key := by
  unfold messagesOf
  rw [List.pairwise_map]
  refine ((OrdMap.sorted_keys_toList w.rows).filter _).imp_of_mem fun {a b} ha hb hlt => ?_
  have hkey : ∀ row ∈ w.rows.toList.filter (fun row => p row.1), row.2.key = row.1 :=
    fun row hrow => h.stamped _ _ (OrdMap.mem_toList.1 (List.mem_filter.1 hrow).1)
  rw [hkey a ha, hkey b hb]
  exact hlt

/-- The last of some messages has the greatest key. -/
theorem getLast?_messagesOf (h : Stored w) {p : SeqKey → Bool} {message : TargetUpdate F}
    (hlast : (messagesOf w.rows p).getLast? = some message) :
    message.key ∈ w.rows ∧ p message.key = true ∧ ∀ key ∈ w.rows, p key = true →
      key ≤ message.key := by
  unfold messagesOf at hlast
  rw [List.getLast?_map] at hlast
  obtain ⟨⟨key, message'⟩, hrow, rfl⟩ := Option.map_eq_some_iff.1 hlast
  obtain ⟨hget, hp, hmax⟩ := OrdMap.getLast?_filter_toList hrow
  obtain rfl := h.stamped key message' hget
  refine ⟨Std.ExtTreeMap.mem_iff_isSome_getElem?.2 (by rw [hget]; rfl), hp, fun k hk hpk => ?_⟩
  obtain ⟨v, hv⟩ := Option.isSome_iff_exists.1 (Std.ExtTreeMap.mem_iff_isSome_getElem?.1 hk)
  exact hmax k v hv hpk

theorem getLast?_messagesOf_eq_none {p : SeqKey → Bool}
    (hlast : (messagesOf w.rows p).getLast? = none) : ∀ key ∈ w.rows, p key = false := by
  unfold messagesOf at hlast
  rw [List.getLast?_map, Option.map_eq_none_iff] at hlast
  intro key hkey
  obtain ⟨v, hv⟩ := Option.isSome_iff_exists.1 (Std.ExtTreeMap.mem_iff_isSome_getElem?.1 hkey)
  exact OrdMap.getLast?_filter_toList_eq_none hlast key v hv

end

section

variable {F : Type} [DecidableEq F] [F64 F] [Text.Unicode] {config : List TargetSource}
  {w : TargetWorld F}

/-! ## The steps of the archive -/

/-- The rows of a store that is opened. -/
structure RowsOf (db : ArchiveDb F) (rows : TargetRows F) : Prop where
  keys : ∀ key, key ∈ rows ↔ key ∈ db.updates
  stamped : ∀ (key : SeqKey) (message : TargetUpdate F), rows[key]? = some message →
    message.key = key
  seqs : ∀ key ∈ rows, key.seq ≤ maxSeq

omit [DecidableEq F] [F64 F] [Text.Unicode] in
theorem messagesOf_none (rows : TargetRows F) : messagesOf rows (fun _ => false) = [] := by
  unfold messagesOf
  rw [List.filter_false]
  rfl

omit [DecidableEq F] in
theorem TargetInv.start {db : ArchiveDb F} {rows : TargetRows F} (h : RowsOf db rows)
    (clock : Int) : TargetInv config (.start db rows clock) := by
  have hhead : ∀ key ∈ rows, key ≤ (PositionArchive.openDb db).lastKey := by
    intro key hkey
    have hmem := (h.keys key).1 hkey
    show key ≤ db.latestKey.getD ⟨0, 0⟩
    cases hlast : db.latestKey with
    | none => exact absurd hmem (Faithful.not_mem_of_latestKey hlast key)
    | some last => exact (Faithful.latestKey_of_mem hlast).2 key hmem
  refine ⟨⟨h.keys, h.stamped, h.seqs, fun key hkey => Or.inl (hhead key hkey), ?_⟩,
    TargetWrites.ordered_start, le_rfl, ⟨fun _ => false, ?_, ?_, ?_, ?_, ?_⟩, ?_⟩
  · intro key hkey
    cases hkey
  · intro key hkey
    cases hkey
  · intro cursor hcursor
    cases hcursor
  · intro key hkey cursor hcursor
    cases hcursor
  · show logDeltas config ∅ (messagesOf rows fun _ => false) = _
    rw [messagesOf_none]
    rfl
  · exact indexed_empty
  · intro _ hready
    cases hready

/-- A message is stored; until it is counted it is being written. -/
theorem TargetInv.write (h : TargetInv config w) {q : AppendRequest F}
    (hout : q.outcome ≠ .reported) (accounts : List (TargetAccount F)) :
    TargetInv config (w.write q accounts) := by
  unfold TargetWorld.write
  cases hwriting : w.writing with
  | some key => exact h
  | none =>
    cases hbatch : w.archive.batch q with
    | none => exact h
    | some message =>
      have hcommitted : q.outcome = .committed := by
        have hfailed := (PositionArchive.batch_eq_some hbatch).2.2.2.2.2.2
        cases hq : q.outcome with
        | committed => rfl
        | failed => exact absurd hq hfailed
        | reported => exact absurd hq hout
      have hsettled : Settled w.archive := by
        intro key hkey
        rcases h.stored.head key ((h.stored.keys key).2 hkey) with hle | hw
        · exact hle
        · rw [hwriting] at hw
          cases hw
      obtain ⟨hseq, hfresh⟩ := PositionArchive.batch_fresh hsettled
        (fun key hkey => h.stored.seqs key ((h.stored.keys key).2 hkey)) hbatch
      have hnew : message.key ∉ w.rows := fun hmem => hfresh ((h.stored.keys _).1 hmem)
      obtain ⟨folded, hbase⟩ := h.base
      simp only [hcommitted, if_true]
      have hunfolded : folded message.key = false := by
        cases hf : folded message.key with
        | false => rfl
        | true => exact absurd (hbase.rows _ hf).1 hnew
      refine ⟨⟨?_, ?_, ?_, ?_, ?_⟩, h.ordered, h.revision, ⟨folded, ?_, hbase.cursor, ?_, ?_,
        hbase.indexed⟩, ?_⟩
      · intro key
        show key ∈ w.rows.insert message.key _ ↔ key ∈ w.archive.db.updates.insert message.key message
        rw [OrdMap.mem_insert_iff, OrdMap.mem_insert_iff, h.stored.keys]
      · intro key stored hget
        rw [OrdMap.getElem?_insert_of_key] at hget
        by_cases hkey : message.key = key
        · rw [if_pos hkey] at hget
          rw [← Option.some.inj hget, ← hkey]
          rfl
        · rw [if_neg hkey] at hget
          exact h.stored.stamped key stored hget
      · intro key hkey
        rcases OrdMap.mem_insert_iff.1 hkey with rfl | hmem
        · exact hseq
        · exact h.stored.seqs key hmem
      · intro key hkey
        rcases OrdMap.mem_insert_iff.1 hkey with rfl | hmem
        · exact Or.inr rfl
        · exact Or.inl (hsettled key ((h.stored.keys key).1 hmem))
      · intro key hkey
        obtain rfl := Option.some.inj hkey
        exact OrdMap.mem_insert_iff.2 (Or.inl rfl)
      · intro key hkey
        exact ⟨OrdMap.mem_insert_iff.2 (Or.inr (hbase.rows key hkey).1), (hbase.rows key hkey).2⟩
      · intro key hkey cursor hcursor hle
        rcases OrdMap.mem_insert_iff.1 hkey with rfl | hmem
        · exact Or.inr (Or.inl rfl)
        · rcases hbase.missed key hmem cursor hcursor hle with hf | hw | hknows
          · exact Or.inl hf
          · rw [hwriting] at hw
            cases hw
          · exact Or.inr (Or.inr hknows)
      · show logDeltas config ∅ (messagesOf (w.rows.insert message.key _) folded) = _
        rw [messagesOf_insert hunfolded]
        exact hbase.deltas
      · intro hidle hready
        refine ⟨(h.tail hidle hready).indexed, (h.tail hidle hready).sorted,
          (h.tail hidle hready).refreshed, fun hw => ?_⟩
        cases hw

omit [DecidableEq F] in
/-- A stored message is counted: what the cursor has passed of it is known from now on. -/
theorem TargetInv.counted (h : TargetInv config w) {key : SeqKey} (hkey : key ∈ w.rows)
    (hwriting : ∀ key', w.writing = some key' → key' = key)
    (hrevision : w.archive.targetWrites.revision < maxRevision) :
    TargetInv config { w with archive := (w.archive.recordAppend key).1, writing := none } := by
  have hrec : PositionArchive.Recorded w.archive key (w.archive.recordAppend key).1 :=
    PositionArchive.recordAppend_recorded h.ordered hrevision
  generalize (w.archive.recordAppend key).1 = after at hrec
  obtain ⟨folded, hbase⟩ := h.base
  refine ⟨⟨?_, h.stored.stamped, h.stored.seqs, ?_, ?_⟩, hrec.ordered, ?_,
    ⟨folded, hbase.rows, hbase.cursor, ?_, hbase.deltas, hbase.indexed⟩, ?_⟩
  · intro key'
    show key' ∈ w.rows ↔ key' ∈ after.db.updates
    rw [hrec.db]
    exact h.stored.keys key'
  · intro key' hmem
    refine Or.inl ?_
    show key' ≤ after.lastKey
    rw [hrec.head]
    rcases h.stored.head key' hmem with hle | hw
    · exact hle.trans (le_max_left _ _)
    · rw [hwriting key' hw]
      exact le_max_right _ _
  · intro key' hw
    cases hw
  · show w.readRevision ≤ after.targetWrites.revision
    rw [hrec.revision]
    exact h.revision.trans (Nat.le_succ _)
  · intro key' hmem cursor hcursor hle
    rcases hbase.missed key' hmem cursor hcursor hle with hf | hw | hknows
    · exact Or.inl hf
    · -- it was being written: either the cursor is its own key, or it is behind the head
      obtain rfl := hwriting key' hw
      obtain ⟨hfolded, -⟩ := hbase.cursor cursor hcursor
      by_cases heq : key' = cursor
      · rw [heq]
        exact Or.inl hfolded
      · have hlt : key' < cursor := lt_of_le_of_ne hle heq
        rcases h.stored.head cursor (hbase.rows cursor hfolded).1 with hhead | hw'
        · exact Or.inr (Or.inr (hrec.knows _ h.revision (lt_of_lt_of_le hlt hhead)))
        · exact absurd (hwriting cursor hw').symm heq
    · exact Or.inr (Or.inr (hrec.keeps _ _ hknows))
  · intro hidle hready
    refine ⟨(h.tail hidle hready).indexed, (h.tail hidle hready).sorted,
      (h.tail hidle hready).refreshed, fun _ heq => ?_⟩
    have heq : w.cache.revision = after.targetWrites.revision := heq
    have hle := h.revision
    unfold TargetWorld.readRevision at hle
    have hidle : w.phase = .idle := hidle
    rw [hidle] at hle
    have hle : w.cache.revision ≤ w.archive.targetWrites.revision := hle
    rw [hrec.revision] at heq
    omega

omit [DecidableEq F] in
theorem TargetInv.record (h : TargetInv config w)
    (hrevision : w.archive.targetWrites.revision < maxRevision) : TargetInv config w.record := by
  unfold TargetWorld.record
  cases hwriting : w.writing with
  | none => exact h
  | some key =>
    refine h.counted (h.stored.written key hwriting) (fun key' hw => ?_) hrevision
    rw [hwriting] at hw
    exact (Option.some.inj hw).symm

theorem TargetInv.retry (h : TargetInv config w) (q : AppendRequest F) :
    TargetInv config (w.retry q) := by
  unfold TargetWorld.retry
  by_cases hretry : w.writing = none ∧ w.archive.retries q = true
  · rw [if_pos hretry]
    have hw : w = { w with writing := none } := by rw [← hretry.1]
    rcases PositionArchive.appendInner_of_retries hretry.2 with heq | ⟨key, hkey, heq⟩
    · rw [heq]
      exact h
    · rw [heq]
      by_cases hrevision : w.archive.targetWrites.revision < maxRevision
      · have hcounted := h.counted ((h.stored.keys key).2 hkey)
          (fun key' hkey' => by rw [hretry.1] at hkey'; cases hkey') hrevision
        rw [← hretry.1] at hcounted
        exact hcounted
      · rcases w.archive.recordAppend_cases key with ⟨hlt, -⟩ | ⟨-, hrec⟩
        · exact absurd hlt hrevision
        · rw [hrec]
          exact h
  · rw [if_neg hretry]
    exact h

/-! ## The steps of a refresh -/

omit [DecidableEq F] in
theorem TargetInv.tick (h : TargetInv config w) (elapsed : Nat) :
    TargetInv config { w with clock := w.clock + elapsed } := by
  obtain ⟨folded, hbase⟩ := h.base
  refine ⟨⟨h.stored.keys, h.stored.stamped, h.stored.seqs, h.stored.head, h.stored.written⟩,
    h.ordered, h.revision, ⟨folded, hbase.rows, ?_, hbase.missed, hbase.deltas, hbase.indexed⟩, ?_⟩
  · intro cursor hcursor
    obtain ⟨hfolded, hle⟩ := hbase.cursor cursor hcursor
    refine ⟨hfolded, ?_⟩
    show cursor.receivedAtUs + unstableUs ≤ w.clock + elapsed
    omega
  · intro hidle hready
    obtain ⟨hindexed, hsorted, ⟨hle, hcursor⟩, hdeltas⟩ := h.tail hidle hready
    refine ⟨hindexed, hsorted, ⟨?_, hcursor⟩, hdeltas⟩
    show w.refreshedAtUs ≤ w.clock + elapsed
    omega

omit [DecidableEq F] in
/-- A refresh reads the count: what it was told of has cost the cursor, the rest is still being
written. -/
theorem TargetInv.begin (h : TargetInv config w) : TargetInv config w.begin := by
  unfold TargetWorld.begin
  simp only
  by_cases hskip : w.phase ≠ .idle ∨ w.ready = true ∧
      (w.archive.targetChangesSince w.cache.revision w.cache.cursor).1 = w.cache.revision
  · rw [if_pos hskip]
    exact h
  · rw [if_neg hskip]
    have hidle : w.phase = .idle := not_not.1 (not_or.1 hskip).1
    obtain ⟨folded, hbase⟩ := h.base
    cases hinvalidated : (w.archive.targetChangesSince w.cache.revision w.cache.cursor).2 with
    | true =>
      refine ⟨⟨h.stored.keys, h.stored.stamped, h.stored.seqs, h.stored.head, h.stored.written⟩,
        h.ordered, le_rfl, ⟨fun _ => false, ?_, ?_, ?_, ?_, ?_⟩, ?_⟩
      · intro key hkey
        cases hkey
      · intro cursor hcursor
        cases hcursor
      · intro key hkey cursor hcursor
        cases hcursor
      · show logDeltas config ∅ (messagesOf w.rows fun _ => false) = _
        rw [messagesOf_none]
        rfl
      · exact indexed_empty
      · intro hphase
        cases hphase
    | false =>
      refine ⟨⟨h.stored.keys, h.stored.stamped, h.stored.seqs, h.stored.head, h.stored.written⟩,
        h.ordered, le_rfl, ⟨folded, hbase.rows, hbase.cursor, ?_, hbase.deltas, hbase.indexed⟩, ?_⟩
      · intro key hmem cursor hcursor hle
        have hcursor : w.cache.cursor = some cursor := hcursor
        rcases hbase.missed key hmem cursor hcursor hle with hf | hw | hknows
        · exact Or.inl hf
        · exact Or.inr (Or.inl hw)
        · unfold TargetWorld.readRevision at hknows
          rw [hidle] at hknows
          have htold := PositionArchive.targetChangesSince_of_knows hknows hle
          rw [← hcursor, hinvalidated] at htold
          cases htold
      · intro hphase
        cases hphase

omit [DecidableEq F] [F64 F] [Text.Unicode] in
/-- The cursor after a visit. -/
theorem visit_cursor (h : Stored w) {endReceivedAtUs : Int} {cursor : SeqKey}
    (hcursor : ((messagesOf w.rows (reached w.cache.cursor endReceivedAtUs)).getLast?.map
      TargetUpdate.key).or w.cache.cursor = some cursor) :
    (cursor ∈ w.rows ∧ reached w.cache.cursor endReceivedAtUs cursor = true ∧
      ∀ key ∈ w.rows, reached w.cache.cursor endReceivedAtUs key = true → key ≤ cursor) ∨
    (w.cache.cursor = some cursor ∧
      ∀ key ∈ w.rows, reached w.cache.cursor endReceivedAtUs key = false) := by
  cases hlast : (messagesOf w.rows (reached w.cache.cursor endReceivedAtUs)).getLast? with
  | none =>
    rw [hlast] at hcursor
    exact Or.inr ⟨hcursor, getLast?_messagesOf_eq_none hlast⟩
  | some message =>
    rw [hlast] at hcursor
    obtain rfl : message.key = cursor := Option.some.inj hcursor
    exact Or.inl (getLast?_messagesOf h hlast)

omit [DecidableEq F] in
/-- The stable messages are folded; of those up to the new cursor nothing else is missing. -/
theorem Base.visitStable (hstored : Stored w) {folded : SeqKey → Bool} (hbase : Base config w folded)
    {revision : Nat} (hphase : w.phase = .begun revision)
    {added : List (VirtualDelta F) × Latest F}
    (hadded : logDeltas config w.cache.latest
      (messagesOf w.rows (reached w.cache.cursor (w.clock - unstableUs))) = .ok added) :
    Base config
      { w with
        cache := { w.cache.add added with
          cursor := ((messagesOf w.rows (reached w.cache.cursor
            (w.clock - unstableUs))).getLast?.map TargetUpdate.key).or w.cache.cursor }
        phase := .folded revision }
      (fun key => folded key ||
        (w.rows.contains key && reached w.cache.cursor (w.clock - unstableUs) key)) := by
  have hvisited : ∀ {key}, (folded key || (w.rows.contains key &&
      reached w.cache.cursor (w.clock - unstableUs) key)) = true ↔
      folded key = true ∨ key ∈ w.rows ∧
        reached w.cache.cursor (w.clock - unstableUs) key = true := by
    intro key
    rw [Bool.or_eq_true, Bool.and_eq_true, Std.ExtTreeMap.contains_iff_mem]
  have hmissed : ∀ key, Missed w key → Missed { w with
      cache := { w.cache.add added with
        cursor := ((messagesOf w.rows (reached w.cache.cursor
          (w.clock - unstableUs))).getLast?.map TargetUpdate.key).or w.cache.cursor }
      phase := .folded revision } key := by
    rintro key (hw | hknows)
    · exact Or.inl hw
    · refine Or.inr ?_
      unfold TargetWorld.readRevision at hknows
      rw [hphase] at hknows
      exact hknows
  constructor
  · intro key hkey
    rcases hvisited.1 hkey with hf | ⟨hmem, hreached⟩
    · obtain ⟨hmem, cursor, hcursor, hle⟩ := hbase.rows key hf
      refine ⟨hmem, ?_⟩
      cases hlast : (messagesOf w.rows (reached w.cache.cursor
          (w.clock - unstableUs))).getLast? with
      | none => exact ⟨cursor, hcursor, hle⟩
      | some message =>
        have hlt := (reached_iff.1 (getLast?_messagesOf hstored hlast).2.1).1 cursor hcursor
        exact ⟨message.key, rfl, hle.trans hlt.le⟩
    · refine ⟨hmem, ?_⟩
      cases hlast : (messagesOf w.rows (reached w.cache.cursor
          (w.clock - unstableUs))).getLast? with
      | none =>
        rw [getLast?_messagesOf_eq_none hlast key hmem] at hreached
        cases hreached
      | some message =>
        exact ⟨message.key, rfl, (getLast?_messagesOf hstored hlast).2.2 key hmem hreached⟩
  · intro cursor hcursor
    rcases visit_cursor hstored hcursor with ⟨hmem, hreached, -⟩ | ⟨hold, -⟩
    · have hle := (reached_iff.1 hreached).2
      refine ⟨hvisited.2 (Or.inr ⟨hmem, hreached⟩), ?_⟩
      show cursor.receivedAtUs + unstableUs ≤ w.clock
      omega
    · obtain ⟨hf, hle⟩ := hbase.cursor cursor hold
      exact ⟨hvisited.2 (Or.inl hf), hle⟩
  · intro key hmem cursor hcursor hle
    rcases visit_cursor hstored hcursor with ⟨-, hreached, -⟩ | ⟨hold, -⟩
    · -- up to the new cursor a key is behind the old one or was visited
      by_cases hbehind : ∃ old, w.cache.cursor = some old ∧ key ≤ old
      · obtain ⟨old, hold, hle'⟩ := hbehind
        rcases hbase.missed key hmem old hold hle' with hf | hm
        · exact Or.inl (hvisited.2 (Or.inl hf))
        · exact Or.inr (hmissed key hm)
      · refine Or.inl (hvisited.2 (Or.inr ⟨hmem, reached_iff.2 ⟨fun old hold => ?_, ?_⟩⟩))
        · exact not_le.1 fun hle' => hbehind ⟨old, hold, hle'⟩
        · have hend := (reached_iff.1 hreached).2
          rcases SeqKey.le_iff.1 hle with hlt | ⟨heq, -⟩
          · omega
          · omega
    · rcases hbase.missed key hmem cursor hold hle with hf | hm
      · exact Or.inl (hvisited.2 (Or.inl hf))
      · exact Or.inr (hmissed key hm)
  · have hrows : messagesOf w.rows (fun key => folded key || (w.rows.contains key &&
        reached w.cache.cursor (w.clock - unstableUs) key)) =
        messagesOf w.rows (fun key => folded key ||
          reached w.cache.cursor (w.clock - unstableUs) key) := by
      refine messagesOf_congr fun key hmem => ?_
      rw [Std.ExtTreeMap.contains_iff_mem.2 hmem, Bool.true_and]
    show logDeltas config ∅ (messagesOf w.rows _) = .ok ((w.cache.add added).deltas, added.2)
    rw [hrows, messagesOf_append, TargetCacheState.add_deltas]
    · exact gather_append.2 ⟨_, _, _, hbase.deltas, hadded, rfl⟩
    · intro k k' hf hreached
      obtain ⟨-, cursor, hcursor, hle⟩ := hbase.rows k hf
      exact lt_of_le_of_lt hle ((reached_iff.1 hreached).1 cursor hcursor)
  · exact add_indexed hbase.indexed added

omit [DecidableEq F] in
theorem TargetInv.visitStable (h : TargetInv config w)
    (hok : ∀ revision, w.phase = .begun revision → (w.fold config).2 = .ok ()) :
    TargetInv config (w.visitStable config) := by
  unfold TargetWorld.visitStable
  cases hphase : w.phase with
  | idle => exact h
  | folded revision => exact h
  | begun revision =>
    have hreply := hok revision hphase
    cases hfold : w.fold config with
    | mk cache reply =>
      rw [hfold] at hreply
      obtain rfl : reply = .ok () := hreply
      obtain ⟨folded, hbase⟩ := h.base
      unfold TargetWorld.fold at hfold
      obtain ⟨added, hadded, rfl⟩ := foldUntil_ingestStable hfold
      rw [visitTargetUpdatesAfter_eq] at hadded ⊢
      refine ⟨⟨h.stored.keys, h.stored.stamped, h.stored.seqs, h.stored.head, h.stored.written⟩,
        h.ordered, ?_, ⟨_, hbase.visitStable h.stored hphase hadded⟩, ?_⟩
      · have hle := h.revision
        unfold TargetWorld.readRevision at hle
        rw [hphase] at hle
        exact hle
      · intro hidle
        cases hidle

omit [DecidableEq F] in
theorem TargetInv.visitTail (h : TargetInv config w)
    (hok : ∀ revision, w.phase = .folded revision → (w.tail config).2 = .ok ()) :
    TargetInv config (w.visitTail config) := by
  unfold TargetWorld.visitTail
  cases hphase : w.phase with
  | idle => exact h
  | begun revision => exact h
  | folded revision =>
    have hreply := hok revision hphase
    cases htail : w.tail config with
    | mk tail reply =>
      rw [htail] at hreply
      obtain rfl : reply = .ok () := hreply
      obtain ⟨folded, hbase⟩ := h.base
      have hread : w.readRevision = revision := by
        unfold TargetWorld.readRevision
        rw [hphase]
      unfold TargetWorld.tail at htail
      obtain ⟨⟨deltas, latest⟩, hadded, rfl⟩ := foldUntil_ingestTarget.1 htail
      refine ⟨⟨h.stored.keys, h.stored.stamped, h.stored.seqs, h.stored.head, h.stored.written⟩,
        h.ordered, ?_, ⟨folded, hbase.rows, hbase.cursor, ?_, hbase.deltas, hbase.indexed⟩, ?_⟩
      · show revision ≤ w.archive.targetWrites.revision
        rw [← hread]
        exact h.revision
      · intro key hmem cursor hcursor hle
        rcases hbase.missed key hmem cursor hcursor hle with hf | hw | hknows
        · exact Or.inl hf
        · exact Or.inr (Or.inl hw)
        · rw [hread] at hknows
          exact Or.inr (Or.inr hknows)
      · intro _ _
        have hdeltas : (({ (.empty : TargetCacheState F) with latest := w.cache.latest }).add
            (deltas, latest)).deltas = deltas := TargetCacheState.add_deltas ..
        refine ⟨add_indexed indexed_empty (deltas, latest), ?_, ⟨le_rfl, fun cursor hcursor => ?_⟩,
          fun _ _ => ⟨latest, ?_⟩⟩
        · show (({ (.empty : TargetCacheState F) with latest := w.cache.latest }).add
            (deltas, latest)).deltas.Pairwise _
          rw [hdeltas]
          rw [visitTargetUpdatesAfter_eq] at hadded
          exact sorted_logDeltas (sorted_messagesOf h.stored _) hadded
        · have hle := (hbase.cursor cursor hcursor).2
          show cursor.receivedAtUs ≤ w.clock
          unfold unstableUs at hle
          omega
        · show logDeltas config w.cache.latest _ =
            .ok ((({ (.empty : TargetCacheState F) with latest := w.cache.latest }).add
              (deltas, latest)).deltas, latest)
          rw [hdeltas]
          exact hadded

/-! ## Runs -/

theorem TargetInv.step (h : TargetInv config w) {a : TargetAction F} (ha : w.Succeeds config a) :
    TargetInv config (w.step config a) := by
  cases a with
  | write q accounts => exact h.write ha accounts
  | record => exact h.record ha
  | retry q => exact h.retry q
  | tick elapsed => exact h.tick elapsed
  | begin => exact h.begin
  | visitStable => exact h.visitStable ha
  | visitTail => exact h.visitTail ha
  | restart => exact .start ⟨h.stored.keys, h.stored.stamped, h.stored.seqs⟩ w.clock

theorem targetInv_run {db : ArchiveDb F} {rows : TargetRows F} (hrows : RowsOf db rows)
    {clock : Int} {actions : List (TargetAction F)}
    (h : Along (TargetWorld.step config) (TargetWorld.Succeeds config) (.start db rows clock)
      actions) :
    TargetInv config (run (TargetWorld.step config) (.start db rows clock) actions) :=
  h.invariant (fun _ _ hw ha => hw.step ha) (.start hrows clock)

omit [DecidableEq F] in
/-- With nothing counted or being written since its last refresh, a cache holds the deltas of
the messages up to that refresh. -/
theorem TargetInv.coherent (h : TargetInv config w) (hidle : w.phase = .idle)
    (hready : w.ready = true) (hwriting : w.writing = none)
    (hrevision : w.cache.revision = w.archive.targetWrites.revision) :
    ∃ latest, logDeltas config ∅
      (messagesOf w.rows fun key => decide (key.receivedAtUs ≤ w.refreshedAtUs)) =
        .ok (w.cache.deltas ++ w.cache.tailDeltas, latest) := by
  obtain ⟨folded, hbase⟩ := h.base
  obtain ⟨-, -, ⟨-, hcursor⟩, hdeltas⟩ := h.tail hidle hready
  obtain ⟨latest, htail⟩ := hdeltas hwriting hrevision
  have hread : w.readRevision = w.archive.targetWrites.revision := by
    unfold TargetWorld.readRevision
    rw [hidle]
    exact hrevision
  have hpassed : ∀ key ∈ w.rows, ∀ cursor, w.cache.cursor = some cursor → key ≤ cursor →
      folded key = true := by
    intro key hmem cursor hc hle
    rcases hbase.missed key hmem cursor hc hle with hf | hw | hknows
    · exact hf
    · rw [hwriting] at hw
      cases hw
    · rw [hread] at hknows
      exact absurd hknows (h.ordered.not_knows key)
  have hsplit : messagesOf w.rows (fun key => decide (key.receivedAtUs ≤ w.refreshedAtUs)) =
      messagesOf w.rows (fun key => folded key || reached w.cache.cursor w.refreshedAtUs key) := by
    refine messagesOf_congr fun key hmem => ?_
    rw [Bool.eq_iff_iff, Bool.or_eq_true, decide_eq_true_eq, reached_iff]
    constructor
    · intro hle
      by_cases hbehind : ∃ cursor, w.cache.cursor = some cursor ∧ key ≤ cursor
      · obtain ⟨cursor, hc, hle'⟩ := hbehind
        exact Or.inl (hpassed key hmem cursor hc hle')
      · exact Or.inr ⟨fun cursor hc => not_le.1 fun hle' => hbehind ⟨cursor, hc, hle'⟩, hle⟩
    · rintro (hf | ⟨-, hle⟩)
      · obtain ⟨-, cursor, hc, hle⟩ := hbase.rows key hf
        have hbound := hcursor cursor hc
        rcases SeqKey.le_iff.1 hle with hlt | ⟨heq, -⟩
        · omega
        · omega
      · exact hle
  refine ⟨latest, ?_⟩
  rw [hsplit, messagesOf_append]
  · rw [visitTargetUpdatesAfter_eq] at htail
    exact gather_append.2 ⟨_, _, _, hbase.deltas, htail, rfl⟩
  · intro k k' hf hreached
    obtain ⟨-, cursor, hc, hle⟩ := hbase.rows k hf
    exact lt_of_le_of_lt hle ((reached_iff.1 hreached).1 cursor hc)

omit [DecidableEq F] in
/-- One fold from the beginning gives the two parts of the cache. -/
theorem TargetInv.full (h : TargetInv config w) (hidle : w.phase = .idle)
    (hready : w.ready = true) (hwriting : w.writing = none)
    (hrevision : w.cache.revision = w.archive.targetWrites.revision) :
    ∃ full, foldUntil (ingestTarget config) .empty
        (messagesOf w.rows fun key => decide (key.receivedAtUs ≤ w.refreshedAtUs)) =
          (full, .ok ()) ∧
      full.deltas = w.cache.deltas ++ w.cache.tailDeltas ∧
      full.deltas.Pairwise fun a b => a.receivedAtUs ≤ b.receivedAtUs := by
  obtain ⟨latest, hlog⟩ := h.coherent hidle hready hwriting hrevision
  have hdeltas : ((TargetCacheState.empty : TargetCacheState F).add
      (w.cache.deltas ++ w.cache.tailDeltas, latest)).deltas =
        w.cache.deltas ++ w.cache.tailDeltas := by
    rw [TargetCacheState.add_deltas]
    rfl
  refine ⟨_, foldUntil_ingestTarget.2 ⟨_, hlog, rfl⟩, hdeltas, ?_⟩
  rw [hdeltas]
  exact sorted_logDeltas (sorted_messagesOf h.stored _) hlog

/-- **The cache is the fold of the archive.**  After every run of writers and refreshes, in which
no write reports an error after it was committed and what is visited can be ingested: when
nothing was counted since the last refresh, the stable deltas and the recent ones are together
those of one fold over all messages up to that refresh, in key order, and each part is indexed
by market. -/
theorem targetCache_coherent {db : ArchiveDb F} {rows : TargetRows F} (hrows : RowsOf db rows)
    {clock : Int} {actions : List (TargetAction F)}
    (h : Along (TargetWorld.step config) (TargetWorld.Succeeds config) (.start db rows clock)
      actions)
    (hw : w = run (TargetWorld.step config) (.start db rows clock) actions)
    (hidle : w.phase = .idle) (hready : w.ready = true) (hwriting : w.writing = none)
    (hrevision : w.cache.revision = w.archive.targetWrites.revision) :
    ∃ full, foldUntil (ingestTarget config) .empty
        (messagesOf w.rows fun key => decide (key.receivedAtUs ≤ w.refreshedAtUs)) =
          (full, .ok ()) ∧
      full.deltas = w.cache.deltas ++ w.cache.tailDeltas ∧
      (full.deltas.Pairwise fun a b => a.receivedAtUs ≤ b.receivedAtUs) ∧
      Indexed w.cache.deltas w.cache.markets ∧
      Indexed w.cache.tailDeltas w.cache.tailMarkets := by
  have hinv : TargetInv config w := hw ▸ targetInv_run hrows h
  obtain ⟨full, hfold, hdeltas, hsorted⟩ := hinv.full hidle hready hwriting hrevision
  obtain ⟨folded, hbase⟩ := hinv.base
  exact ⟨full, hfold, hdeltas, hsorted, hbase.indexed, (hinv.tail hidle hready).indexed⟩

end

/-! ## A message behind the cursor -/

section Sample

attribute [local instance] Text.Unicode.ascii

def sampleSource : TargetSource := ⟨"main", true, "binance-futures"⟩

def sampleAccount (quantity : ℚ) : TargetAccount ℚ where
  sourceId := "main"
  bindingName := "live"
  shares := 1
  targetProjection := some ((∅ : OrdMap String (Catalog.TargetPosition ℚ)).insert "BTCUSDT"
    { clear := false, qty := quantity, signal := 1 })
  theoreticalFeeRate := some 0
  theoreticalFeeRatesByQuote := ∅
  takerFeeRate := none
  takerFeeRatesByQuote := ∅
  legacyLeverage := none

def sampleRequest (receivedAtUs : Int) : AppendRequest ℚ :=
  ⟨receivedAtUs, plainStrategy "live" receivedAtUs, [], [⟨"main", "live", 1⟩], none, .committed⟩

/-- A message is folded, then one arrives that was received before it. -/
def lateActions : List (TargetAction ℚ) :=
  [.write (sampleRequest 300) [sampleAccount 2], .record, .begin, .visitStable, .visitTail,
    .write (sampleRequest 200) [sampleAccount 3], .record, .begin, .visitStable, .visitTail]

def lateWorld : TargetWorld ℚ :=
  run (TargetWorld.step [sampleSource]) (.start .empty ∅ 200000000) lateActions

theorem rowsOf_empty : RowsOf (ArchiveDb.empty : ArchiveDb ℚ) ∅ := by
  refine ⟨fun key => Iff.rfl, fun key message h => ?_, fun key h => ?_⟩
  · rw [Std.ExtTreeMap.getElem?_empty] at h
    cases h
  · exact absurd h Std.ExtTreeMap.not_mem_empty

theorem lateActions_succeed :
    Along (TargetWorld.step [sampleSource]) (TargetWorld.Succeeds [sampleSource])
      (.start .empty ∅ 200000000) lateActions :=
  ⟨(fun h => by cases h), (by unfold TargetWorld.Succeeds; decide +kernel), trivial,
    (fun _ _ => by decide +kernel), (fun _ _ => by decide +kernel), (fun h => by cases h),
    (by unfold TargetWorld.Succeeds; decide +kernel), trivial,
    (fun _ _ => by decide +kernel), (fun _ _ => by decide +kernel), trivial⟩

theorem late_idle : lateWorld.phase = .idle := by decide +kernel

theorem late_ready : lateWorld.ready = true := by decide +kernel

theorem late_writing : lateWorld.writing = none := by decide +kernel

theorem late_revision : lateWorld.cache.revision = lateWorld.archive.targetWrites.revision := by
  decide +kernel

theorem targetCache_coherent_late :
    ∃ full, foldUntil (ingestTarget [sampleSource]) .empty
        (messagesOf lateWorld.rows fun key =>
          decide (key.receivedAtUs ≤ lateWorld.refreshedAtUs)) = (full, .ok ()) ∧
      full.deltas = lateWorld.cache.deltas ++ lateWorld.cache.tailDeltas ∧
      (full.deltas.Pairwise fun a b => a.receivedAtUs ≤ b.receivedAtUs) ∧
      Indexed lateWorld.cache.deltas lateWorld.cache.markets ∧
      Indexed lateWorld.cache.tailDeltas lateWorld.cache.tailMarkets := by
  exact targetCache_coherent rowsOf_empty lateActions_succeed rfl late_idle late_ready
    late_writing late_revision

end Sample

end CtaManager.Theoretical
