import CtaManager.Nav.CachedSource

/-!
The names and the events a source brings to a timeline.

Names are collected in sets, so the order in which a query finds them does not
matter (`mem_insertAll`, `names_of_index`).  The events of one source come in the
order of the timeline (`sorted_sourceEvents`).
-/

namespace CtaManager

open Check StableSort FirstSeen PartitionPoint

variable {F : Type} [F64 F]

/-! ## Names -/

theorem mem_insertAll (set : OrdSet String) (names : List String) (name : String) :
    name ∈ insertAll set names ↔ name ∈ set ∨ name ∈ names := by
  unfold insertAll
  induction names generalizing set with
  | nil => simp
  | cons first names ih =>
    rw [List.foldl_cons, ih, Std.ExtTreeSet.mem_insert, Std.compare_eq_iff_eq, List.mem_cons]
    constructor
    · rintro ((rfl | h) | h)
      · exact Or.inr (Or.inl rfl)
      · exact Or.inl h
      · exact Or.inr (Or.inr h)
    · rintro (h | rfl | h)
      · exact Or.inl (Or.inr h)
      · exact Or.inl (Or.inl rfl)
      · exact Or.inr h

theorem insertAll_congr (set : OrdSet String) {names names' : List String}
    (h : ∀ name, name ∈ names ↔ name ∈ names') : insertAll set names = insertAll set names' := by
  refine Std.ExtTreeSet.ext_mem fun name => ?_
  rw [mem_insertAll, mem_insertAll, h]

theorem mem_seenBy (names : OrdMap String Int) (endTsUs : Int) (name : String) :
    name ∈ seenBy names endTsUs ↔ ∃ t, names[name]? = some t ∧ t ≤ endTsUs := by
  unfold seenBy
  simp only [List.mem_map, List.mem_filter, decide_eq_true_eq, Prod.exists, exists_and_right,
    exists_eq_right, OrdMap.mem_toList]

/-- The names of an index by the end of the window are those of the corrections
and fills that it indexes. -/
theorem mem_seenBy_noteAll (sightings fills : List (String × Int)) (endTsUs : Int)
    (name : String) :
    name ∈ seenBy (noteAll (noteAll ∅ sightings) fills) endTsUs ↔
      (∃ t, (name, t) ∈ sightings ∧ t ≤ endTsUs) ∨ ∃ t, (name, t) ∈ fills ∧ t ≤ endTsUs := by
  rw [mem_seenBy, exists_le_noteAll, exists_le_noteAll]
  simp

omit [F64 F] in
/-- The names of the fills and corrections of a source, indexed or not. -/
theorem names_of_index {p : PreparedSourceEvents F} {front back : List (PreparedFill F)}
    (hfills : p.fillEvents = front ++ back) (endTsUs : Int)
    (ofPosition : AllocationPosition F → String) (ofFill : PreparedFill F → String)
    (names : OrdMap String Int)
    (hnames : names = noteAll
      (noteAll ∅ (p.allocations.flatMap fun a => a.positions.map fun q =>
        (ofPosition q, a.snapshotTsUs)))
      (p.fillEvents.map fun fill => (ofFill fill, fill.fillTsUs)))
    (others : List String)
    (hothers : ∀ name ∈ (correctionsBy p endTsUs).map ofPosition, name ∈ others) (name : String) :
    name ∈ others ++ [] ++
        (p.fillEvents.filter fun fill => decide (fill.fillTsUs ≤ endTsUs)).map ofFill ↔
      name ∈ others ++ seenBy names endTsUs ++
        (back.filter fun fill => decide (fill.fillTsUs ≤ endTsUs)).map ofFill := by
  have hcorr : (∃ t, (name, t) ∈ (p.allocations.flatMap fun a => a.positions.map fun q =>
        (ofPosition q, a.snapshotTsUs)) ∧ t ≤ endTsUs) ↔
      name ∈ (correctionsBy p endTsUs).map ofPosition := by
    unfold correctionsBy
    simp only [List.mem_flatMap, List.mem_map, Prod.mk.injEq, List.mem_filter, decide_eq_true_eq]
    constructor
    · rintro ⟨t, ⟨a, ha, q, hq, rfl, rfl⟩, ht⟩
      exact ⟨q, ⟨a, ⟨ha, ht⟩, hq⟩, rfl⟩
    · rintro ⟨q, ⟨a, ⟨ha, ht⟩, hq⟩, rfl⟩
      exact ⟨a.snapshotTsUs, ⟨a, ha, q, hq, rfl, rfl⟩, ht⟩
  have hfill : (∃ t, (name, t) ∈ (p.fillEvents.map fun fill => (ofFill fill, fill.fillTsUs)) ∧
        t ≤ endTsUs) ↔
      name ∈ (p.fillEvents.filter fun fill => decide (fill.fillTsUs ≤ endTsUs)).map ofFill := by
    simp only [List.mem_map, Prod.mk.injEq, List.mem_filter, decide_eq_true_eq]
    constructor
    · rintro ⟨t, ⟨fill, hfill, rfl, rfl⟩, ht⟩
      exact ⟨fill, ⟨hfill, ht⟩, rfl⟩
    · rintro ⟨fill, ⟨hfill, ht⟩, rfl⟩
      exact ⟨fill.fillTsUs, ⟨fill, hfill, rfl, rfl⟩, ht⟩
  have hback : name ∈ (back.filter fun fill => decide (fill.fillTsUs ≤ endTsUs)).map ofFill →
      name ∈ (p.fillEvents.filter fun fill => decide (fill.fillTsUs ≤ endTsUs)).map ofFill := by
    rw [hfills, List.filter_append, List.map_append]
    exact List.mem_append_right _
  have hin := hothers name
  rw [hnames]
  simp only [List.mem_append, mem_seenBy_noteAll, hcorr, hfill, List.not_mem_nil, or_false]
  tauto

/-! ## Events -/

/-- The events of one source. -/
def sourceEvents (sourceIndex : Nat) (sourceId : String) (snapshotTsUs : Option Int)
    (fills : List (PreparedFill F)) : List (TimelineEvent F) :=
  snapshotTsUs.toList.map (TimelineEvent.snapshot sourceIndex sourceId) ++
    fills.map (TimelineEvent.fill sourceIndex sourceId)

omit [F64 F] in
theorem sourceIndex_of_mem {i : Nat} {id : String} {snapshotTsUs : Option Int}
    {fills : List (PreparedFill F)} {event : TimelineEvent F}
    (h : event ∈ sourceEvents i id snapshotTsUs fills) : event.sourceIndex = i := by
  rcases List.mem_append.1 h with h | h
  · obtain ⟨ts, -, rfl⟩ := List.mem_map.1 h
    rfl
  · obtain ⟨fill, -, rfl⟩ := List.mem_map.1 h
    rfl

omit [F64 F] in
theorem tsUs_le_of_order_le {a b : TimelineEvent F} (h : a.order ≤ b.order) : a.tsUs ≤ b.tsUs := by
  rcases Prod.Lex.le_iff.1 h with h | h
  · exact le_of_lt h
  · exact le_of_eq h.1

omit [F64 F] in
/-- The fills of one source stand in the order of the timeline. -/
theorem order_fill_le (i : Nat) (id : String) {a b : PreparedFill F}
    (h : fillOrder a ≤ fillOrder b) :
    (TimelineEvent.fill i id a).order ≤ (TimelineEvent.fill i id b).order := by
  rcases Prod.Lex.le_iff.1 h with h | ⟨h1, h2⟩
  · exact Prod.Lex.le_iff.2 (Or.inl h)
  · refine Prod.Lex.le_iff.2 (Or.inr ⟨h1, ?_⟩)
    exact Prod.Lex.le_iff.2 (Or.inr ⟨rfl, Prod.Lex.le_iff.2 (Or.inr ⟨rfl, h2⟩)⟩)

omit [F64 F] in
theorem sorted_sourceEvents (i : Nat) (id : String) {snapshotTsUs : Option Int}
    {fills : List (PreparedFill F)} (hsorted : Sorted fillOrder fills)
    (hafter : ∀ fill ∈ fills, ∀ ts, snapshotTsUs = some ts → ts < fill.fillTsUs) :
    Sorted TimelineEvent.order (sourceEvents i id snapshotTsUs fills) := by
  refine sorted_append _ _ _ ?_ (List.pairwise_map.2 (hsorted.imp fun h => order_fill_le i id h)) ?_
  · cases snapshotTsUs with
    | none => exact List.Pairwise.nil
    | some ts => exact List.pairwise_singleton _ _
  · intro a ha b hb
    obtain ⟨ts, hts, rfl⟩ := List.mem_map.1 ha
    obtain ⟨fill, hfill, rfl⟩ := List.mem_map.1 hb
    exact Prod.Lex.le_iff.2 (Or.inl (hafter fill hfill ts (Option.mem_toList.1 hts)))

/-- The events of one source before the start, applied. -/
theorem foldlM_sourceEvents (i : Nat) (id : String) {snapshotTsUs : Option Int}
    {fills : List (PreparedFill F)} (start : Int) (runtime : TimelineSourceState F)
    (hsnap : ∀ ts, snapshotTsUs = some ts → runtime.snapshotTsUs = some ts) :
    ((sourceEvents i id snapshotTsUs fills).filter fun event => decide (event.tsUs < start)).foldlM
        TimelineEvent.applyTo (runtime.activateSnapshotAt start) =
      (fills.filter fun fill => decide (fill.fillTsUs < start)).foldlM
        TimelineSourceState.applyFill (runtime.activateSnapshotAt start) := by
  have hfills : ∀ state : TimelineSourceState F,
      ((fills.map (TimelineEvent.fill i id)).filter fun event =>
        decide (event.tsUs < start)).foldlM TimelineEvent.applyTo state =
      (fills.filter fun fill => decide (fill.fillTsUs < start)).foldlM
        TimelineSourceState.applyFill state := by
    intro state
    rw [List.filter_map, List.foldlM_map]
    rfl
  unfold sourceEvents
  rw [List.filter_append, foldlM_append]
  cases snapshotTsUs with
  | none =>
    rw [← hfills]
    rfl
  | some ts =>
    by_cases h : ts < start
    · have hreach : runtime.snapshotReached start = true := by
        simp [TimelineSourceState.snapshotReached, hsnap ts rfl, h.le]
      have hsame : (runtime.activateSnapshotAt start).activateSnapshotAt ts =
          runtime.activateSnapshotAt start := by
        rw [TimelineSourceState.activateSnapshotAt_of_reached runtime start hreach,
          TimelineSourceState.activateSnapshotAt_activated]
      have hone : ((some ts).toList.map (TimelineEvent.snapshot (F := F) i id)).filter
          (fun event => decide (event.tsUs < start)) = [.snapshot i id ts] := by
        simp [TimelineEvent.tsUs, h]
      rw [hone, foldlM_cons]
      change (Except.ok ((runtime.activateSnapshotAt start).activateSnapshotAt ts) >>= _) >>= _ = _
      rw [hsame, ok_bind, foldlM_nil, ok_bind, hfills]
    · have hnone : ((some ts).toList.map (TimelineEvent.snapshot (F := F) i id)).filter
          (fun event => decide (event.tsUs < start)) = [] := by
        exact List.filter_cons_of_neg fun hd => h (of_decide_eq_true hd)
      rw [hnone, foldlM_nil, ok_bind, hfills]

omit [F64 F] in
theorem partitioned_before (start : Int) (events : List (TimelineEvent F)) :
    Partitioned (fun event : TimelineEvent F => decide (event.tsUs < start))
      (stableSort TimelineEvent.order events) := by
  refine (sorted_stableSort TimelineEvent.order events).imp fun {a b} hab => ?_
  have := tsUs_le_of_order_le hab
  simp only [decide_eq_true_eq]
  omega

end CtaManager
