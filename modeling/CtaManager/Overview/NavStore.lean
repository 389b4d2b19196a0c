import CtaManager.Library.OrdMapRange
import CtaManager.Library.Utf8
import CtaManager.Overview.NavCurve

/-!
The store of the four-hour NAV curves (`Store` of `account_overview/nav.rs`).

A save cuts the report, writes it and only then shows it; a restart reads what was written and
leaves out what it cannot accept.  Over every run the values in memory are those on disk, and a
restart loses none of them (`Kept`).
-/

namespace CtaManager.Overview

open Check OrdMap

structure Saved (F : Type) where
  inputKey : String
  throughMs : Int
  report : NavReport F
  deriving DecidableEq

/-- `serde_json` on the saved curves: what is written is read back while its numbers are
finite. -/
structure SavedJson (F : Type) [F64 F] where
  encode : Saved F → Except String (List UInt8)
  decode : List UInt8 → Except String (Saved F)
  roundTrip : ∀ (saved : Saved F) bytes, encode saved = .ok bytes →
    (∀ p ∈ saved.report.points, F64.isFinite p.pnlQuote = true) → decode bytes = .ok saved

/-- The column family, and the read cache. -/
structure NavStore (F : Type) where
  disk : OrdMap String (List UInt8)
  values : OrdMap String (Saved F)

section

variable {F : Type} [F64 F]

/-- An entry of the column family, as `open` accepts it. -/
def readSaved (json : SavedJson F) (key : String) (bytes : List UInt8) (now : Int) :
    Except String (Saved F) := do
  let saved ← json.decode bytes
  saved.report.validate saved.report.sourceId now
  ensure (key == saved.report.sourceId) "NAV key mismatch"
  let _ ← saved.report.closedGrid saved.throughMs now
  ensure (saved.report.endMs == some saved.throughMs && gridEnd saved.throughMs == saved.throughMs)
    "invalid stored NAV grid"
  return saved

namespace NavStore

/-- `open`: what is not accepted is left out. -/
def reopen (json : SavedJson F) (disk : OrdMap String (List UInt8)) (now : Int) : NavStore F where
  disk := disk
  values := disk.toList.foldl (fun values entry =>
    match readSaved json entry.1 entry.2 now with
    | .ok saved => values.insert saved.report.sourceId saved
    | .error _ => values) ∅

/-- `save`; `failed` is the error of the database, where it has one. -/
def save (json : SavedJson F) (store : NavStore F) (report : NavReport F) (inputKey : String)
    (throughMs now : Int) (failed : Option String) : NavStore F × Except String Unit :=
  match report.closedGrid throughMs now with
  | .error e => (store, .error e)
  | .ok report =>
    let saved := { inputKey, throughMs, report }
    match json.encode saved, failed with
    | .error e, _ => (store, .error e)
    | .ok _, some e => (store, .error e)
    | .ok bytes, none =>
      ({ disk := store.disk.insert report.sourceId bytes
         values := store.values.insert report.sourceId saved }, .ok ())

def isCurrent (store : NavStore F) (source : String) (cutoff : Int) (inputKey : String) : Bool :=
  store.values[source]?.any fun saved =>
    saved.throughMs == cutoff && saved.inputKey == inputKey && !saved.report.loading

def read (store : NavStore F) (source : String) (now : Int) : NavReport F :=
  match store.values[source]? with
  | none => .pending source "四小时净值历史正在后台生成" now
  | some saved =>
    if saved.throughMs < gridEnd now then
      { saved.report with
        complete := false
        loading := true
        unavailableReason := some "新一期四小时净值正在后台生成，保留已保存历史" }
    else saved.report

end NavStore

/-! ## Runs -/

inductive NavEvent (F : Type)
  | save (report : NavReport F) (inputKey : String) (throughMs : Int) (failed : Option String)
  | restart

def NavStore.apply (json : SavedJson F) (store : NavStore F) (event : Int × NavEvent F) :
    NavStore F :=
  match event.2 with
  | .save report inputKey throughMs failed =>
    (store.save json report inputKey throughMs event.1 failed).1
  | .restart => .reopen json store.disk event.1

/-- Every event of a run, from an empty column family on. -/
def NavStore.run (json : SavedJson F) (events : List (Int × NavEvent F)) : NavStore F :=
  events.foldl (NavStore.apply json) { disk := ∅, values := ∅ }

/-- The clock does not go back, and every cutoff is a grid time. -/
structure Feasible (events : List (Int × NavEvent F)) : Prop where
  clock : events.Pairwise fun e e' => e.1 ≤ e'.1
  cutoffs : ∀ event ∈ events, ∀ report inputKey throughMs failed,
    event.2 = .save report inputKey throughMs failed → throughMs % INTERVAL_MS = 0

/-- What holds of the store at a time. -/
structure Kept (json : SavedJson F) (store : NavStore F) (now : Int) : Prop where
  same : ∀ (source : String) bytes, store.disk[source]? = some bytes →
    ∃ saved, json.decode bytes = .ok saved ∧ store.values[source]? = some saved
  written : ∀ (source : String) saved, store.values[source]? = some saved →
    ∃ bytes, store.disk[source]? = some bytes ∧ json.decode bytes = .ok saved
  named : ∀ (source : String) saved, store.values[source]? = some saved →
    saved.report.sourceId = source
  closed : ∀ (source : String) saved, store.values[source]? = some saved →
    Closed saved.report saved.throughMs
  cutoff : ∀ (source : String) saved, store.values[source]? = some saved →
    saved.throughMs % INTERVAL_MS = 0
  generated : ∀ (source : String) saved, store.values[source]? = some saved →
    saved.report.generatedAtMs ≤ now + 30000

theorem kept_empty (json : SavedJson F) (now : Int) :
    Kept json { disk := ∅, values := ∅ } now := by
  have hnone : ∀ (source : String) saved, ¬ (∅ : OrdMap String (Saved F))[source]? = some saved := by
    intro source saved h
    rw [Std.ExtTreeMap.getElem?_empty] at h
    cases h
  refine ⟨fun source bytes h => ?_, ?_, ?_, ?_, ?_, ?_⟩
  · rw [Std.ExtTreeMap.getElem?_empty] at h
    cases h
  all_goals exact fun source saved h => absurd h (hnone source saved)

/-- What a successful save stores. -/
theorem save_eq_ok {json : SavedJson F} {store store' : NavStore F} {report : NavReport F}
    {inputKey : String} {throughMs now : Int} {failed : Option String}
    (h : store.save json report inputKey throughMs now failed = (store', .ok ())) :
    ∃ closed bytes, report.closedGrid throughMs now = .ok closed ∧
      json.encode { inputKey, throughMs, report := closed } = .ok bytes ∧
      store' =
        { disk := store.disk.insert closed.sourceId bytes
          values := store.values.insert closed.sourceId { inputKey, throughMs, report := closed } } := by
  unfold NavStore.save at h
  cases hclosed : report.closedGrid throughMs now with
  | error e =>
    rw [hclosed] at h
    cases h
  | ok closed =>
    rw [hclosed] at h
    dsimp only at h
    cases hencode : json.encode { inputKey, throughMs, report := closed } with
    | error e =>
      rw [hencode] at h
      cases h
    | ok bytes =>
      rw [hencode] at h
      cases failed with
      | some e => cases h
      | none =>
        cases h
        exact ⟨closed, bytes, rfl, hencode, rfl⟩

theorem save_eq_error {json : SavedJson F} {store store' : NavStore F} {report : NavReport F}
    {inputKey : String} {throughMs now : Int} {failed : Option String} {e : String}
    (h : store.save json report inputKey throughMs now failed = (store', .error e)) :
    store' = store := by
  unfold NavStore.save at h
  split at h
  · cases h
    rfl
  · dsimp only at h
    split at h
    · cases h
      rfl
    · cases h
      rfl
    · cases h

/-! ## One event -/

theorem Kept.later {json : SavedJson F} {store : NavStore F} {now later : Int}
    (h : Kept json store now) (hle : now ≤ later) : Kept json store later where
  same := h.same
  written := h.written
  named := h.named
  closed := h.closed
  cutoff := h.cutoff
  generated := fun source saved hsaved => (h.generated source saved hsaved).trans (by omega)

theorem Kept.save {json : SavedJson F} {store : NavStore F} {now : Int} (h : Kept json store now)
    {report : NavReport F} {inputKey : String} {throughMs : Int} {failed : Option String}
    (hcutoff : throughMs % INTERVAL_MS = 0) :
    Kept json (store.save json report inputKey throughMs now failed).1 now := by
  cases hsave : store.save json report inputKey throughMs now failed with
  | mk store' result =>
    cases result with
    | error e =>
      rw [save_eq_error hsave]
      exact h
    | ok u =>
      obtain ⟨closed, bytes, hclosed, hencode, rfl⟩ := save_eq_ok hsave
      obtain ⟨hvalid, hpoints, -, hgenerated⟩ := closed_of_closedGrid hclosed
      have hdecode := json.roundTrip _ _ hencode hvalid.finite
      have hnew : closed.generatedAtMs ≤ now + 30000 := by
        rw [hpoints]
        exact hgenerated
      -- the entry of the report is the new one, the others stay
      have hlookup : ∀ (source : String) saved,
          (store.values.insert closed.sourceId { inputKey, throughMs, report := closed })[source]? =
            some saved →
          (source = closed.sourceId ∧ saved = { inputKey, throughMs, report := closed }) ∨
            source ≠ closed.sourceId ∧ store.values[source]? = some saved := by
        intro source saved hsaved
        rw [getElem?_insert_of_key] at hsaved
        split at hsaved
        · next heq => exact Or.inl ⟨heq.symm, (Option.some.inj hsaved).symm⟩
        · next hne => exact Or.inr ⟨fun heq => hne heq.symm, hsaved⟩
      refine ⟨fun source bytes' hbytes => ?_, fun source saved hsaved => ?_,
        fun source saved hsaved => ?_, fun source saved hsaved => ?_, fun source saved hsaved => ?_,
        fun source saved hsaved => ?_⟩
      · dsimp only at hbytes ⊢
        rw [getElem?_insert_of_key] at hbytes ⊢
        by_cases heq : closed.sourceId = source
        · rw [if_pos heq] at hbytes ⊢
          cases hbytes
          exact ⟨_, hdecode, rfl⟩
        · rw [if_neg heq] at hbytes ⊢
          exact h.same source bytes' hbytes
      · rcases hlookup source saved hsaved with ⟨rfl, rfl⟩ | ⟨hne, hold⟩
        · refine ⟨bytes, ?_, hdecode⟩
          rw [getElem?_insert_of_key, if_pos rfl]
        · obtain ⟨old, hdisk, hold⟩ := h.written source saved hold
          refine ⟨old, ?_, hold⟩
          rw [getElem?_insert_of_key, if_neg fun heq => hne heq.symm]
          exact hdisk
      · rcases hlookup source saved hsaved with ⟨rfl, rfl⟩ | ⟨-, hold⟩
        · rfl
        · exact h.named source saved hold
      · rcases hlookup source saved hsaved with ⟨rfl, rfl⟩ | ⟨-, hold⟩
        · exact hvalid
        · exact h.closed source saved hold
      · rcases hlookup source saved hsaved with ⟨rfl, rfl⟩ | ⟨-, hold⟩
        · exact hcutoff
        · exact h.cutoff source saved hold
      · rcases hlookup source saved hsaved with ⟨rfl, rfl⟩ | ⟨-, hold⟩
        · exact hnew
        · exact h.generated source saved hold

/-- A saved curve is accepted at every later start. -/
theorem readSaved_of_closed {json : SavedJson F} {saved : Saved F} {bytes : List UInt8} {now : Int}
    (hdecode : json.decode bytes = .ok saved) (hclosed : Closed saved.report saved.throughMs)
    (hcutoff : saved.throughMs % INTERVAL_MS = 0)
    (hgenerated : saved.report.generatedAtMs ≤ now + 30000) :
    readSaved json saved.report.sourceId bytes now = .ok saved := by
  have hstop : (saved.report.endMs == some saved.throughMs &&
      gridEnd saved.throughMs == saved.throughMs) = true := by
    rw [hclosed.stop, gridEnd_eq.2 hcutoff, beq_self_eq_true, beq_self_eq_true]
    rfl
  unfold readSaved
  rw [hdecode, ok_bind, hclosed.validate hgenerated, ok_bind, beq_self_eq_true, ensure_true,
    ok_bind, hclosed.closedGrid hcutoff hgenerated, ok_bind, hstop, ensure_true, ok_bind]
  rfl

theorem readSaved_eq_ok {json : SavedJson F} {key : String} {bytes : List UInt8} {now : Int}
    {saved : Saved F} (h : readSaved json key bytes now = .ok saved) :
    json.decode bytes = .ok saved ∧ saved.report.sourceId = key := by
  unfold readSaved at h
  obtain ⟨read, hdecode, h⟩ := bind_eq_ok.1 h
  obtain ⟨_, -, h⟩ := bind_eq_ok.1 h
  obtain ⟨_, hkey, h⟩ := bind_eq_ok.1 h
  obtain ⟨_, -, h⟩ := bind_eq_ok.1 h
  obtain ⟨_, -, h⟩ := bind_eq_ok.1 h
  cases h
  rw [ensure_eq_ok, beq_iff_eq] at hkey
  exact ⟨hdecode, hkey.symm⟩

/-- A restart shows what was shown before it. -/
theorem Kept.reopen {json : SavedJson F} {store : NavStore F} {now : Int} (h : Kept json store now) :
    NavStore.reopen json store.disk now = store := by
  have hfold : (NavStore.reopen json store.disk now).values =
      (store.disk.toList.filterMap fun entry =>
        (readSaved json entry.1 entry.2 now).toOption.map fun saved =>
          (saved.report.sourceId, saved)).foldl (fun values p => values.insert p.1 p.2) ∅ := by
    unfold NavStore.reopen
    rw [List.foldl_filterMap]
    refine List.foldl_ext _ _ _ fun values entry _ => ?_
    cases readSaved json entry.1 entry.2 now with
    | error e => rfl
    | ok saved => rfl
  have hentry : ∀ (key : String) saved, (key, saved) ∈ (store.disk.toList.filterMap fun entry =>
      (readSaved json entry.1 entry.2 now).toOption.map fun saved =>
        (saved.report.sourceId, saved)) → store.values[key]? = some saved := by
    intro key saved hmem
    obtain ⟨entry, hentry, hmapped⟩ := List.mem_filterMap.1 hmem
    obtain ⟨read, hread, heq⟩ := Option.map_eq_some_iff.1 hmapped
    obtain ⟨rfl, rfl⟩ := Prod.mk.inj heq
    obtain ⟨hdecode, hkey⟩ := readSaved_eq_ok (toOption_eq_some.1 hread)
    obtain ⟨held, hheld, hvalue⟩ := h.same entry.1 entry.2 (mem_toList.1 hentry)
    rw [hdecode, Except.ok.injEq] at hheld
    rw [hkey, hheld]
    exact hvalue
  have hvalues : (NavStore.reopen json store.disk now).values = store.values := by
    refine Std.ExtTreeMap.ext_getElem? fun source => ?_
    rw [hfold]
    cases hsource : store.values[source]? with
    | none =>
      rw [getElem?_foldl_insert_of_forall_ne, Std.ExtTreeMap.getElem?_empty]
      intro saved hmem
      rw [hentry source saved hmem] at hsource
      cases hsource
    | some saved =>
      refine getElem?_foldl_insert _ _ _ _ ?_ fun other hmem => ?_
      · obtain ⟨bytes, hdisk, hdecode⟩ := h.written source saved hsource
        refine List.mem_filterMap.2 ⟨(source, bytes), mem_toList.2 hdisk, ?_⟩
        have hread := readSaved_of_closed hdecode (h.closed source saved hsource)
          (h.cutoff source saved hsource) (h.generated source saved hsource)
        rw [h.named source saved hsource] at hread
        rw [hread]
        show some (saved.report.sourceId, saved) = some (source, saved)
        rw [h.named source saved hsource]
      · have hother := hentry source other hmem
        rw [hsource, Option.some.injEq] at hother
        exact hother.symm
  calc NavStore.reopen json store.disk now =
      ⟨(NavStore.reopen json store.disk now).disk, (NavStore.reopen json store.disk now).values⟩ := rfl
    _ = ⟨store.disk, store.values⟩ := by rw [hvalues]; rfl
    _ = store := rfl

theorem kept_run (json : SavedJson F) {events : List (Int × NavEvent F)} (h : Feasible events)
    {now : Int} (hnow : ∀ event ∈ events, event.1 ≤ now) :
    Kept json (NavStore.run json events) now := by
  induction events using List.reverseRecOn generalizing now with
  | nil => exact kept_empty json now
  | append_singleton events event ih =>
    obtain ⟨hclock, -, hlater⟩ := List.pairwise_append.1 h.clock
    have hbefore : Feasible events :=
      ⟨hclock, fun e he => h.cutoffs e (List.mem_append_left _ he)⟩
    have hkept := ih hbefore fun e he => hlater e he event (List.mem_singleton_self event)
    have hlast := hnow event (List.mem_append_right _ (List.mem_singleton_self event))
    have hrun : NavStore.run json (events ++ [event]) =
        NavStore.apply json (NavStore.run json events) event := by
      unfold NavStore.run
      rw [List.foldl_append, List.foldl_cons, List.foldl_nil]
    rw [hrun]
    refine Kept.later ?_ hlast
    generalize NavStore.run json events = store at hkept
    unfold NavStore.apply
    cases hevent : event.2 with
    | save report inputKey throughMs failed =>
      exact hkept.save (h.cutoffs event (List.mem_append_right _ (List.mem_singleton_self event))
        report inputKey throughMs failed hevent)
    | restart =>
      dsimp only
      rw [hkept.reopen]
      exact hkept

/-! ## Every run -/

/-- A curve from its zero origin to its cutoff, with every grid time between them once. -/
def FullCurve (saved : Saved F) : Prop :=
  ∃ first more, saved.report.points = first :: more ∧ saved.report.startMs = some first.tsMs ∧
    F64.abs first.pnlQuote < F64.eps8 ∧
    ((first :: more).getLast (List.cons_ne_nil _ _)).tsMs = saved.throughMs ∧
    OnGrid (first :: more) ∧
    ∀ tsMs, first.tsMs < tsMs → tsMs ≤ saved.throughMs → tsMs % INTERVAL_MS = 0 →
      (more.map Point.tsMs).count tsMs = 1

theorem Closed.fullCurve {saved : Saved F} (h : Closed saved.report saved.throughMs) :
    FullCurve saved := by
  obtain ⟨last, hlast, hstop⟩ := Option.map_eq_some_iff.1 h.last
  cases hpoints : saved.report.points with
  | nil =>
    rw [hpoints] at hlast
    cases hlast
  | cons first more =>
    have hend : ((first :: more).getLast (List.cons_ne_nil _ _)).tsMs = saved.throughMs := by
      rw [hpoints, List.getLast?_eq_some_getLast (List.cons_ne_nil _ _), Option.some.injEq] at hlast
      rw [hlast]
      exact hstop
    have hgrid := h.grid
    rw [hpoints] at hgrid
    refine ⟨first, more, hpoints, ?_, ?_, hend, hgrid, fun tsMs hlow hhigh haligned => ?_⟩
    · rw [h.start, hpoints]
      rfl
    · refine (h.origin first ?_).2
      rw [hpoints]
      rfl
    · exact hgrid.count hlow (by rwa [hend]) haligned

/-- What a call of `save` does to a store. -/
structure SaveLaws (json : SavedJson F) (store : NavStore F) (report : NavReport F)
    (inputKey : String) (throughMs now : Int) (failed : Option String) : Prop where
  /-- the curve that is stored begins where the report does -/
  saves : ∀ store', store.save json report inputKey throughMs now failed = (store', .ok ()) →
    ∃ saved, store'.values[report.sourceId]? = some saved ∧ saved.inputKey = inputKey ∧
      saved.throughMs = throughMs ∧ FullCurve saved ∧
      saved.report.points.head? = report.points.head? ∧
      saved.report.points <+: report.points ∧
      ∃ bytes, store'.disk[report.sourceId]? = some bytes ∧ json.decode bytes = .ok saved
  others : ∀ (other : String), other ≠ report.sourceId →
    (store.save json report inputKey throughMs now failed).1.values[other]? = store.values[other]? ∧
      (store.save json report inputKey throughMs now failed).1.disk[other]? = store.disk[other]?
  rejects : ∀ store' e,
    store.save json report inputKey throughMs now failed = (store', .error e) → store' = store

theorem saveLaws (json : SavedJson F) (store : NavStore F) (report : NavReport F)
    (inputKey : String) (throughMs now : Int) (failed : Option String) :
    SaveLaws json store report inputKey throughMs now failed where
  saves := by
    intro store' hsave
    obtain ⟨closed, bytes, hclosed, hencode, rfl⟩ := save_eq_ok hsave
    obtain ⟨hvalid, hpoints, hprefix, -⟩ := closed_of_closedGrid hclosed
    have hsource : closed.sourceId = report.sourceId := by
      rw [hpoints]
      rfl
    have hfull : FullCurve { inputKey, throughMs, report := closed } := hvalid.fullCurve
    refine ⟨{ inputKey, throughMs, report := closed }, ?_, rfl, rfl, hfull, ?_, hprefix, bytes, ?_,
      json.roundTrip _ _ hencode hvalid.finite⟩
    · dsimp only
      rw [getElem?_insert_of_key, if_pos hsource]
    · obtain ⟨first, more, hfirst, -⟩ := hfull
      obtain ⟨rest, hrest⟩ := hprefix
      rw [← hrest, hfirst]
      rfl
    · dsimp only
      rw [getElem?_insert_of_key, if_pos hsource]
  others := by
    intro other hother
    cases hsave : store.save json report inputKey throughMs now failed with
    | mk store' result =>
      cases result with
      | error e =>
        rw [save_eq_error hsave]
        exact ⟨rfl, rfl⟩
      | ok u =>
        obtain ⟨closed, bytes, hclosed, -, rfl⟩ := save_eq_ok hsave
        obtain ⟨-, hpoints, -, -⟩ := closed_of_closedGrid hclosed
        have hne : ¬ closed.sourceId = other := by
          rw [hpoints]
          exact fun heq => hother heq.symm
        dsimp only
        rw [getElem?_insert_of_key, if_neg hne, getElem?_insert_of_key, if_neg hne]
        exact ⟨rfl, rfl⟩
  rejects := fun _ _ => save_eq_error

omit [F64 F] in
theorem read_incomplete {store : NavStore F} {source : String} {saved : Saved F} {now : Int}
    (hsaved : store.values[source]? = some saved) (hbehind : saved.throughMs < gridEnd now) :
    (store.read source now).complete = false := by
  unfold NavStore.read
  rw [hsaved]
  dsimp only
  rw [if_pos hbehind]

/-- After every run the stored curves are full, those in memory are those on disk, and a restart
shows them again; a save stores the curve of its report or changes nothing, and a source that is
behind the grid is not complete. -/
theorem navStore_laws (json : SavedJson F) {events : List (Int × NavEvent F)}
    (hfeasible : Feasible events) {now : Int} (hnow : ∀ event ∈ events, event.1 ≤ now) :
    (∀ (source : String) saved, (NavStore.run json events).values[source]? = some saved →
      FullCurve saved ∧ saved.report.sourceId = source ∧
        ∃ bytes, (NavStore.run json events).disk[source]? = some bytes ∧
          json.decode bytes = .ok saved ∧ readSaved json source bytes now = .ok saved) ∧
    (∀ (source : String) bytes, (NavStore.run json events).disk[source]? = some bytes →
      ∃ saved, (NavStore.run json events).values[source]? = some saved) ∧
    NavStore.reopen json (NavStore.run json events).disk now = NavStore.run json events ∧
    (∀ report inputKey throughMs failed, throughMs % INTERVAL_MS = 0 →
      SaveLaws json (NavStore.run json events) report inputKey throughMs now failed) ∧
    ∀ (source : String) saved clock, (NavStore.run json events).values[source]? = some saved →
      saved.throughMs < gridEnd clock →
        ((NavStore.run json events).read source clock).complete = false := by
  have hkept := kept_run json hfeasible hnow
  refine ⟨fun source saved hsaved => ?_, fun source bytes hbytes => ?_, hkept.reopen,
    fun report inputKey throughMs failed _ => saveLaws json _ report inputKey throughMs now failed,
    fun source saved clock hsaved hbehind => read_incomplete hsaved hbehind⟩
  · obtain ⟨bytes, hdisk, hdecode⟩ := hkept.written source saved hsaved
    have hread := readSaved_of_closed hdecode (hkept.closed source saved hsaved)
      (hkept.cutoff source saved hsaved) (hkept.generated source saved hsaved)
    rw [hkept.named source saved hsaved] at hread
    exact ⟨(hkept.closed source saved hsaved).fullCurve, hkept.named source saved hsaved, bytes,
      hdisk, hdecode, hread⟩
  · obtain ⟨saved, -, hsaved⟩ := hkept.same source bytes hbytes
    exact ⟨saved, hsaved⟩

end

/-! One upstream report with its moving point, a save and a restart. -/

def sampleReport : NavReport ℚ where
  sourceId := "a"
  startMs := some 1
  endMs := some 28800007
  generatedAtMs := 28800007
  intervalHours := 4
  valuation := ""
  funding := ""
  complete := true
  loading := false
  unavailableReason := none
  points := [⟨1, 0⟩, ⟨14400000, 5⟩, ⟨28800000, 3⟩, ⟨28800007, 4⟩]

def sampleSaved : Saved ℚ where
  inputKey := "k"
  throughMs := 28800000
  report := sampleReport.withPoints [⟨1, 0⟩, ⟨14400000, 5⟩, ⟨28800000, 3⟩]

def sampleText : String :=
  "\x7b\"input_key\":\"k\",\"through_ms\":28800000,\"report\":\x7b\"source_id\":\"a\"," ++
  "\"start_ms\":1,\"end_ms\":28800000,\"generated_at_ms\":28800007,\"interval_hours\":4," ++
  "\"valuation\":\"\",\"funding\":\"\",\"complete\":true,\"loading\":false," ++
  "\"unavailable_reason\":null,\"points\":[\x7b\"ts_ms\":1,\"pnl_quote\":0.0\x7d," ++
  "\x7b\"ts_ms\":14400000,\"pnl_quote\":5.0\x7d,\x7b\"ts_ms\":28800000,\"pnl_quote\":3.0\x7d]\x7d\x7d"

/-- `serde_json` on one curve and its text. -/
def textOf (curve : Saved ℚ) (text : List UInt8) : SavedJson ℚ where
  encode saved := if saved = curve then .ok text else .error "another curve"
  decode bytes := if bytes = text then .ok curve else .error "another text"
  roundTrip := by
    intro saved bytes hencode _
    split at hencode
    · next hsaved =>
      cases hencode
      rw [if_pos rfl, hsaved]
    · cases hencode

def sampleJson : SavedJson ℚ := textOf sampleSaved (Utf8.encode sampleText.toList)

def sampleEvents : List (Int × NavEvent ℚ) :=
  [(28800008, .save sampleReport "k" 28800000 none), (28800012, .restart)]

theorem sampleEvents_feasible : Feasible sampleEvents where
  clock := by decide
  cutoffs := by
    intro event hevent report inputKey throughMs failed hsave
    rcases List.mem_pair.1 hevent with rfl | rfl
    · cases hsave
      rfl
    · cases hsave

theorem sampleRun_saved : (NavStore.run sampleJson sampleEvents).values["a"]? = some sampleSaved := by
  decide +kernel

theorem navStore_laws_sample :
    Feasible sampleEvents ∧
      (NavStore.run sampleJson sampleEvents).values["a"]? = some sampleSaved ∧
      FullCurve sampleSaved ∧
      NavStore.reopen sampleJson (NavStore.run sampleJson sampleEvents).disk 28800012 =
        NavStore.run sampleJson sampleEvents := by
  have hnow : ∀ event ∈ sampleEvents, event.1 ≤ 28800012 := by decide
  obtain ⟨hsaved, -, hreopen, -⟩ := navStore_laws sampleJson sampleEvents_feasible hnow
  exact ⟨sampleEvents_feasible, sampleRun_saved, (hsaved "a" _ sampleRun_saved).1, hreopen⟩

end CtaManager.Overview
