import CtaManager.Library.Check
import CtaManager.Library.OrdMap
import CtaManager.Library.SortedPrefix
import CtaManager.Nav.Num

/-!
The NAV curve of a source on the four-hour grid (`account_overview/nav.rs`).

A report from upstream ends in a moving point.  `closedGrid` cuts it at the last grid time and
takes it only if no grid time since its origin is missing.
-/

namespace CtaManager.Overview

open Check

def INTERVAL_MS : Int := 4 * 3600000

structure Point (F : Type) where
  tsMs : Int
  pnlQuote : F
  deriving DecidableEq

structure NavReport (F : Type) where
  sourceId : String
  startMs : Option Int
  endMs : Option Int
  generatedAtMs : Int
  intervalHours : Nat
  valuation : String
  funding : String
  complete : Bool
  loading : Bool
  unavailableReason : Option String
  points : List (Point F)
  deriving DecidableEq

/-- The first grid time after a time. -/
def nextGrid (tsMs : Int) : Int := (tsMs / INTERVAL_MS + 1) * INTERVAL_MS

def gridEnd (nowMs : Int) : Int := nowMs / INTERVAL_MS * INTERVAL_MS

/-- The points step from grid time to grid time. -/
abbrev OnGrid {F : Type} (points : List (Point F)) : Prop :=
  points.IsChain fun w w' => w'.tsMs = nextGrid w.tsMs

/-- `while`: the points behind the last one on the grid, from the last point on. -/
def dropUnaligned {F : Type} : List (Point F) → List (Point F)
  | last :: before :: more =>
    if last.tsMs % INTERVAL_MS ≠ 0 then dropUnaligned (before :: more) else last :: before :: more
  | points => points

namespace NavReport

/-- `Monitor::pending`. -/
def pending {F : Type} (source reason : String) (now : Int) : NavReport F where
  sourceId := source
  startMs := none
  endMs := none
  generatedAtMs := now
  intervalHours := 4
  valuation := ""
  funding := ""
  complete := false
  loading := true
  unavailableReason := some reason
  points := []

variable {F : Type} [F64 F]

/-- The checks of `validate` on a curve with points. -/
def validatePoints (report : NavReport F) (first last : Point F) : Except String Unit := do
  ensure (some first.tsMs == report.startMs && some last.tsMs == report.endMs &&
      decide (0 < first.tsMs) && decide (last.tsMs ≤ report.generatedAtMs + 30000) &&
      decide (F64.abs first.pnlQuote < F64.eps8))
    "invalid NAV endpoints"
  ensure (report.points.all (fun p => F64.isFinite p.pnlQuote) &&
      decide (report.points.IsChain fun w w' => w.tsMs < w'.tsMs))
    "invalid NAV points"
  ensure (((report.points.drop 1).take (report.points.length - 2)).all fun p =>
      p.tsMs % INTERVAL_MS == 0)
    "unaligned NAV samples"
  if report.complete then
    ensure (decide (report.points.IsChain fun w w' => w'.tsMs = min (nextGrid w.tsMs) last.tsMs))
      "missing NAV samples"

def validate (report : NavReport F) (source : String) (now : Int) : Except String Unit := do
  ensure (report.sourceId == source && report.intervalHours == 4) "NAV identity or interval mismatch"
  ensure (decide (0 < report.generatedAtMs) && decide (report.generatedAtMs ≤ now + 30000))
    "invalid NAV generation timestamp"
  ensure (decide (report.points.length ≤ 100000)) "NAV history too large"
  match report.points.head?, report.points.getLast? with
  | some first, some last => report.validatePoints first last
  | _, _ => ensure (!report.complete && report.unavailableReason.isSome) "missing NAV history reason"

/-- The report with other points, and their ends. -/
def withPoints (report : NavReport F) (points : List (Point F)) : NavReport F :=
  { report with
    points
    startMs := points.head?.map Point.tsMs
    endMs := points.getLast?.map Point.tsMs }

/-- The points up to the cutoff, without those behind the last one on the grid. -/
def cutPoints (report : NavReport F) (cutoff : Int) : List (Point F) :=
  (dropUnaligned (report.points.filter fun p => decide (p.tsMs ≤ cutoff)).reverse).reverse

def closedGrid (report : NavReport F) (cutoff now : Int) : Except String (NavReport F) := do
  report.validate report.sourceId now
  let report := report.withPoints (report.cutPoints cutoff)
  ensure (report.endMs == some cutoff) "four-hour NAV point not ready"
  ensure (decide (OnGrid report.points)) "four-hour NAV history has missing samples"
  return report

end NavReport

/-! ## The grid -/

theorem lt_nextGrid (tsMs : Int) : tsMs < nextGrid tsMs := by
  unfold nextGrid INTERVAL_MS
  omega

theorem nextGrid_aligned (tsMs : Int) : nextGrid tsMs % INTERVAL_MS = 0 :=
  Int.mul_emod_left _ _

/-- No grid time lies between a time and the next. -/
theorem nextGrid_le {tsMs m : Int} (h : tsMs < m) (hm : m % INTERVAL_MS = 0) :
    nextGrid tsMs ≤ m := by
  unfold nextGrid INTERVAL_MS at *
  omega

theorem gridEnd_eq {tsMs : Int} : gridEnd tsMs = tsMs ↔ tsMs % INTERVAL_MS = 0 := by
  unfold gridEnd INTERVAL_MS
  omega

section

variable {F : Type}

theorem OnGrid.ascending {points : List (Point F)} (h : OnGrid points) :
    points.Pairwise fun w w' => w.tsMs < w'.tsMs := by
  refine List.isChain_iff_pairwise.1 (h.imp fun w w' heq => ?_)
  rw [heq]
  exact lt_nextGrid w.tsMs

theorem le_last {points : List (Point F)} (h : points.Pairwise fun w w' => w.tsMs < w'.tsMs)
    {last : Point F} (hlast : points.getLast? = some last) : ∀ p ∈ points, p.tsMs ≤ last.tsMs := by
  obtain ⟨before, rfl⟩ := List.getLast?_eq_some_iff.1 hlast
  rw [List.pairwise_append] at h
  intro p hp
  rcases List.mem_append.1 hp with hp | hp
  · exact (h.2.2 p hp last (List.mem_singleton_self last)).le
  · rw [List.mem_singleton.1 hp]

/-- Every point behind the first is on the grid. -/
theorem OnGrid.aligned {first : Point F} {more : List (Point F)} (h : OnGrid (first :: more)) :
    ∀ p ∈ more, p.tsMs % INTERVAL_MS = 0 := by
  induction more generalizing first with
  | nil => exact fun p hp => absurd hp List.not_mem_nil
  | cons second more ih =>
    rw [OnGrid, List.isChain_cons_cons] at h
    refine List.forall_mem_cons.2 ⟨?_, ih h.2⟩
    rw [h.1]
    exact nextGrid_aligned first.tsMs

/-- A curve on the grid has every grid time between its ends once. -/
theorem OnGrid.count {first : Point F} {more : List (Point F)} (h : OnGrid (first :: more))
    {tsMs : Int} (hlow : first.tsMs < tsMs)
    (hhigh : tsMs ≤ ((first :: more).getLast (List.cons_ne_nil _ _)).tsMs)
    (haligned : tsMs % INTERVAL_MS = 0) : (more.map Point.tsMs).count tsMs = 1 := by
  induction more generalizing first with
  | nil => exact absurd hlow (not_lt.2 hhigh)
  | cons second more ih =>
    have hascending := h.ascending
    rw [OnGrid, List.isChain_cons_cons] at h
    have hsecond : second.tsMs ≤ tsMs := by
      rw [h.1]
      exact nextGrid_le hlow haligned
    rw [List.map_cons]
    rcases hsecond.eq_or_lt with heq | hlt
    · have habsent : tsMs ∉ more.map Point.tsMs := by
        intro hmem
        obtain ⟨p, hp, rfl⟩ := List.mem_map.1 hmem
        have hlater := (List.pairwise_cons.1 (List.pairwise_cons.1 hascending).2).1 p hp
        omega
      rw [heq, List.count_cons_self, List.count_eq_zero.2 habsent]
    · rw [List.count_cons_of_ne hlt.ne]
      refine ih h.2 hlt ?_
      rwa [List.getLast_cons (List.cons_ne_nil _ _)] at hhigh

theorem dropUnaligned_suffix (points : List (Point F)) : dropUnaligned points <:+ points := by
  fun_induction dropUnaligned points with
  | case1 last before more hunaligned ih => exact ih.trans (List.suffix_cons last _)
  | case2 last before more haligned => exact List.suffix_refl _
  | case3 points hshort => exact List.suffix_refl _

theorem dropUnaligned_aligned {last : Point F} {more : List (Point F)}
    (h : last.tsMs % INTERVAL_MS = 0) : dropUnaligned (last :: more) = last :: more := by
  cases more with
  | nil => rfl
  | cons before more =>
    unfold dropUnaligned
    rw [if_neg (not_not.2 h)]

end

/-! ## Closed reports -/

section

variable {F : Type} [F64 F] {report closed : NavReport F} {cutoff now : Int}

/-- A report on the grid up to its cutoff: what the store keeps. -/
structure Closed (report : NavReport F) (cutoff : Int) : Prop where
  hours : report.intervalHours = 4
  generated : 0 < report.generatedAtMs
  reaches : cutoff ≤ report.generatedAtMs + 30000
  size : report.points.length ≤ 100000
  start : report.startMs = report.points.head?.map Point.tsMs
  stop : report.endMs = some cutoff
  last : report.points.getLast?.map Point.tsMs = some cutoff
  origin : ∀ first, report.points.head? = some first →
    0 < first.tsMs ∧ F64.abs first.pnlQuote < F64.eps8
  finite : ∀ p ∈ report.points, F64.isFinite p.pnlQuote = true
  grid : OnGrid report.points

/-- What `validate` accepts, where there are points. -/
theorem validate_eq_ok {source : String} {first last : Point F}
    (hfirst : report.points.head? = some first) (hlast : report.points.getLast? = some last) :
    report.validate source now = .ok () ↔
      (report.sourceId = source ∧ report.intervalHours = 4) ∧
      (0 < report.generatedAtMs ∧ report.generatedAtMs ≤ now + 30000) ∧
      report.points.length ≤ 100000 ∧
      ((((some first.tsMs = report.startMs ∧ some last.tsMs = report.endMs) ∧ 0 < first.tsMs) ∧
        last.tsMs ≤ report.generatedAtMs + 30000) ∧ F64.abs first.pnlQuote < F64.eps8) ∧
      ((∀ p ∈ report.points, F64.isFinite p.pnlQuote = true) ∧
        report.points.IsChain fun w w' => w.tsMs < w'.tsMs) ∧
      (∀ p ∈ (report.points.drop 1).take (report.points.length - 2), p.tsMs % INTERVAL_MS = 0) ∧
      (report.complete = true →
        report.points.IsChain fun w w' => w'.tsMs = min (nextGrid w.tsMs) last.tsMs) := by
  unfold NavReport.validate NavReport.validatePoints
  rw [hfirst, hlast]
  cases hcomplete : report.complete with
  | false =>
    simp only [bind_eq_ok, ensure_eq_ok, Bool.and_eq_true, beq_iff_eq, decide_eq_true_eq,
      List.all_eq_true, Bool.false_eq_true, if_false, false_implies, exists_const, and_true,
      pure_eq_ok]
  | true =>
    simp only [bind_eq_ok, ensure_eq_ok, Bool.and_eq_true, beq_iff_eq, decide_eq_true_eq,
      List.all_eq_true, if_true, true_implies, exists_const]

/-- A closed report is accepted at every time it may have been generated at. -/
theorem Closed.validate (h : Closed report cutoff) (hnow : report.generatedAtMs ≤ now + 30000) :
    report.validate report.sourceId now = .ok () := by
  obtain ⟨last, hlast, hstop⟩ := Option.map_eq_some_iff.1 h.last
  cases hpoints : report.points with
  | nil =>
    rw [hpoints] at hlast
    cases hlast
  | cons first more =>
    have hfirst : report.points.head? = some first := by
      rw [hpoints]
      rfl
    have hbelow := le_last h.grid.ascending hlast
    refine (validate_eq_ok hfirst hlast).2 ⟨⟨rfl, h.hours⟩, ⟨h.generated, hnow⟩, h.size,
      ⟨⟨⟨⟨?_, ?_⟩, (h.origin first hfirst).1⟩, ?_⟩, (h.origin first hfirst).2⟩,
      ⟨h.finite, ?_⟩, ?_, ?_⟩
    · rw [h.start, hfirst]
      rfl
    · rw [h.stop, hstop]
    · rw [hstop]
      exact h.reaches
    · refine h.grid.imp fun w w' heq => ?_
      rw [heq]
      exact lt_nextGrid w.tsMs
    · intro p hp
      have hmem := List.mem_of_mem_take hp
      have hgrid := h.grid
      rw [hpoints] at hmem hgrid
      exact hgrid.aligned p hmem
    · intro _
      refine h.grid.imp_of_mem_imp fun w w' _ hw' heq => ?_
      rw [heq, eq_comm, min_eq_left_iff, ← heq]
      exact hbelow w' hw'

/-- Cutting a closed report again at its cutoff changes nothing. -/
theorem Closed.closedGrid (h : Closed report cutoff) (hcutoff : cutoff % INTERVAL_MS = 0)
    (hnow : report.generatedAtMs ≤ now + 30000) : report.closedGrid cutoff now = .ok report := by
  obtain ⟨last, hlast, hstop⟩ := Option.map_eq_some_iff.1 h.last
  obtain ⟨before, hbefore⟩ := List.getLast?_eq_some_iff.1 hlast
  have hkept : (report.points.filter fun p => decide (p.tsMs ≤ cutoff)) = report.points := by
    refine List.filter_eq_self.2 fun p hp => ?_
    rw [decide_eq_true_eq, ← hstop]
    exact le_last h.grid.ascending hlast p hp
  have hcut : report.cutPoints cutoff = report.points := by
    unfold NavReport.cutPoints
    rw [hkept, hbefore, List.reverse_append, List.reverse_singleton, List.singleton_append,
      dropUnaligned_aligned (hstop ▸ hcutoff), List.reverse_cons, List.reverse_reverse]
  have hsame : report.withPoints (report.cutPoints cutoff) = report := by
    unfold NavReport.withPoints
    rw [hcut, ← h.start, h.last, ← h.stop]
  unfold NavReport.closedGrid
  rw [h.validate hnow, ok_bind, hsame]
  dsimp only
  have hstopped : (report.endMs == some cutoff) = true := beq_iff_eq.2 h.stop
  rw [hstopped, ensure_true, ok_bind, decide_eq_true h.grid, ensure_true, ok_bind]
  rfl

omit [F64 F] in
theorem cutPoints_prefix {points : List (Point F)} (hpoints : report.points = points)
    (hascending : points.Pairwise fun w w' => w.tsMs < w'.tsMs) (cutoff : Int) :
    report.cutPoints cutoff <+: points := by
  have hdropped := dropUnaligned_suffix
    (points.filter fun p => decide (p.tsMs ≤ cutoff)).reverse
  have hfront : (points.filter fun p => decide (p.tsMs ≤ cutoff)) <+: points := by
    refine ⟨points.filter fun p => decide (cutoff < p.tsMs), ?_⟩
    exact StableSort.filter_le_append_filter_lt (hascending.imp fun h => h.le) cutoff
  unfold NavReport.cutPoints
  rw [hpoints]
  refine List.IsPrefix.trans ?_ hfront
  rw [← List.reverse_suffix, List.reverse_reverse]
  exact hdropped

/-- What `closed_grid` returns is a closed report that begins where the report did. -/
theorem closed_of_closedGrid (h : report.closedGrid cutoff now = .ok closed) :
    Closed closed cutoff ∧ closed = report.withPoints (report.cutPoints cutoff) ∧
      closed.points <+: report.points ∧ report.generatedAtMs ≤ now + 30000 := by
  unfold NavReport.closedGrid at h
  obtain ⟨⟨⟩, hvalid, h⟩ := bind_eq_ok.1 h
  obtain ⟨_, hstop, h⟩ := bind_eq_ok.1 h
  obtain ⟨_, hgrid, h⟩ := bind_eq_ok.1 h
  cases h
  rw [ensure_eq_ok, beq_iff_eq] at hstop
  rw [ensure_eq_ok, decide_eq_true_eq] at hgrid
  have hcut : ∃ p, p ∈ report.cutPoints cutoff := by
    cases hpoints : report.cutPoints cutoff with
    | nil =>
      rw [hpoints] at hstop
      cases hstop
    | cons first more => exact ⟨first, List.mem_cons_self⟩
  have hne : report.points ≠ [] := by
    rintro hnil
    obtain ⟨p, hp⟩ := hcut
    unfold NavReport.cutPoints at hp
    rw [hnil] at hp
    exact absurd hp List.not_mem_nil
  obtain ⟨first, hfirst⟩ : ∃ first, report.points.head? = some first :=
    Option.isSome_iff_exists.1 (List.isSome_head?.2 hne)
  obtain ⟨last, hlast⟩ : ∃ last, report.points.getLast? = some last :=
    Option.isSome_iff_exists.1 (List.getLast?_isSome.2 hne)
  obtain ⟨⟨-, hhours⟩, ⟨hpositive, hgenerated⟩, hsize, ⟨⟨⟨-, horigin⟩, hreach⟩, hzero⟩,
    ⟨hfinite, hascending⟩, -, -⟩ := (validate_eq_ok hfirst hlast).1 hvalid
  have hpairwise := List.isChain_iff_pairwise.1 hascending
  have hinit := cutPoints_prefix rfl hpairwise cutoff
  refine ⟨?_, rfl, hinit, hgenerated⟩
  have hhead : (report.cutPoints cutoff).head? = some first := by
    obtain ⟨p, hp⟩ := hcut
    obtain ⟨rest, hrest⟩ := hinit
    cases hpoints : report.cutPoints cutoff with
    | nil =>
      rw [hpoints] at hp
      exact absurd hp List.not_mem_nil
    | cons head more =>
      rw [hpoints] at hrest
      rw [← hrest] at hfirst
      exact hfirst
  exact {
    hours := hhours
    generated := hpositive
    reaches := by
      obtain ⟨p, hp, hts⟩ := Option.map_eq_some_iff.1 hstop
      rw [← hts]
      exact (le_last hpairwise hlast p (hinit.subset (List.mem_of_getLast? hp))).trans hreach
    size := hinit.length_le.trans hsize
    start := rfl
    stop := hstop
    last := hstop
    origin := by
      intro head hsome
      have heq : some first = some head := hhead.symm.trans hsome
      rw [← Option.some.inj heq]
      exact ⟨horigin, hzero⟩
    finite := fun p hp => hfinite p (hinit.subset hp)
    grid := hgrid }

end

end CtaManager.Overview
