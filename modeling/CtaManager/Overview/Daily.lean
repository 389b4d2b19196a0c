import CtaManager.Library.Check
import CtaManager.Library.PartitionPoint
import CtaManager.Library.RunningPeak
import CtaManager.Nav.Num

/-!
Daily equity of an account, reconstructed from its NAV (`account_overview/daily.rs`).

The equity at a sample is the equity of the anchor less the NAV change since the
sample, so two equities differ as their samples do.  The rows are the samples at
Shanghai midnights.  The checks look at neighbouring rows and at the last one, so
the days are complete from the first sampled midnight on; the caller starts its
samples at a midnight (`reconstruct_consistent`).
-/

namespace CtaManager.Overview

open Check

def DAY_MS : Int := 86400000

def SHANGHAI_OFFSET_MS : Int := 8 * 3600000

/-- The Shanghai midnight at or before a time. -/
def dayStart (tsMs : Int) : Int :=
  (tsMs + SHANGHAI_OFFSET_MS) / DAY_MS * DAY_MS - SHANGHAI_OFFSET_MS

structure EquityAnchor (F : Type) where
  dayMs : Int
  tsMs : Int
  equity : F
  navChangeQuote : F
  coverageStartMs : Int
  navGeneratedAtUs : Int
  fundingMode : String
  /-- False also describes records created before allocation provenance was saved. -/
  strategyAllocation : Bool
  valuation : String
  computedAtMs : Int
  drawdown15dPercent : Option F

structure DailyEquity (F : Type) where
  sourceId : String
  boundaryTsMs : Int
  equity : F
  previousEquity : Option F
  navChangeQuote : F
  drawdown15dPercent : Option F
  anchor : EquityAnchor F

section

variable {F : Type} [F64 F]

/-- `f64::max` of numbers. -/
def maxOf (a b : F) : F := if a < b then b else a

/-- The loop of `maximum_drawdown`. -/
def drawdownFrom (peak worst : F) (seen : Bool) : List F → Option F
  | [] => if seen then some worst else none
  | value :: rest =>
    if !F64.isFinite value then none
    else
      let peak := maxOf peak value
      if 0 < peak then drawdownFrom peak (maxOf worst ((peak - value) / peak)) true rest
      else drawdownFrom peak worst seen rest

def maximumDrawdown (values : List F) : Option F := drawdownFrom 0 0 false values

/-- The samples from the last one at or before `end - 15 days` to `end`. -/
def drawdown [NatCast F] (equities : List (Int × F)) (endMs : Int) : Option F :=
  let start := endMs - 15 * DAY_MS
  match PartitionPoint.partitionPoint (fun e => decide (e.1 ≤ start)) equities with
  | 0 => none
  | first + 1 =>
    (maximumDrawdown (((equities.drop first).takeWhile fun e => decide (e.1 ≤ endMs)).map
      Prod.snd)).map fun value => value * (100 : Nat)

/-- The loop over the samples and their equities. -/
def equityRows [NatCast F] (sourceId : String) (anchor : EquityAnchor F)
    (equities : List (Int × F)) (previous : Option (Int × F)) :
    List ((Int × F) × F) → List (DailyEquity F)
  | [] => []
  | ((ts, value), equity) :: rest =>
    if dayStart ts != ts then equityRows sourceId anchor equities previous rest
    else
      { sourceId
        boundaryTsMs := ts
        equity
        previousEquity := (previous.filter fun p => p.1 + DAY_MS == ts).map Prod.snd
        navChangeQuote := value
        drawdown15dPercent := drawdown equities ts
        anchor } :: equityRows sourceId anchor equities (some (ts, equity)) rest

/-- The equity at each sample. -/
def equitiesOf (equity currentNav : F) (nav : List (Int × F)) : List (Int × F) :=
  nav.map fun (ts, value) => (ts, equity - (currentNav - value))

def reconstruct [NatCast F] (sourceId : String) (anchor : EquityAnchor F) (nav : List (Int × F)) :
    Except String (List (DailyEquity F)) := do
  ensure (sourceId != "") "missing equity source"
  ensure (F64.isFinite anchor.equity) "invalid equity anchor"
  ensure (dayStart anchor.tsMs == anchor.dayMs) "anchor is outside rebuild day"
  ensure (decide (anchor.tsMs ≤ anchor.computedAtMs)) "future equity anchor"
  ensure (["actual", "estimated", "excluded"].contains anchor.fundingMode) "invalid funding mode"
  match nav.head?, nav.getLast? with
  | some (coverage, _), some (last, currentNav) => do
    ensure (nav.all fun e => decide (0 ≤ e.1) && F64.isFinite e.2) "invalid account NAV"
    ensure (decide (nav.IsChain fun e e' => e.1 < e'.1)) "unordered account NAV"
    ensure (last == anchor.tsMs) "equity and NAV anchors differ"
    ensure (coverage == anchor.coverageStartMs) "NAV coverage start differs"
    let anchor := { anchor with navChangeQuote := currentNav }
    let equities := equitiesOf anchor.equity currentNav nav
    ensure (equities.all fun e => F64.isFinite e.2) "invalid reconstructed equity"
    let anchor := { anchor with drawdown15dPercent := drawdown equities anchor.tsMs }
    let rows := equityRows sourceId anchor equities none (nav.zip (equities.map Prod.snd))
    ensure (rows.getLast?.any fun row => row.boundaryTsMs == anchor.dayMs)
      "missing current Shanghai baseline"
    ensure (decide (rows.IsChain fun row row' =>
      row.boundaryTsMs + DAY_MS = row'.boundaryTsMs)) "missing Shanghai NAV boundary"
    return rows
  | _, _ => .error "empty account NAV"

end

/-! ## Midnights -/

theorem dayStart_eq_iff {t : Int} : dayStart t = t ↔ (t + SHANGHAI_OFFSET_MS) % DAY_MS = 0 := by
  unfold dayStart DAY_MS SHANGHAI_OFFSET_MS
  omega

theorem dayStart_dayStart (t : Int) : dayStart (dayStart t) = dayStart t := by
  unfold dayStart DAY_MS SHANGHAI_OFFSET_MS
  omega

/-- The first Shanghai midnight at or after a time. -/
def nextMidnight (t : Int) : Int := dayStart (t + DAY_MS - 1)

theorem nextMidnight_spec (t : Int) :
    dayStart (nextMidnight t) = nextMidnight t ∧ t ≤ nextMidnight t ∧
      ∀ m, dayStart m = m → t ≤ m → nextMidnight t ≤ m := by
  refine ⟨dayStart_dayStart _, ?_, fun m hm ht => ?_⟩
  · unfold nextMidnight dayStart DAY_MS SHANGHAI_OFFSET_MS
    omega
  · rw [dayStart_eq_iff] at hm
    unfold nextMidnight dayStart
    unfold DAY_MS SHANGHAI_OFFSET_MS at *
    omega

theorem nextMidnight_of_midnight {t : Int} (h : dayStart t = t) : nextMidnight t = t := by
  obtain ⟨-, hle, hleast⟩ := nextMidnight_spec t
  exact le_antisymm (hleast t h le_rfl) hle

/-- Days one after another from `first` on. -/
theorem mem_of_days {l : List Int} (hdays : l.IsChain fun a b => a + DAY_MS = b) {first last : Int}
    (hhead : l.head? = some first) (hlast : l.getLast? = some last)
    (hfirst : dayStart first = first) :
    ∀ t, t ∈ l ↔ dayStart t = t ∧ first ≤ t ∧ t ≤ last := by
  induction l generalizing first with
  | nil => cases hhead
  | cons a l ih =>
    cases hhead
    intro t
    cases l with
    | nil =>
      cases hlast
      rw [List.mem_singleton]
      constructor
      · rintro rfl
        exact ⟨hfirst, le_rfl, le_rfl⟩
      · exact fun ⟨_, hle, hge⟩ => le_antisymm hge hle
    | cons b l =>
      rw [List.isChain_cons_cons] at hdays
      have hb : dayStart b = b := by
        rw [dayStart_eq_iff] at hfirst ⊢
        unfold DAY_MS SHANGHAI_OFFSET_MS at *
        omega
      rw [List.getLast?_cons_cons] at hlast
      have htail := ih hdays.2 rfl hlast hb
      have hle := (htail last).1 (List.mem_of_getLast? hlast)
      rw [List.mem_cons, htail]
      obtain ⟨hstep, -⟩ := hdays
      rw [dayStart_eq_iff] at hfirst hb ⊢
      unfold DAY_MS SHANGHAI_OFFSET_MS at *
      omega

/-! ## Drawdown -/

theorem maxOf_eq (a b : ℚ) : maxOf a b = max a b := by
  unfold maxOf
  split
  · next h => exact (max_eq_right h.le).symm
  · next h => exact (max_eq_left (not_lt.1 h)).symm

theorem drawdownFrom_eq {values : List ℚ} (hpos : ∀ v ∈ values, 0 < v) (peak worst : ℚ) :
    drawdownFrom peak worst true values =
      some (values.foldl RunningPeak.step (peak, worst)).2 := by
  induction values generalizing peak worst with
  | nil => rfl
  | cons value rest ih =>
    have hpeak : 0 < max peak value :=
      (hpos value List.mem_cons_self).trans_le (le_max_right peak value)
    have hrest := ih fun v hv => hpos v (List.mem_cons_of_mem _ hv)
    unfold drawdownFrom
    simp only [Exact.isFinite_eq, Bool.not_true, Bool.false_eq_true, if_false, maxOf_eq]
    rw [if_pos hpeak, hrest]
    rfl

theorem maximumDrawdown_eq {values : List ℚ} (hne : values ≠ []) (hpos : ∀ v ∈ values, 0 < v) :
    maximumDrawdown values = some (RunningPeak.fold values).2 := by
  cases values with
  | nil => exact absurd rfl hne
  | cons value rest =>
    have hpeak : 0 < max 0 value :=
      (hpos value List.mem_cons_self).trans_le (le_max_right 0 value)
    have hrest := drawdownFrom_eq fun v hv => hpos v (List.mem_cons_of_mem _ hv)
    unfold maximumDrawdown drawdownFrom
    simp only [Exact.isFinite_eq, Bool.not_true, Bool.false_eq_true, if_false, maxOf_eq]
    rw [if_pos hpeak, hrest]
    rfl

/-- A sample from the last one at or before `end - 15 days` to `end`. -/
structure InWindow (equities : List (Int × ℚ)) (endMs : Int) (e : Int × ℚ) : Prop where
  mem : e ∈ equities
  before : e.1 ≤ endMs
  after : ∀ e' ∈ equities, e'.1 ≤ endMs - 15 * DAY_MS → e'.1 ≤ e.1

/-- The drawdown in percent of the 15 days before a time. -/
structure DrawdownAt (equities : List (Int × ℚ)) (endMs : Int) (percent : Option ℚ) : Prop where
  present : percent.isSome = true ↔ ∃ e ∈ equities, e.1 ≤ endMs - 15 * DAY_MS
  greatest : ∀ v, percent = some v → IsGreatest
    {x | ∃ a b, InWindow equities endMs a ∧ InWindow equities endMs b ∧ a.1 ≤ b.1 ∧
      x = 100 * ((a.2 - b.2) / a.2)} v

theorem takeWhile_eq_filter_of_sorted {l : List (Int × ℚ)} (h : l.Pairwise fun a b => a.1 < b.1)
    (bound : Int) : (l.takeWhile fun e => decide (e.1 ≤ bound)) =
      l.filter fun e => decide (e.1 ≤ bound) := by
  induction l with
  | nil => rfl
  | cons a l ih =>
    rw [List.pairwise_cons] at h
    by_cases ha : a.1 ≤ bound
    · rw [List.takeWhile_cons_of_pos (by simpa using ha), List.filter_cons_of_pos (by simpa using ha),
        ih h.2]
    · rw [List.takeWhile_cons_of_neg (by simpa using ha), List.filter_cons_of_neg (by simpa using ha),
        eq_comm, List.filter_eq_nil_iff]
      intro e he
      have := h.1 e he
      simp only [decide_eq_true_eq]
      omega

/-- The pairs of a series in time order. -/
theorem isFall_map_snd {l : List (Int × ℚ)} (h : l.Pairwise fun a b => a.1 < b.1) {x : ℚ} :
    RunningPeak.IsFall (l.map Prod.snd) x ↔
      ∃ a ∈ l, ∃ b ∈ l, a.1 ≤ b.1 ∧ x = (a.2 - b.2) / a.2 := by
  constructor
  · rintro ⟨i, j, a, b, hij, ha, hb, rfl⟩
    rw [List.getElem?_map, Option.map_eq_some_iff] at ha hb
    obtain ⟨a, ha, rfl⟩ := ha
    obtain ⟨b, hb, rfl⟩ := hb
    refine ⟨a, List.mem_of_getElem? ha, b, List.mem_of_getElem? hb, ?_, rfl⟩
    obtain ⟨hi, rfl⟩ := List.getElem?_eq_some_iff.1 ha
    obtain ⟨hj, rfl⟩ := List.getElem?_eq_some_iff.1 hb
    rcases Nat.lt_or_eq_of_le hij with hlt | rfl
    · exact (List.pairwise_iff_getElem.1 h i j hi hj hlt).le
    · exact le_rfl
  · rintro ⟨a, ha, b, hb, hab, rfl⟩
    obtain ⟨i, hi, rfl⟩ := List.mem_iff_getElem.1 ha
    obtain ⟨j, hj, rfl⟩ := List.mem_iff_getElem.1 hb
    refine ⟨i, j, _, _, not_lt.1 fun hlt => ?_, ?_, ?_, rfl⟩
    · exact absurd (List.pairwise_iff_getElem.1 h j i hj hi hlt) (not_lt.2 hab)
    · rw [List.getElem?_map, List.getElem?_eq_getElem hi]
      rfl
    · rw [List.getElem?_map, List.getElem?_eq_getElem hj]
      rfl

/-- The window of the loop, from the last sample at or before its start. -/
theorem mem_window {equities : List (Int × ℚ)} (hsorted : equities.Pairwise fun a b => a.1 < b.1)
    {endMs : Int} {first : Nat} (hfirst : first < equities.length)
    (hstart : equities[first].1 ≤ endMs - 15 * DAY_MS)
    (habove : ∀ i (h : i < equities.length), first + 1 ≤ i →
      ¬ equities[i].1 ≤ endMs - 15 * DAY_MS) (e : Int × ℚ) :
    e ∈ ((equities.drop first).takeWhile fun e => decide (e.1 ≤ endMs)) ↔
      InWindow equities endMs e := by
  rw [takeWhile_eq_filter_of_sorted (hsorted.sublist (List.drop_sublist _ _)), List.mem_filter,
    decide_eq_true_eq]
  constructor
  · rintro ⟨he, hend⟩
    obtain ⟨i, hi, rfl⟩ := List.mem_drop_iff_getElem.1 he
    refine ⟨List.getElem_mem _, hend, fun e' he' hstart' => ?_⟩
    obtain ⟨j, hj, rfl⟩ := List.mem_iff_getElem.1 he'
    have hjle : j < first + 1 := by
      by_contra hge
      exact habove j hj (by omega) hstart'
    rcases Nat.lt_or_ge j (first + i) with hlt | hge
    · exact (List.pairwise_iff_getElem.1 hsorted _ _ _ _ hlt).le
    · have heq : j = first + i := by omega
      subst heq
      exact le_rfl
  · rintro ⟨he, hend, hafter⟩
    obtain ⟨j, hj, rfl⟩ := List.mem_iff_getElem.1 he
    have hjge : first ≤ j := by
      by_contra hlt
      have hbefore := List.pairwise_iff_getElem.1 hsorted j first hj hfirst (by omega)
      have hlast := hafter _ (List.getElem_mem hfirst) hstart
      omega
    refine ⟨List.mem_drop_iff_getElem.2 ⟨j - first, by omega, ?_⟩, hend⟩
    congr 1
    omega

/-- The loop over the window finds the greatest fall of its pairs. -/
theorem greatest_of_window {equities window : List (Int × ℚ)}
    (hsorted : window.Pairwise fun a b => a.1 < b.1) (hpos : ∀ e ∈ equities, 0 < e.2)
    {endMs : Int} (hmem : ∀ e, e ∈ window ↔ InWindow equities endMs e) (hne : window ≠ []) :
    ∃ v, maximumDrawdown (window.map Prod.snd) = some v ∧ IsGreatest
      {x | ∃ a b, InWindow equities endMs a ∧ InWindow equities endMs b ∧ a.1 ≤ b.1 ∧
        x = 100 * ((a.2 - b.2) / a.2)} (v * (100 : Nat)) := by
  have hvalues : ∀ v ∈ window.map Prod.snd, 0 < v := by
    intro v hv
    obtain ⟨e, he, rfl⟩ := List.mem_map.1 hv
    exact hpos e ((hmem e).1 he).mem
  have hvalues_ne : window.map Prod.snd ≠ [] := fun h => hne (List.map_eq_nil_iff.1 h)
  obtain ⟨hfall, hgreatest⟩ := RunningPeak.fold_isGreatest hvalues_ne hvalues
  refine ⟨_, maximumDrawdown_eq hvalues_ne hvalues, ?_, ?_⟩
  · obtain ⟨a, ha, b, hb, hab, heq⟩ := (isFall_map_snd hsorted).1 hfall
    refine ⟨a, b, (hmem a).1 ha, (hmem b).1 hb, hab, ?_⟩
    rw [heq, mul_comm]
    norm_cast
  · rintro x ⟨a, b, ha, hb, hab, rfl⟩
    have hx := hgreatest ((isFall_map_snd hsorted).2
      ⟨a, (hmem a).2 ha, b, (hmem b).2 hb, hab, rfl⟩)
    rw [mul_comm]
    exact mul_le_mul_of_nonneg_right hx (by norm_num)

theorem drawdownAt {equities : List (Int × ℚ)} (hsorted : equities.Pairwise fun a b => a.1 < b.1)
    (hpos : ∀ e ∈ equities, 0 < e.2) (endMs : Int) :
    DrawdownAt equities endMs (drawdown equities endMs) := by
  have hparted : PartitionPoint.Partitioned (fun e => decide (e.1 ≤ endMs - 15 * DAY_MS))
      equities := by
    refine hsorted.imp fun {a b} hab hb => ?_
    simp only [decide_eq_true_eq] at hb ⊢
    omega
  obtain ⟨hle, hbelow, habove⟩ := PartitionPoint.partitionPoint_spec _ equities hparted
  unfold drawdown
  dsimp only
  cases hpoint : PartitionPoint.partitionPoint
      (fun e : Int × ℚ => decide (e.1 ≤ endMs - 15 * DAY_MS)) equities with
  | zero =>
    rw [hpoint] at habove
    refine ⟨⟨fun h => absurd h Bool.false_ne_true, ?_⟩, fun v hv => by cases hv⟩
    rintro ⟨e, he, hstart⟩
    obtain ⟨i, hi, rfl⟩ := List.mem_iff_getElem.1 he
    exact absurd (decide_eq_true hstart) (habove i hi (Nat.zero_le i))
  | succ first =>
    rw [hpoint] at hle hbelow habove
    have hfirst : first < equities.length := by omega
    have hstart : equities[first].1 ≤ endMs - 15 * DAY_MS := by
      simpa using hbelow first hfirst (Nat.lt_succ_self first)
    have hmem := mem_window hsorted hfirst hstart fun i hi hge h => habove i hi hge (decide_eq_true h)
    have hend : equities[first].1 ≤ endMs := hstart.trans (by unfold DAY_MS; omega)
    have hne : ((equities.drop first).takeWhile fun e => decide (e.1 ≤ endMs)) ≠ [] := by
      rw [List.drop_eq_getElem_cons hfirst, List.takeWhile_cons_of_pos (by simpa using hend)]
      exact List.cons_ne_nil _ _
    have hwindow : ((equities.drop first).takeWhile fun e => decide (e.1 ≤ endMs)).Pairwise
        fun a b => a.1 < b.1 :=
      hsorted.sublist ((List.takeWhile_sublist _).trans (List.drop_sublist _ _))
    obtain ⟨v, hv, hgreatest⟩ := greatest_of_window hwindow hpos hmem hne
    dsimp only
    rw [hv, Option.map_some]
    refine ⟨⟨fun _ => ⟨_, List.getElem_mem hfirst, hstart⟩, fun _ => rfl⟩, ?_⟩
    rintro w hw
    cases hw
    exact hgreatest

/-! ## Rows -/

section

variable {sourceId : String} {anchor : EquityAnchor ℚ} {equities : List (Int × ℚ)}
  {previous : Option (Int × ℚ)} {samples : List ((Int × ℚ) × ℚ)}

theorem map_boundary_equityRows :
    (equityRows sourceId anchor equities previous samples).map DailyEquity.boundaryTsMs =
      (samples.map fun e => e.1.1).filter fun ts => dayStart ts == ts := by
  induction samples generalizing previous with
  | nil => rfl
  | cons e samples ih =>
    obtain ⟨⟨ts, value⟩, equity⟩ := e
    unfold equityRows
    by_cases hday : dayStart ts = ts
    · rw [if_neg (by simp [hday]), List.map_cons, List.map_cons,
        List.filter_cons_of_pos (by simp [hday]), ih]
    · rw [if_pos (by simpa using hday), List.map_cons, List.filter_cons_of_neg (by simpa using hday),
        ih]

/-- A row is its sample. -/
theorem of_mem_equityRows {row : DailyEquity ℚ}
    (h : row ∈ equityRows sourceId anchor equities previous samples) :
    ((row.boundaryTsMs, row.navChangeQuote), row.equity) ∈ samples ∧
      row.drawdown15dPercent = drawdown equities row.boundaryTsMs ∧ row.anchor = anchor := by
  induction samples generalizing previous with
  | nil => cases h
  | cons e samples ih =>
    obtain ⟨⟨ts, value⟩, equity⟩ := e
    unfold equityRows at h
    split at h
    · obtain ⟨hmem, hrest⟩ := ih h
      exact ⟨List.mem_cons_of_mem _ hmem, hrest⟩
    · rcases List.mem_cons.1 h with rfl | h
      · exact ⟨List.mem_cons_self, rfl, rfl⟩
      · obtain ⟨hmem, hrest⟩ := ih h
        exact ⟨List.mem_cons_of_mem _ hmem, hrest⟩

theorem previous_of_head {row : DailyEquity ℚ}
    (h : (equityRows sourceId anchor equities previous samples).head? = some row) :
    row.previousEquity =
      (previous.filter fun p => p.1 + DAY_MS == row.boundaryTsMs).map Prod.snd := by
  induction samples with
  | nil => cases h
  | cons e samples ih =>
    obtain ⟨⟨ts, value⟩, equity⟩ := e
    unfold equityRows at h
    split at h
    · exact ih h
    · cases h
      rfl

/-- A row takes the equity of the day before from the row before. -/
theorem isChain_equityRows :
    (equityRows sourceId anchor equities previous samples).IsChain fun row row' =>
      row.boundaryTsMs + DAY_MS = row'.boundaryTsMs → row'.previousEquity = some row.equity := by
  induction samples generalizing previous with
  | nil => exact List.isChain_nil
  | cons e samples ih =>
    obtain ⟨⟨ts, value⟩, equity⟩ := e
    unfold equityRows
    split
    · exact ih
    · refine List.isChain_cons.2 ⟨fun row' hrow' hday => ?_, ih⟩
      rw [previous_of_head hrow', Option.filter_some, if_pos (beq_iff_eq.2 hday)]
      rfl

/-- The rows agree with the samples: `current` is the NAV at the anchor. -/
structure Consistent (anchor : EquityAnchor ℚ) (nav : List (Int × ℚ)) (current : ℚ)
    (rows : List (DailyEquity ℚ)) : Prop where
  sorted : (rows.map DailyEquity.boundaryTsMs).Pairwise (· < ·)
  sampled : ∀ row ∈ rows, (row.boundaryTsMs, row.navChangeQuote) ∈ nav
  differences : ∀ row ∈ rows, ∀ row' ∈ rows,
    row.equity - row'.equity = row.navChangeQuote - row'.navChangeQuote
  reaches : ∀ row ∈ rows, row.equity + (current - row.navChangeQuote) = anchor.equity
  previous : ∀ i row row', rows[i]? = some row → rows[i + 1]? = some row' →
    row'.previousEquity = some row.equity
  drawdowns : (∀ e ∈ equitiesOf anchor.equity current nav, 0 < e.2) → ∀ row ∈ rows,
    DrawdownAt (equitiesOf anchor.equity current nav) row.boundaryTsMs row.drawdown15dPercent ∧
    DrawdownAt (equitiesOf anchor.equity current nav) anchor.tsMs row.anchor.drawdown15dPercent

/-- The rows are the Shanghai midnights from the start of the coverage to the anchor's day. -/
def Complete (anchor : EquityAnchor ℚ) (rows : List (DailyEquity ℚ)) : Prop :=
  ∀ t, t ∈ rows.map DailyEquity.boundaryTsMs ↔
    dayStart t = t ∧ anchor.coverageStartMs ≤ t ∧ t ≤ anchor.dayMs

/-- What the checks of a successful reconstruction say. -/
theorem reconstruct_ok {nav : List (Int × ℚ)} {rows : List (DailyEquity ℚ)}
    (h : reconstruct sourceId anchor nav = .ok rows) :
    ∃ first current, nav.head? = some (anchor.coverageStartMs, first) ∧
      nav.getLast? = some (anchor.tsMs, current) ∧ dayStart anchor.tsMs = anchor.dayMs ∧
      (nav.IsChain fun e e' => e.1 < e'.1) ∧
      rows = equityRows sourceId
        { anchor with
          navChangeQuote := current
          drawdown15dPercent := drawdown (equitiesOf anchor.equity current nav) anchor.tsMs }
        (equitiesOf anchor.equity current nav) none
        (nav.zip ((equitiesOf anchor.equity current nav).map Prod.snd)) ∧
      (rows.getLast?.any fun row => row.boundaryTsMs == anchor.dayMs) = true ∧
      rows.IsChain fun row row' => row.boundaryTsMs + DAY_MS = row'.boundaryTsMs := by
  obtain ⟨_, -, h⟩ := bind_eq_ok.1 h
  obtain ⟨_, -, h⟩ := bind_eq_ok.1 h
  obtain ⟨_, hday, h⟩ := bind_eq_ok.1 h
  obtain ⟨_, -, h⟩ := bind_eq_ok.1 h
  obtain ⟨_, -, h⟩ := bind_eq_ok.1 h
  rw [ensure_eq_ok, beq_iff_eq] at hday
  cases hhead : nav.head? with
  | none =>
    rw [hhead] at h
    cases h
  | some e =>
    cases hlast : nav.getLast? with
    | none =>
      rw [hhead, hlast] at h
      cases h
    | some e' =>
      obtain ⟨coverage, first⟩ := e
      obtain ⟨last, current⟩ := e'
      rw [hhead, hlast] at h
      obtain ⟨_, -, h⟩ := bind_eq_ok.1 h
      obtain ⟨_, hchain, h⟩ := bind_eq_ok.1 h
      obtain ⟨_, hts, h⟩ := bind_eq_ok.1 h
      obtain ⟨_, hcoverage, h⟩ := bind_eq_ok.1 h
      obtain ⟨_, -, h⟩ := bind_eq_ok.1 h
      obtain ⟨_, hbaseline, h⟩ := bind_eq_ok.1 h
      obtain ⟨_, hdays, h⟩ := bind_eq_ok.1 h
      rw [pure_eq_ok, Except.ok.injEq] at h
      rw [ensure_eq_ok] at hchain hts hcoverage hbaseline hdays
      rw [beq_iff_eq] at hts hcoverage
      rw [h] at hbaseline hdays
      exact ⟨first, current, by rw [hcoverage], by rw [hts], hday, by simpa using hchain, h.symm,
        hbaseline, by simpa using hdays⟩

theorem zip_equitiesOf (equity current : ℚ) (nav : List (Int × ℚ)) :
    nav.zip ((equitiesOf equity current nav).map Prod.snd) =
      nav.map fun e => (e, equity - (current - e.2)) := by
  unfold equitiesOf
  induction nav with
  | nil => rfl
  | cons e nav ih =>
    rw [List.map_cons, List.map_cons, List.zip_cons_cons, ih]
    rfl

/-- The rows are the sampled midnights. -/
theorem boundaries_of_ok {nav : List (Int × ℚ)} {rows : List (DailyEquity ℚ)} {current : ℚ}
    (h : rows = equityRows sourceId anchor equities previous
      (nav.zip ((equitiesOf anchor.equity current nav).map Prod.snd))) :
    rows.map DailyEquity.boundaryTsMs =
      (nav.map Prod.fst).filter fun ts => dayStart ts == ts := by
  rw [h, map_boundary_equityRows, zip_equitiesOf, List.map_map]
  rfl

/-- A first midnight that is sampled is the first row. -/
theorem head_of_midnights {times : List Int} (hsorted : times.Pairwise (· < ·)) {start : Int}
    (hstart : ∀ t ∈ times, start ≤ t) (hmem : nextMidnight start ∈ times) :
    (times.filter fun ts => dayStart ts == ts).head? = some (nextMidnight start) := by
  obtain ⟨hnext, -, hleast⟩ := nextMidnight_spec start
  have hin : nextMidnight start ∈ times.filter fun ts => dayStart ts == ts :=
    List.mem_filter.2 ⟨hmem, beq_iff_eq.2 hnext⟩
  have hsub := hsorted.filter fun ts => dayStart ts == ts
  cases hfilter : times.filter fun ts => dayStart ts == ts with
  | nil =>
    rw [hfilter] at hin
    cases hin
  | cons first rest =>
    have hfirst : first ∈ times.filter fun ts => dayStart ts == ts := by
      rw [hfilter]
      exact List.mem_cons_self
    rw [List.mem_filter, beq_iff_eq] at hfirst
    have hle := hleast first hfirst.2 (hstart first hfirst.1)
    rw [hfilter] at hin hsub
    rw [List.head?_cons, Option.some.injEq]
    rcases List.mem_cons.1 hin with heq | hin
    · exact heq.symm
    · have hlt := (List.pairwise_cons.1 hsub).1 _ hin
      omega

theorem dayMs_mem_of_ok {rows : List (DailyEquity ℚ)} {day : Int}
    (h : (rows.getLast?.any fun row => row.boundaryTsMs == day) = true) :
    (rows.map DailyEquity.boundaryTsMs).getLast? = some day := by
  obtain ⟨row, hrow, hday⟩ := (Option.any_eq_true _ _).1 h
  rw [List.getLast?_map, hrow, Option.map_some, beq_iff_eq.1 hday]

/-- What is reconstructed agrees with the samples. -/
theorem consistent_of_ok {nav : List (Int × ℚ)} {rows : List (DailyEquity ℚ)}
    (h : reconstruct sourceId anchor nav = .ok rows) {current : ℚ}
    (hcurrent : nav.getLast? = some (anchor.tsMs, current)) : Consistent anchor nav current rows := by
  obtain ⟨first, current', -, hlast, -, hchain, hrows, -, hdays⟩ := reconstruct_ok h
  obtain rfl : current' = current := by
    rw [hcurrent] at hlast
    exact (Prod.mk.inj (Option.some.inj hlast)).2.symm
  have htimes : (nav.map Prod.fst).Pairwise (· < ·) := by
    rw [List.pairwise_map]
    exact List.isChain_iff_pairwise.1 hchain
  -- each row is a sample with its equity
  have hsample : ∀ row ∈ rows, (row.boundaryTsMs, row.navChangeQuote) ∈ nav ∧
      row.equity = anchor.equity - (current' - row.navChangeQuote) := by
    intro row hrow
    rw [hrows] at hrow
    obtain ⟨hmem, -⟩ := of_mem_equityRows hrow
    rw [zip_equitiesOf] at hmem
    obtain ⟨e, he, heq⟩ := List.mem_map.1 hmem
    obtain ⟨rfl, hequity⟩ := Prod.mk.inj heq
    exact ⟨he, hequity.symm⟩
  exact {
    sorted := by
      rw [boundaries_of_ok hrows]
      exact htimes.filter _
    sampled := fun row hrow => (hsample row hrow).1
    differences := fun row hrow row' hrow' => by
      rw [(hsample row hrow).2, (hsample row' hrow').2]
      ring
    reaches := fun row hrow => by
      rw [(hsample row hrow).2]
      ring
    previous := fun i row row' hi hi' => by
      obtain ⟨hlt, rfl⟩ := List.getElem?_eq_some_iff.1 hi
      obtain ⟨hlt', rfl⟩ := List.getElem?_eq_some_iff.1 hi'
      have hprevious : rows.IsChain fun row row' =>
          row.boundaryTsMs + DAY_MS = row'.boundaryTsMs → row'.previousEquity = some row.equity := by
        rw [hrows]
        exact isChain_equityRows
      exact List.isChain_iff_getElem.1 hprevious i hlt' (List.isChain_iff_getElem.1 hdays i hlt')
    drawdowns := fun hpos row hrow => by
      have hequities : (equitiesOf anchor.equity current' nav).Pairwise fun a b => a.1 < b.1 := by
        unfold equitiesOf
        rw [List.pairwise_map]
        exact List.isChain_iff_pairwise.1 hchain
      rw [hrows] at hrow
      obtain ⟨-, hdrawdown, hanchor⟩ := of_mem_equityRows hrow
      rw [hdrawdown, hanchor]
      exact ⟨drawdownAt hequities hpos _, drawdownAt hequities hpos _⟩ }

/-- No midnight is missed exactly when the first one of the coverage is sampled. -/
theorem complete_iff {nav : List (Int × ℚ)} {rows : List (DailyEquity ℚ)}
    (h : reconstruct sourceId anchor nav = .ok rows) :
    Complete anchor rows ↔ nextMidnight anchor.coverageStartMs ∈ nav.map Prod.fst := by
  obtain ⟨first, current, hhead, -, -, hchain, hrows, hbaseline, hdays⟩ := reconstruct_ok h
  have htimes : (nav.map Prod.fst).Pairwise (· < ·) := by
    rw [List.pairwise_map]
    exact List.isChain_iff_pairwise.1 hchain
  have hboundaries := boundaries_of_ok hrows
  have hstart : ∀ t ∈ nav.map Prod.fst, anchor.coverageStartMs ≤ t := by
    cases nav with
    | nil => cases hhead
    | cons e nav =>
      cases hhead
      intro t ht
      rcases List.mem_cons.1 ht with rfl | ht
      · exact le_rfl
      · exact ((List.pairwise_cons.1 htimes).1 t ht).le
  have hend := dayMs_mem_of_ok hbaseline
  have hdayMem := List.mem_of_getLast? hend
  obtain ⟨hnext, hge, hleast⟩ := nextMidnight_spec anchor.coverageStartMs
  constructor
  · intro hcomplete
    rw [hboundaries, List.mem_filter, beq_iff_eq] at hdayMem
    have hrow := (hcomplete _).2 ⟨hnext, hge, hleast _ hdayMem.2 (hstart _ hdayMem.1)⟩
    rw [hboundaries] at hrow
    exact (List.mem_filter.1 hrow).1
  · intro hsampled t
    have hmidnight := head_of_midnights htimes hstart hsampled
    rw [← hboundaries] at hmidnight
    rw [mem_of_days ((List.isChain_map _).2 hdays) hmidnight hend hnext t]
    exact ⟨fun ⟨hm, hle, htop⟩ => ⟨hm, hge.trans hle, htop⟩,
      fun ⟨hm, hle, htop⟩ => ⟨hm, hleast t hm hle, htop⟩⟩

def sampleEquityAnchor : EquityAnchor ℚ where
  dayMs := nextMidnight (2 * DAY_MS)
  tsMs := nextMidnight (2 * DAY_MS)
  equity := 100
  navChangeQuote := 0
  coverageStartMs := 2 * DAY_MS - 9 * 3600000
  navGeneratedAtUs := 0
  fundingMode := "actual"
  strategyAllocation := false
  valuation := "quantity_fifo_closed_1m_window_delta"
  computedAtMs := 4 * DAY_MS
  drawdown15dPercent := none

end

end CtaManager.Overview
