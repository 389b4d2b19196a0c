import CtaManager.Library.Sampling
import CtaManager.Nav.Timeline

/-!
What the downsampling of a NAV timeline keeps.

`downsample_timeline_points` samples six series by their extremes, twelve points a bucket.
From `max_points` 14 on the buckets are few enough for the bound.  Below that there is one
bucket all the same, and what it keeps is as many points as the curve turns at between its
ends.
-/

namespace CtaManager

open Sampling (Increasing Comparable FaithfulSample turningPoints interior sample)

variable {F : Type} [F64 F]

/-! ## The code's sampling is the general one -/

theorem minBy_eq (value : NavTimelinePoint F → F) (points : List (NavTimelinePoint F)) :
    minBy value points = Sampling.minBy value points := by
  cases points with
  | nil => rfl
  | cons point rest => simp [minBy, Sampling.minBy, Sampling.pick]

theorem maxBy_eq (value : NavTimelinePoint F → F) (points : List (NavTimelinePoint F)) :
    maxBy value points = Sampling.maxBy value points := by
  cases points with
  | nil => rfl
  | cons point rest =>
    have hstep : (fun greatest point : NavTimelinePoint F =>
          if value point < value greatest then greatest else point) =
        fun greatest point =>
          if (!decide (value point < value greatest)) = true then point else greatest := by
      funext greatest point
      by_cases h : value point < value greatest
      · simp [h]
      · simp [h]
    show some (rest.foldl _ point) = some (rest.foldl _ point)
    rw [hstep]

omit [F64 F] in
theorem dedupByTs_eq (points : List (NavTimelinePoint F)) :
    dedupByTs points = Sampling.dedupBy NavTimelinePoint.tsUs points := by
  induction points with
  | nil => rfl
  | cons point rest ih =>
    unfold dedupByTs Sampling.dedupBy
    rw [ih]
    cases Sampling.dedupBy NavTimelinePoint.tsUs rest with
    | nil => rfl
    | cons next kept =>
      by_cases h : next.tsUs = point.tsUs
      · simp [h]
      · simp [h]

theorem bucketExtrema_eq (bucket : List (NavTimelinePoint F)) :
    bucketExtrema bucket =
      Sampling.bucketExtrema NavTimelinePoint.tsUs valueSelectors bucket := by
  unfold bucketExtrema Sampling.bucketExtrema Sampling.extremes
  rw [dedupByTs_eq]
  simp only [minBy_eq, maxBy_eq]

theorem downsampleTimelinePoints_eq_sample {points : List (NavTimelinePoint F)} {maxPoints : Nat}
    (hten : 10 ≤ maxPoints) (hmore : maxPoints < points.length) :
    downsampleTimelinePoints points maxPoints =
      sample NavTimelinePoint.tsUs valueSelectors (max ((maxPoints - 2) / 12) 1) points := by
  have hextrema : (bucketExtrema : List (NavTimelinePoint F) → List (NavTimelinePoint F)) =
      Sampling.bucketExtrema NavTimelinePoint.tsUs valueSelectors :=
    funext bucketExtrema_eq
  unfold downsampleTimelinePoints
  rw [if_neg (by omega), hextrema]
  rfl

/-! ## Size -/

/-- The condition under which a sampled timeline has at most `max_points` points. -/
def FitsMaxPoints (points : List (NavTimelinePoint F)) (maxPoints : Nat) : Prop :=
  14 ≤ maxPoints ∨
    (turningPoints NavTimelinePoint.tsUs valueSelectors (interior points)).length + 2 ≤ maxPoints

theorem length_downsampleTimelinePoints_le_iff {points : List (NavTimelinePoint F)}
    {maxPoints : Nat} (hpoints : Increasing NavTimelinePoint.tsUs points)
    (hvalue : ∀ value ∈ valueSelectors, Comparable value points)
    (hten : 10 ≤ maxPoints) (hmore : maxPoints < points.length) :
    (downsampleTimelinePoints points maxPoints).length ≤ maxPoints ↔
      FitsMaxPoints points maxPoints := by
  have hlong : 2 < points.length := by omega
  rw [downsampleTimelinePoints_eq_sample hten hmore]
  unfold FitsMaxPoints
  by_cases hfourteen : 14 ≤ maxPoints
  · have hcount : max ((maxPoints - 2) / 12) 1 = (maxPoints - 2) / 12 := by omega
    have hle : (Sampling.sample NavTimelinePoint.tsUs valueSelectors ((maxPoints - 2) / 12)
        points).length ≤ (maxPoints - 2) / 12 * (valueSelectors (F := F).length * 2) + 2 :=
      Sampling.length_sample_le (by omega) hlong
    have hselectors : (valueSelectors : List (NavTimelinePoint F → F)).length = 6 := rfl
    rw [hcount]
    rw [hselectors] at hle
    refine ⟨fun _ => Or.inl hfourteen, fun _ => by omega⟩
  · have hcount : max ((maxPoints - 2) / 12) 1 = 1 := by omega
    rw [hcount, Sampling.length_sample_one hpoints hlong hvalue]
    exact ⟨Or.inr, fun h => h.resolve_left hfourteen⟩

theorem downsampleTimelinePoints_faithful {points : List (NavTimelinePoint F)} {maxPoints : Nat}
    (hpoints : Increasing NavTimelinePoint.tsUs points)
    (hvalue : ∀ value ∈ valueSelectors, Comparable value points)
    (hten : 10 ≤ maxPoints) (hmore : maxPoints < points.length) :
    FaithfulSample NavTimelinePoint.tsUs valueSelectors points
      (downsampleTimelinePoints points maxPoints) := by
  rw [downsampleTimelinePoints_eq_sample hten hmore]
  exact Sampling.sample_faithful hpoints (Nat.lt_of_lt_of_le Nat.one_pos (Nat.le_max_right _ _))
    (by omega) hvalue

end CtaManager
