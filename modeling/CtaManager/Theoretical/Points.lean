import CtaManager.Nav.Downsample

/-!
The points of a theoretical NAV curve and their downsampling (`theoretical_nav.rs`).

`downsample_points` samples two series, four points a bucket, and needs `max_points` 6
for its one smallest bucket: its bound always holds.  `downsampling_honest` says what both
downsamplings keep.
-/

namespace CtaManager

open Sampling (Increasing Comparable FaithfulSample turningPoints interior sample)

namespace Theoretical

structure TheoreticalNavPoint (F : Type) where
  tsUs : Int
  navChangeBeforeFeeQuote : F
  navChangeAfterFeeQuote : F
  estimatedTradingFeeQuote : F
  deriving DecidableEq

variable {F : Type}

def pushOrReplacePoint (points : List (TheoreticalNavPoint F)) (point : TheoreticalNavPoint F) :
    List (TheoreticalNavPoint F) :=
  match points.getLast? with
  | some last => if last.tsUs = point.tsUs then points.dropLast ++ [point] else points ++ [point]
  | none => points ++ [point]

/-- The two series whose extremes are kept. -/
def selectors : List (TheoreticalNavPoint F → F) :=
  [fun point => point.navChangeBeforeFeeQuote, fun point => point.navChangeAfterFeeQuote]

variable [F64 F]

def downsamplePoints (points : List (TheoreticalNavPoint F)) (maxPoints : Nat) :
    List (TheoreticalNavPoint F) :=
  if points.length ≤ maxPoints ∨ maxPoints < 6 then points
  else sample TheoreticalNavPoint.tsUs selectors (max ((maxPoints - 2) / 4) 1) points

theorem length_downsamplePoints_le {points : List (TheoreticalNavPoint F)} {maxPoints : Nat}
    (hsix : 6 ≤ maxPoints) (hmore : maxPoints < points.length) :
    (downsamplePoints points maxPoints).length ≤ maxPoints := by
  have hcount : max ((maxPoints - 2) / 4) 1 = (maxPoints - 2) / 4 := by omega
  have hle : (sample TheoreticalNavPoint.tsUs selectors ((maxPoints - 2) / 4) points).length ≤ _ :=
    Sampling.length_sample_le (by omega) (by omega)
  have hselectors : (selectors : List (TheoreticalNavPoint F → F)).length = 2 := rfl
  unfold downsamplePoints
  rw [if_neg (by omega), hcount]
  rw [hselectors] at hle
  omega

theorem downsamplePoints_faithful {points : List (TheoreticalNavPoint F)} {maxPoints : Nat}
    (hpoints : Increasing TheoreticalNavPoint.tsUs points)
    (hvalue : ∀ value ∈ selectors, Comparable value points)
    (hsix : 6 ≤ maxPoints) (hmore : maxPoints < points.length) :
    FaithfulSample TheoreticalNavPoint.tsUs selectors points (downsamplePoints points maxPoints) := by
  unfold downsamplePoints
  rw [if_neg (by omega)]
  exact Sampling.sample_faithful hpoints (Nat.lt_of_lt_of_le Nat.one_pos (Nat.le_max_right _ _))
    (by omega) hvalue

end Theoretical

/-! ## Both downsamplings -/

section

open Theoretical

variable {F : Type} [F64 F]

/-- A sample is faithful and has at most `max_points` points. -/
def Honest {α : Type} (key : α → Int) (selectors : List (α → F)) (points sampled : List α)
    (maxPoints : Nat) : Prop :=
  FaithfulSample key selectors points sampled ∧ sampled.length ≤ maxPoints

/-- Of the values nothing is asked but that they can be compared. -/
theorem downsampling_honest :
    (∀ (points : List (NavTimelinePoint F)) (maxPoints : Nat),
      Increasing NavTimelinePoint.tsUs points →
      (∀ value ∈ valueSelectors, Comparable value points) →
      10 ≤ maxPoints → maxPoints < points.length →
      (Honest NavTimelinePoint.tsUs valueSelectors points
          (downsampleTimelinePoints points maxPoints) maxPoints ↔
        FitsMaxPoints points maxPoints)) ∧
    ∀ (points : List (TheoreticalNavPoint F)) (maxPoints : Nat),
      Increasing TheoreticalNavPoint.tsUs points →
      (∀ value ∈ selectors, Comparable value points) →
      6 ≤ maxPoints → maxPoints < points.length →
      Honest TheoreticalNavPoint.tsUs selectors points (downsamplePoints points maxPoints)
        maxPoints := by
  refine ⟨fun points maxPoints hpoints hvalue hten hmore => ?_,
    fun points maxPoints hpoints hvalue hsix hmore => ?_⟩
  · have hfaithful := downsampleTimelinePoints_faithful hpoints hvalue hten hmore
    rw [← length_downsampleTimelinePoints_le_iff hpoints hvalue hten hmore]
    exact ⟨fun h => h.2, fun h => ⟨hfaithful, h⟩⟩
  · exact ⟨downsamplePoints_faithful hpoints hvalue hsix hmore,
      length_downsamplePoints_le hsix hmore⟩

end

/-! ## A curve with many turning points -/

section

open Theoretical

/-- A point of the gross and net position value and of the fee, the realized and the
floating PnL so far. -/
def curvePoint (tsUs : Int) (gross net fee realized floating : ℚ) : NavTimelinePoint ℚ where
  tsUs := tsUs
  grossPositionValueQuote := gross
  netPositionValueQuote := net
  totals :=
    { fillCount := 0, volumeQuote := 0, makerFillCount := 0, makerVolumeQuote := 0,
      takerFillCount := 0, takerVolumeQuote := 0, unknownLiquidityFillCount := 0,
      unknownLiquidityVolumeQuote := 0, realizedPnlBeforeFeeQuote := realized,
      estimatedTradingFeeQuote := fee, realizedPnlAfterFeeQuote := realized - fee,
      floatingPnlQuote := floating, navChangeBeforeFeeQuote := realized + floating,
      navChangeAfterFeeQuote := realized + floating - fee }

/-- Each of the eleven points between the ends is the least or the greatest of some series. -/
def turningCurve : List (NavTimelinePoint ℚ) :=
  [curvePoint 0 20 0 0 0 0, curvePoint 1000000 20 0 0 (-10) 0, curvePoint 2000000 20 0 0 10 0,
    curvePoint 3000000 20 0 0 0 (-10), curvePoint 4000000 20 0 0 0 10,
    curvePoint 5000000 20 0 0 (-6) (-6), curvePoint 6000000 20 0 0 6 6,
    curvePoint 7000000 20 0 5 (-5) (-5), curvePoint 8000000 10 0 5 0 0,
    curvePoint 9000000 30 0 5 0 0, curvePoint 10000000 20 (-5) 5 0 0,
    curvePoint 11000000 20 5 5 0 0, curvePoint 12000000 20 0 5 0 0]

theorem turningCurve_increasing : Increasing NavTimelinePoint.tsUs turningCurve := by
  unfold Increasing turningCurve
  decide

/-- A sample of thirteen points where ten are allowed. -/
theorem downsampling_overlong :
    Increasing NavTimelinePoint.tsUs turningCurve ∧ 10 < turningCurve.length ∧
      (downsampleTimelinePoints turningCurve 10).length = 13 ∧
      ¬ Honest NavTimelinePoint.tsUs valueSelectors turningCurve
        (downsampleTimelinePoints turningCurve 10) 10 := by
  have hlength : (downsampleTimelinePoints turningCurve 10).length = 13 := by decide +kernel
  refine ⟨turningCurve_increasing, by decide, hlength, fun h => ?_⟩
  have hle := h.2
  rw [hlength] at hle
  exact absurd hle (by decide)

def theoreticalCurve : List (TheoreticalNavPoint ℚ) :=
  [⟨0, 0, 0, 0⟩, ⟨1000000, 3, 2, 1⟩, ⟨2000000, -4, -5, 1⟩, ⟨3000000, 6, 4, 2⟩,
    ⟨4000000, 1, -1, 2⟩, ⟨5000000, -2, -4, 2⟩, ⟨6000000, 0, -3, 3⟩]

def flatCurve : List (NavTimelinePoint ℚ) :=
  (List.range 12).map fun i => curvePoint (i * 1000000) 20 0 0 0 0

theorem downsampling_honest_curves :
    Honest NavTimelinePoint.tsUs valueSelectors flatCurve (downsampleTimelinePoints flatCurve 10)
        10 ∧
      Honest TheoreticalNavPoint.tsUs selectors theoreticalCurve
        (downsamplePoints theoreticalCurve 6) 6 := by
  constructor
  · apply (downsampling_honest.1 flatCurve 10 (by unfold Increasing flatCurve; decide)
      (fun value _ => Comparable.of_linearOrder value flatCurve) (by decide) (by decide)).2
    exact Or.inr (by decide +kernel)
  · exact downsampling_honest.2 theoreticalCurve 6 (by unfold Increasing; decide)
      (fun value _ => Comparable.of_linearOrder value theoreticalCurve) (by decide) (by decide)

end

end CtaManager
