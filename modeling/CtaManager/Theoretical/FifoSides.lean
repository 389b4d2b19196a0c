import CtaManager.Theoretical.FifoAgreement
import CtaManager.Theoretical.FifoExact

/-!
What a fill leaves of lots of one side.

`Side direction lots` says that every lot is on one side and above `ZERO_EPSILON`.  A fill of
the other side closes lots from the front (`Closed`), and at most one of two amounts within
`ZERO_EPSILON` is dropped on the way: the rest of the fill, or the rest of the last lot it met.
-/

namespace CtaManager.Theoretical

open Check

/-- Every lot is above `ZERO_EPSILON`, on the side of `direction`. -/
def Side (direction : ℚ) (lots : List (FifoLot ℚ)) : Prop :=
  ∀ lot ∈ lots, F64.eps12 < direction * lot.quantity

theorem eps12_pos : (0 : ℚ) < F64.eps12 := by
  show (0 : ℚ) < 1 / 1000000000000
  norm_num

/-! ## Amounts -/

theorem cleanZero_small {value : ℚ} (h : |value| ≤ F64.eps12) : cleanZero value = 0 := by
  unfold cleanZero
  rw [Exact.abs_eq, if_pos h]

theorem cleanZero_large {value : ℚ} (h : F64.eps12 < |value|) : cleanZero value = value := by
  unfold cleanZero
  rw [Exact.abs_eq, if_neg (not_le.2 h)]

@[simp] theorem cleanZero_zero : cleanZero (0 : ℚ) = 0 :=
  cleanZero_small (by rw [abs_zero]; exact eps12_pos.le)

namespace IsSign

variable {direction value : ℚ}

theorem mul_self (h : IsSign direction) : direction * direction = 1 := by
  rcases h with rfl | rfl <;> norm_num

/-- A sign turns an amount towards its side and back. -/
theorem mul_mul (h : IsSign direction) (value : ℚ) : direction * (direction * value) = value := by
  rw [← mul_assoc, h.mul_self, one_mul]

theorem abs_eq (h : IsSign direction) (value : ℚ) : |value| = |direction * value| := by
  rcases h with rfl | rfl
  · rw [one_mul]
  · rw [neg_one_mul, abs_neg]

theorem signum_of_pos (h : IsSign direction) (hv : 0 < direction * value) :
    signum value = direction := by
  rw [← h.mul_mul value]
  exact h.signum_mul hv

theorem signum_of_neg (h : IsSign direction) (hv : direction * value < 0) :
    signum value = -direction := by
  refine h.neg.signum_of_pos ?_
  rw [neg_mul]
  exact neg_pos.2 hv

/-- An amount above `ZERO_EPSILON` is on one of the two sides. -/
theorem exists_of_large (h : F64.eps12 < |value|) :
    ∃ direction, IsSign direction ∧ F64.eps12 < direction * value := by
  rcases abs_cases value with ⟨habs, -⟩ | ⟨habs, -⟩
  · refine ⟨1, .inl rfl, ?_⟩
    rw [one_mul, ← habs]
    exact h
  · refine ⟨-1, .inr rfl, ?_⟩
    rw [neg_one_mul, ← habs]
    exact h

theorem cleanZero_of_small (h : IsSign direction) (hlow : -F64.eps12 ≤ direction * value)
    (hhigh : direction * value ≤ F64.eps12) : cleanZero value = 0 := by
  refine cleanZero_small ?_
  rw [h.abs_eq]
  exact abs_le.2 ⟨hlow, hhigh⟩

theorem cleanZero_of_large (h : IsSign direction) (hlarge : F64.eps12 < direction * value) :
    cleanZero value = value := by
  refine cleanZero_large ?_
  rw [h.abs_eq]
  exact hlarge.trans_le (le_abs_self _)

end IsSign

/-! ## Lots of one side -/

namespace Side

variable {direction : ℚ} {lot : FifoLot ℚ} {lots l₁ l₂ : List (FifoLot ℚ)}

theorem nil : Side direction [] := fun _ h => absurd h List.not_mem_nil

theorem cons_iff : Side direction (lot :: lots) ↔
    F64.eps12 < direction * lot.quantity ∧ Side direction lots := List.forall_mem_cons

theorem append_iff : Side direction (l₁ ++ l₂) ↔ Side direction l₁ ∧ Side direction l₂ :=
  List.forall_mem_append

theorem held_nonneg (h : Side direction lots) : 0 ≤ direction * heldQuantity lots := by
  induction lots with
  | nil => rw [heldQuantity_nil, mul_zero]
  | cons lot lots ih =>
    obtain ⟨hlot, hlots⟩ := cons_iff.1 h
    rw [heldQuantity_cons, mul_add]
    linarith [eps12_pos, ih hlots]

theorem held_large (h : Side direction lots) (hne : lots ≠ []) :
    F64.eps12 < direction * heldQuantity lots := by
  cases lots with
  | nil => exact absurd rfl hne
  | cons lot lots =>
    obtain ⟨hlot, hlots⟩ := cons_iff.1 h
    rw [heldQuantity_cons, mul_add]
    linarith [hlots.held_nonneg]

/-- Two lots of one side hold more than twice `ZERO_EPSILON`. -/
theorem eq_singleton (h : Side direction lots) (hne : lots ≠ [])
    (hheld : direction * heldQuantity lots ≤ 2 * F64.eps12) : ∃ lot, lots = [lot] := by
  match lots, hne with
  | [lot], _ => exact ⟨lot, rfl⟩
  | first :: second :: more, _ =>
    obtain ⟨hfirst, hrest⟩ := cons_iff.1 h
    have hlarge := hrest.held_large (List.cons_ne_nil second more)
    rw [heldQuantity_cons, mul_add] at hheld
    linarith

theorem cleanZero_held (hd : IsSign direction) (h : Side direction lots) :
    cleanZero (heldQuantity lots) = heldQuantity lots := by
  rcases eq_or_ne lots [] with rfl | hne
  · exact cleanZero_zero
  · exact hd.cleanZero_of_large (h.held_large hne)

end Side

/-! ## One round -/

theorem matchLots_done (fillPrice : ℚ) (rounds : Nat) (lots : List (FifoLot ℚ)) {remaining : ℚ}
    (realized : ℚ) (h : |remaining| ≤ F64.eps12) :
    matchLots fillPrice rounds lots remaining realized = (lots, remaining, realized) := by
  cases rounds with
  | zero => rfl
  | succ rounds =>
    cases lots with
    | nil => rfl
    | cons front rest =>
      unfold matchLots
      rw [Exact.abs_eq, if_neg (not_lt.2 h)]

theorem matchLots_own_side (fillPrice : ℚ) (rounds : Nat) {direction : ℚ} (hd : IsSign direction)
    {lots : List (FifoLot ℚ)} (hlots : Side direction lots) {remaining : ℚ} (realized : ℚ)
    (h : F64.eps12 < direction * remaining) :
    matchLots fillPrice (rounds + 1) lots remaining realized = (lots, remaining, realized) := by
  cases lots with
  | nil => rfl
  | cons front rest =>
    have hfront := (Side.cons_iff.1 hlots).1
    have hsigns : (signum front.quantity == signum remaining) = true := by
      rw [hd.signum_of_pos (eps12_pos.trans hfront), hd.signum_of_pos (eps12_pos.trans h),
        beq_self_eq_true]
    unfold matchLots
    simp only [hsigns, if_true, ite_self]

/-- One round against a lot of the other side: the smaller of the two is used up. -/
theorem matchLots_round (fillPrice : ℚ) (rounds : Nat) {direction : ℚ} (hd : IsSign direction)
    {front : FifoLot ℚ} (rest : List (FifoLot ℚ)) {remaining : ℚ} (realized : ℚ)
    (hfront : F64.eps12 < direction * front.quantity)
    (hfill : direction * remaining < -F64.eps12) :
    ∃ realized', matchLots fillPrice (rounds + 1) (front :: rest) remaining realized =
      if direction * (front.quantity + remaining) ≤ 0 then
        matchLots fillPrice rounds rest (cleanZero (front.quantity + remaining)) realized'
      else if |front.quantity + remaining| ≤ F64.eps12 then (rest, 0, realized')
      else ({ front with quantity := front.quantity + remaining } :: rest, 0, realized') := by
  have hzero : |(0 : ℚ)| ≤ F64.eps12 := by
    rw [abs_zero]
    exact eps12_pos.le
  have hpos : 0 < direction * front.quantity := eps12_pos.trans hfront
  have hneg : direction * remaining < 0 := by linarith [eps12_pos]
  have hmore : F64.eps12 < F64.abs remaining := by
    rw [Exact.abs_eq, hd.abs_eq, abs_of_neg hneg]
    linarith
  have hsigns : ¬ (signum front.quantity == signum remaining) = true := by
    rw [hd.signum_of_pos hpos, hd.signum_of_neg hneg, beq_iff_eq]
    exact hd.ne_neg
  have hlot : F64.abs front.quantity = direction * front.quantity := by
    rw [Exact.abs_eq, hd.abs_eq, abs_of_pos hpos]
  have hrest : F64.abs remaining = -(direction * remaining) := by
    rw [Exact.abs_eq, hd.abs_eq, abs_of_neg hneg]
  rw [matchLots]
  simp only [if_pos hmore, if_neg hsigns]
  rw [hd.signum_of_neg hneg, hlot, hrest]
  generalize (if 0 < front.quantity then
      min (direction * front.quantity) (-(direction * remaining)) * (fillPrice - front.entryPrice)
    else min (direction * front.quantity) (-(direction * remaining)) *
      (front.entryPrice - fillPrice)) = gain
  refine ⟨realized + gain, ?_⟩
  by_cases hused : direction * (front.quantity + remaining) ≤ 0
  · -- the lot is used up
    have hmin : min (direction * front.quantity) (-(direction * remaining)) =
        direction * front.quantity := min_eq_left (by linarith [mul_add direction front.quantity remaining])
    rw [hmin, neg_mul, hd.mul_mul, sub_neg_eq_add, add_neg_cancel, cleanZero_zero,
      beq_self_eq_true, if_pos rfl, if_pos hused, add_comm remaining]
  · -- the fill is used up
    have hmin : min (direction * front.quantity) (-(direction * remaining)) =
        -(direction * remaining) := min_eq_right (by linarith [mul_add direction front.quantity remaining])
    rw [hmin, mul_neg, neg_mul, neg_neg, hd.mul_mul, sub_self, cleanZero_zero, if_neg hused]
    by_cases hdust : |front.quantity + remaining| ≤ F64.eps12
    · rw [cleanZero_small hdust, beq_self_eq_true, if_pos rfl, if_pos hdust,
        matchLots_done _ _ _ _ hzero]
    · have hkept : ¬ (front.quantity + remaining == 0) = true := by
        rw [beq_iff_eq]
        intro heq
        rw [heq] at hdust
        exact hdust hzero
      rw [cleanZero_large (not_le.1 hdust), if_neg hkept, if_neg hdust,
        matchLots_done _ _ _ _ hzero]

/-! ## A closing fill -/

/-- What a fill against lots of the side of `direction` leaves: the lots, and the rest of the
fill. -/
inductive Closed (direction : ℚ) (lots : List (FifoLot ℚ)) (fill : ℚ) :
    List (FifoLot ℚ) → ℚ → Prop
  /-- more than `ZERO_EPSILON` of the fill outlasts the lots -/
  | outlasted (left : direction * (heldQuantity lots + fill) < -F64.eps12) :
    Closed direction lots fill [] (heldQuantity lots + fill)
  /-- the rest of the fill is dropped -/
  | fillDust (closed rest : List (FifoLot ℚ)) (split : lots = closed ++ rest)
    (low : -F64.eps12 ≤ direction * (heldQuantity closed + fill))
    (high : direction * (heldQuantity closed + fill) ≤ 0) :
    Closed direction lots fill rest 0
  /-- the rest of a lot is dropped -/
  | lotDust (closed : List (FifoLot ℚ)) (front : FifoLot ℚ) (rest : List (FifoLot ℚ))
    (split : lots = closed ++ front :: rest)
    (met : direction * (heldQuantity closed + fill) < -F64.eps12)
    (low : 0 < direction * (heldQuantity closed + front.quantity + fill))
    (high : direction * (heldQuantity closed + front.quantity + fill) ≤ F64.eps12) :
    Closed direction lots fill rest 0
  /-- a lot is closed in part -/
  | opened (closed : List (FifoLot ℚ)) (front : FifoLot ℚ) (rest : List (FifoLot ℚ))
    (split : lots = closed ++ front :: rest)
    (left : F64.eps12 < direction * (heldQuantity closed + front.quantity + fill)) :
    Closed direction lots fill
      ({ front with quantity := heldQuantity closed + front.quantity + fill } :: rest) 0

/-- A lot that is used up goes in front of those closed after it. -/
theorem Closed.cons {direction : ℚ} {front : FifoLot ℚ} {lots lots' : List (FifoLot ℚ)}
    {fill rest : ℚ} (h : Closed direction lots (front.quantity + fill) lots' rest) :
    Closed direction (front :: lots) fill lots' rest := by
  have hheld (closed : List (FifoLot ℚ)) :
      heldQuantity closed + (front.quantity + fill) = heldQuantity (front :: closed) + fill := by
    rw [heldQuantity_cons]
    ring
  have hpart (closed : List (FifoLot ℚ)) (lot : FifoLot ℚ) :
      heldQuantity closed + lot.quantity + (front.quantity + fill) =
        heldQuantity (front :: closed) + lot.quantity + fill := by
    rw [heldQuantity_cons]
    ring
  cases h with
  | outlasted left =>
    rw [hheld] at left ⊢
    exact .outlasted left
  | fillDust closed rest split low high =>
    rw [hheld] at low high
    exact .fillDust (front :: closed) _ (by rw [split, List.cons_append]) low high
  | lotDust closed lot rest split met low high =>
    rw [hheld] at met
    rw [hpart] at low high
    exact .lotDust (front :: closed) lot _ (by rw [split, List.cons_append]) met low high
  | opened closed lot rest split left =>
    rw [hpart] at left ⊢
    exact .opened (front :: closed) lot rest (by rw [split, List.cons_append]) left

theorem matchLots_closed (fillPrice : ℚ) {direction : ℚ} (hd : IsSign direction)
    {lots : List (FifoLot ℚ)} (hlots : Side direction lots) {remaining : ℚ} (realized : ℚ)
    (hfill : direction * remaining < -F64.eps12) :
    Closed direction lots remaining
      (matchLots fillPrice (lots.length + 1) lots remaining realized).1
      (matchLots fillPrice (lots.length + 1) lots remaining realized).2.1 := by
  induction lots generalizing remaining realized with
  | nil =>
    show Closed direction [] remaining [] remaining
    have h : Closed direction [] remaining [] (heldQuantity [] + remaining) :=
      .outlasted (by rw [heldQuantity_nil, zero_add]; exact hfill)
    rwa [heldQuantity_nil, zero_add] at h
  | cons front rest ih =>
    obtain ⟨hfront, hrest⟩ := Side.cons_iff.1 hlots
    obtain ⟨realized', hround⟩ :=
      matchLots_round fillPrice (rest.length + 1) hd rest realized hfront hfill
    rw [List.length_cons, hround]
    have hone : heldQuantity [front] + remaining = front.quantity + remaining := by
      rw [heldQuantity_cons, heldQuantity_nil, add_zero]
    have hnone : heldQuantity [] + front.quantity + remaining = front.quantity + remaining := by
      rw [heldQuantity_nil, zero_add]
    by_cases hused : direction * (front.quantity + remaining) ≤ 0
    · rw [if_pos hused]
      by_cases hdust : -F64.eps12 ≤ direction * (front.quantity + remaining)
      · rw [hd.cleanZero_of_small hdust (hused.trans eps12_pos.le),
          matchLots_done _ _ _ _ (by rw [abs_zero]; exact eps12_pos.le)]
        exact .fillDust [front] rest rfl (by rwa [hone]) (by rwa [hone])
      · have hleft : direction * (front.quantity + remaining) < -F64.eps12 := not_le.1 hdust
        have hkept : cleanZero (front.quantity + remaining) = front.quantity + remaining := by
          refine cleanZero_large ?_
          rw [hd.abs_eq, abs_of_nonpos hused]
          linarith
        rw [hkept]
        exact (ih hrest realized' hleft).cons
    · rw [if_neg hused]
      have hpos : 0 < direction * (front.quantity + remaining) := not_le.1 hused
      by_cases hdust : |front.quantity + remaining| ≤ F64.eps12
      · rw [if_pos hdust]
        refine .lotDust [] front rest rfl ?_ ?_ ?_
        · rwa [heldQuantity_nil, zero_add]
        · rwa [hnone]
        · rw [hnone]
          rwa [hd.abs_eq, abs_of_pos hpos] at hdust
      · rw [if_neg hdust]
        have hlarge : F64.eps12 < direction * (heldQuantity [] + front.quantity + remaining) := by
          rw [hnone]
          rwa [not_le, hd.abs_eq, abs_of_pos hpos] at hdust
        have h : Closed direction (front :: rest) remaining _ 0 :=
          .opened [] front rest rfl hlarge
        rwa [hnone] at h

end CtaManager.Theoretical
