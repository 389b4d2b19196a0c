import CtaManager.Library.OrdMapSum
import CtaManager.Library.SortedPrefix
import CtaManager.Theoretical.Marks

/-!
The run over the ticks of the theoretical curve.

At each tick the positions are what the slices up to then make of the opening ones
(`curve_spec`).  A slice moves the net quantity of its market, takes its price out of the book
(what is realized less what the lots have cost) and adds its fee; so a run of slices adds them
up (`applySlices_exact`), and a point is the book and the inventory at its marks
(`pointAt_exact`).
-/

namespace CtaManager.Theoretical

open Check Candles StableSort

/-! ## The books of the positions -/

def netOf (positions : Positions ℚ) (key : MarketKey) : ℚ :=
  positions[key]?.elim 0 fun position => heldQuantity position.2

/-- What is realized, less what the open lots have cost. -/
def bookOf (positions : Positions ℚ) : ℚ :=
  OrdMap.sumOf (fun _ position => position.1.realizedPnlBeforeFeeQuote - heldCost position.2) positions

def feeOf (positions : Positions ℚ) : ℚ :=
  OrdMap.sumOf (fun _ position => position.1.estimatedTradingFeeQuote) positions

/-- The amounts that one slice compares with `ZERO_EPSILON`. -/
def sliceAmounts (schedules : Schedules ℚ) (positions : Positions ℚ) (slice : Slice ℚ) : List ℚ :=
  match schedules.price slice with
  | none => []
  | some price =>
    let position := positions[slice.delta.market]?.getD (.fresh, [])
    fillAmounts position.1 position.2 (schedules.quantity slice) price slice.delta.feeRate

/-- The amounts of slices, one after the other. -/
def slicesAmounts (schedules : Schedules ℚ) : Positions ℚ → List (Slice ℚ) → List ℚ
  | _, [] => []
  | positions, slice :: more =>
    sliceAmounts schedules positions slice ++
      match applySlice schedules positions slice with
      | .ok next => slicesAmounts schedules next more
      | .error _ => []

theorem slicesAmounts_append (schedules : Schedules ℚ) (positions : Positions ℚ)
    (l₁ l₂ : List (Slice ℚ)) :
    ∀ amount ∈ slicesAmounts schedules positions l₁,
      amount ∈ slicesAmounts schedules positions (l₁ ++ l₂) := by
  induction l₁ generalizing positions with
  | nil => exact fun _ hamount => absurd hamount List.not_mem_nil
  | cons slice l₁ ih =>
    intro amount hamount
    rw [List.cons_append]
    unfold slicesAmounts at hamount ⊢
    rcases List.mem_append.1 hamount with hhead | htail
    · exact List.mem_append_left _ hhead
    · refine List.mem_append_right _ ?_
      cases hnext : applySlice schedules positions slice with
      | error e =>
        rw [hnext] at htail
        exact absurd htail List.not_mem_nil
      | ok next =>
        rw [hnext] at htail
        exact ih next amount htail

/-- A slice without a price ends the run. -/
theorem applySlice_price {schedules : Schedules ℚ} {positions next : Positions ℚ} {slice : Slice ℚ}
    (h : applySlice schedules positions slice = .ok next) :
    ∃ price, schedules.price slice = some price := by
  unfold applySlice at h
  cases hprice : schedules.price slice with
  | none =>
    rw [hprice] at h
    cases h
  | some price => exact ⟨price, rfl⟩

/-- What one slice does to the books. -/
theorem applySlice_exact {schedules : Schedules ℚ} {positions next : Positions ℚ} {slice : Slice ℚ}
    (h : applySlice schedules positions slice = .ok next)
    (hkept : ∀ amount ∈ sliceAmounts schedules positions slice, Kept amount) :
    (∀ key, netOf next key =
        netOf positions key + if slice.market = key then schedules.quantity slice else 0) ∧
      bookOf next =
        bookOf positions - schedules.quantity slice * (schedules.price slice).getD 0 ∧
      feeOf next = feeOf positions +
        |schedules.quantity slice| * (schedules.price slice).getD 0 * slice.delta.feeRate := by
  obtain ⟨price, hprice⟩ := applySlice_price h
  unfold sliceAmounts at hkept
  unfold applySlice at h
  rw [hprice] at h hkept
  rw [hprice, Option.getD_some]
  dsimp only at h hkept
  obtain ⟨applied, hfill, h⟩ := bind_eq_ok.1 h
  rw [pure_eq_ok, Except.ok.injEq] at h
  subst h
  obtain ⟨hquantity, hbook, hfee⟩ := evaluateFill_exact hfill hkept
  -- a market that has not traded holds nothing
  have hheld : heldQuantity (positions[slice.delta.market]?.getD (.fresh, [])).2 =
      netOf positions slice.market := by
    unfold netOf Slice.market
    cases positions[slice.delta.market]? with
    | none => rfl
    | some position => rfl
  refine ⟨fun key => ?_, ?_, ?_⟩
  · unfold netOf
    rw [OrdMap.getElem?_insert_of_key]
    by_cases hkey : slice.delta.market = key
    · have hkey' : slice.market = key := hkey
      rw [if_pos hkey, if_pos hkey', Option.elim_some, hquantity, hheld, hkey']
      rfl
    · have hkey' : ¬ slice.market = key := hkey
      rw [if_neg hkey, if_neg hkey', add_zero]
  · unfold bookOf
    rw [OrdMap.sumOf_insert_getD _ _ _ _ (.fresh, []) (by simp [SymbolState.fresh])]
    linear_combination hbook
  · unfold feeOf
    rw [OrdMap.sumOf_insert_getD _ _ _ _ (.fresh, []) (by simp [SymbolState.fresh])]
    linear_combination hfee

/-- What a run of slices does to the books. -/
theorem applySlices_exact {schedules : Schedules ℚ} {slices : List (Slice ℚ)}
    {positions next : Positions ℚ} (h : slices.foldlM (applySlice schedules) positions = .ok next)
    (hkept : ∀ amount ∈ slicesAmounts schedules positions slices, Kept amount) :
    (∀ key, netOf next key = netOf positions key +
        (slices.map fun slice => if slice.market = key then schedules.quantity slice else 0).sum) ∧
      bookOf next = bookOf positions -
        (slices.map fun slice => schedules.quantity slice * (schedules.price slice).getD 0).sum ∧
      feeOf next = feeOf positions + (slices.map fun slice =>
        |schedules.quantity slice| * (schedules.price slice).getD 0 * slice.delta.feeRate).sum := by
  induction slices generalizing positions with
  | nil =>
    cases h
    simp
  | cons slice slices ih =>
    rw [foldlM_cons] at h
    obtain ⟨middle, hmiddle, h⟩ := bind_eq_ok.1 h
    unfold slicesAmounts at hkept
    rw [hmiddle, List.forall_mem_append] at hkept
    obtain ⟨hnet, hbook, hfee⟩ := applySlice_exact hmiddle hkept.1
    obtain ⟨hnet', hbook', hfee'⟩ := ih h hkept.2
    refine ⟨fun key => ?_, ?_, ?_⟩
    · rw [hnet' key, hnet key, List.map_cons, List.sum_cons, add_assoc]
    · rw [hbook', hbook, List.map_cons, List.sum_cons]
      ring
    · rw [hfee', hfee, List.map_cons, List.sum_cons, add_assoc]

/-! ## One point -/

section

variable [Text.Unicode]

/-- The floating PnL of one position at its mark, before it is cleaned. -/
def floatingOf (markets : Markets ℚ) (ts : Int) (entry : MarketKey × SymbolState ℚ × List (FifoLot ℚ)) :
    ℚ := heldQuantity entry.2.2 * markAt markets ts entry.1 - heldCost entry.2.2

theorem floatingAt_exact {markets : Markets ℚ} {ts : Int}
    {entry : MarketKey × SymbolState ℚ × List (FifoLot ℚ)} {floating : ℚ} {missing : Nat}
    (h : floatingAt markets ts entry.1 entry.2.2 = .ok (floating, missing)) (hnone : missing = 0)
    (hkept : Kept (floatingOf markets ts entry)) :
    floating = floatingOf markets ts entry ∧
      (entry.2.2 = [] ∨ ∃ price, markOf markets entry.1 ts = .ok (some price)) := by
  unfold floatingAt at h
  unfold floatingOf at hkept ⊢
  by_cases hempty : entry.2.2 = []
  · rw [hempty] at h ⊢
    cases h
    exact ⟨by simp, Or.inl rfl⟩
  · rw [if_neg (by simpa using hempty)] at h
    obtain ⟨mark, hmark, h⟩ := bind_eq_ok.1 h
    cases mark with
    | none =>
      cases h
      cases hnone
    | some price =>
      obtain ⟨value, hvalue, h⟩ := bind_eq_ok.1 h
      cases h
      rw [markAt_eq hmark] at hkept ⊢
      refine ⟨floatingPnlAtMark_exact ?_ hkept, Or.inr ⟨price, hmark⟩⟩
      cases hpnl : floatingPnlAtMark entry.2.2 price with
      | error e =>
        rw [hpnl] at hvalue
        cases hvalue
      | ok pnl =>
        rw [hpnl] at hvalue
        cases hvalue
        rfl

/-- The loop over the positions. -/
theorem pointAt_loop {markets : Markets ℚ} {ts : Int}
    {entries : List (MarketKey × SymbolState ℚ × List (FifoLot ℚ))} {sums result : ℚ × ℚ × Nat}
    (h : entries.foldlM (fun (sums : ℚ × ℚ × Nat) entry => do
      let (floating, missing) ← floatingAt markets ts entry.1 entry.2.2
      return (sums.1 + (entry.2.1.realizedPnlBeforeFeeQuote + floating),
        sums.2.1 + entry.2.1.estimatedTradingFeeQuote, sums.2.2 + missing)) sums = .ok result)
    (hkept : ∀ entry ∈ entries, Kept (floatingOf markets ts entry)) :
    sums.2.2 ≤ result.2.2 ∧ (result.2.2 = sums.2.2 →
      (∀ entry ∈ entries, entry.2.2 = [] ∨ ∃ price, markOf markets entry.1 ts = .ok (some price)) ∧
      result.1 = sums.1 + (entries.map fun entry =>
        entry.2.1.realizedPnlBeforeFeeQuote + floatingOf markets ts entry).sum ∧
      result.2.1 = sums.2.1 + (entries.map fun entry =>
        entry.2.1.estimatedTradingFeeQuote).sum) := by
  induction entries generalizing sums with
  | nil =>
    cases h
    exact ⟨le_rfl, fun _ => ⟨fun _ hentry => absurd hentry List.not_mem_nil, by simp, by simp⟩⟩
  | cons entry entries ih =>
    rw [foldlM_cons] at h
    obtain ⟨middle, hmiddle, h⟩ := bind_eq_ok.1 h
    obtain ⟨⟨floating, missing⟩, hfloating, hmiddle⟩ := bind_eq_ok.1 hmiddle
    cases hmiddle
    obtain ⟨hle, hall⟩ := ih h fun entry hentry => hkept entry (List.mem_cons_of_mem _ hentry)
    dsimp only at hle hall
    refine ⟨by omega, fun heq => ?_⟩
    obtain ⟨hmarks, hbefore, hfee⟩ := hall (by omega)
    obtain ⟨hexact, hmark⟩ := floatingAt_exact hfloating (by omega) (hkept entry List.mem_cons_self)
    refine ⟨List.forall_mem_cons.2 ⟨hmark, hmarks⟩, ?_, ?_⟩
    · rw [hbefore, hexact, List.map_cons, List.sum_cons, add_assoc]
    · rw [hfee, List.map_cons, List.sum_cons, add_assoc]

/-- A point without a missing mark: the inventory at its marks, and the books. -/
theorem pointAt_exact {markets : Markets ℚ} {ts : Int} {positions : Positions ℚ}
    {point : TheoreticalNavPoint ℚ} (h : pointAt markets ts positions = .ok (point, 0))
    (hkept : ∀ entry ∈ positions.toList, Kept (floatingOf markets ts entry)) :
    point.tsUs = ts ∧ point.estimatedTradingFeeQuote = feeOf positions ∧
      point.navChangeBeforeFeeQuote = OrdMap.sumOf (fun key position =>
        heldQuantity position.2 * markAt markets ts key) positions + bookOf positions ∧
      point.navChangeAfterFeeQuote =
        point.navChangeBeforeFeeQuote - point.estimatedTradingFeeQuote ∧
      ∀ key, netOf positions key ≠ 0 → ∃ price, markOf markets key ts = .ok (some price) := by
  unfold pointAt at h
  obtain ⟨⟨before, fee, missing⟩, hloop, h⟩ := bind_eq_ok.1 h
  cases h
  obtain ⟨-, hall⟩ := pointAt_loop hloop hkept
  obtain ⟨hmarks, hbefore, hfee⟩ := hall rfl
  dsimp only at hbefore hfee ⊢
  rw [zero_add] at hbefore hfee
  refine ⟨rfl, hfee, ?_, rfl, fun key hnet => ?_⟩
  · unfold bookOf
    rw [hbefore, ← OrdMap.sumOf_add]
    unfold OrdMap.sumOf floatingOf
    refine congrArg List.sum (List.map_congr_left fun entry _ => ?_)
    ring
  · unfold netOf at hnet
    cases hposition : positions[key]? with
    | none =>
      rw [hposition] at hnet
      exact absurd rfl hnet
    | some position =>
      rcases hmarks (key, position) (OrdMap.mem_toList.2 hposition) with hempty | hmark
      · rw [hposition, Option.elim_some] at hnet
        dsimp only at hempty
        rw [hempty] at hnet
        exact absurd rfl hnet
      · exact hmark

/-! ## The ticks -/

omit [Text.Unicode] in
theorem applyDue_spec {schedules : Schedules ℚ} {ts : Int} {pending rest : List (Slice ℚ)}
    {positions next : Positions ℚ} {legacy legacy' : OrdSet Nat} (hsorted : Sorted Slice.tsUs pending)
    (h : applyDue schedules ts pending positions legacy = .ok (rest, next, legacy')) :
    rest = pending.filter (fun slice => decide (ts < slice.tsUs)) ∧
      (pending.filter fun slice => decide (slice.tsUs ≤ ts)).foldlM (applySlice schedules) positions =
        .ok next := by
  induction pending generalizing positions legacy with
  | nil =>
    cases h
    exact ⟨rfl, rfl⟩
  | cons slice pending ih =>
    obtain ⟨hhead, htail⟩ := List.pairwise_cons.1 hsorted
    unfold applyDue at h
    by_cases hdue : slice.tsUs ≤ ts
    · rw [if_pos hdue] at h
      obtain ⟨middle, hmiddle, h⟩ := bind_eq_ok.1 h
      obtain ⟨hrest, hnext⟩ := ih htail h
      rw [List.filter_cons_of_neg (by simpa using hdue), List.filter_cons_of_pos (by simpa using hdue),
        foldlM_cons, hmiddle, ok_bind]
      exact ⟨hrest, hnext⟩
    · rw [if_neg hdue] at h
      cases h
      have hlater : ∀ other ∈ slice :: pending, ts < other.tsUs := by
        intro other hother
        rcases List.mem_cons.1 hother with rfl | hother
        · exact not_le.1 hdue
        · exact (not_le.1 hdue).trans_le (hhead other hother)
      constructor
      · rw [eq_comm, List.filter_eq_self]
        intro other hother
        simpa using hlater other hother
      · have hnone : (slice :: pending).filter (fun slice => decide (slice.tsUs ≤ ts)) = [] := by
          rw [List.filter_eq_nil_iff]
          intro other hother
          simpa using hlater other hother
        rw [hnone]
        rfl

/-- The point of a tick, and the positions it is drawn from. -/
def DrawnAt (schedules : Schedules ℚ) (markets : Markets ℚ) (start stop : Int)
    (opening : Positions ℚ) (slices : List (Slice ℚ)) (ts : Int) (point : TheoreticalNavPoint ℚ) :
    Prop :=
  ∃ positions drawn,
    (slices.filter fun slice => decide (slice.tsUs ≤ ts)).foldlM (applySlice schedules) opening =
      .ok positions ∧
    pointAt markets ts positions = .ok (drawn, 0) ∧
    point = if ts = start ∧ start < stop then zeroPoint ts else drawn

omit [Text.Unicode] in
theorem pushOrReplacePoint_later {points : List (TheoreticalNavPoint ℚ)}
    {point : TheoreticalNavPoint ℚ} (h : ∀ other ∈ points, other.tsUs < point.tsUs) :
    pushOrReplacePoint points point = points ++ [point] := by
  unfold pushOrReplacePoint
  split
  · next last hlast =>
    rw [if_neg (ne_of_lt (h last (List.mem_of_getLast? hlast)))]
  · rfl

theorem pointAt_tsUs {markets : Markets ℚ} {ts : Int} {positions : Positions ℚ}
    {point : TheoreticalNavPoint ℚ} {missing : Nat}
    (h : pointAt markets ts positions = .ok (point, missing)) : point.tsUs = ts := by
  unfold pointAt at h
  obtain ⟨⟨before, fee, missing'⟩, -, h⟩ := bind_eq_ok.1 h
  cases h
  rfl

/-- The run over the ticks after `last`: one point for each, unless a mark is missing. -/
theorem curve_spec {schedules : Schedules ℚ} {markets : Markets ℚ} {start stop : Int}
    {opening : Positions ℚ} {slices : List (Slice ℚ)} (hsorted : Sorted Slice.tsUs slices)
    {ticks : List Int} (hticks : ticks.Pairwise (· < ·)) {last : Int} (hlast : ∀ ts ∈ ticks, last < ts)
    {state final : CurveState ℚ}
    (hpending : state.pending = slices.filter fun slice => decide (last < slice.tsUs))
    (hpositions : (slices.filter fun slice => decide (slice.tsUs ≤ last)).foldlM
      (applySlice schedules) opening = .ok state.positions)
    (hpoints : ∀ point ∈ state.points, point.tsUs ≤ last)
    (h : ticks.foldlM (curveStep schedules markets start stop) state = .ok final) :
    state.missing ≤ final.missing ∧ (final.missing = state.missing →
      ∃ added, final.points = state.points ++ added ∧
        List.Forall₂ (DrawnAt schedules markets start stop opening slices) ticks added) := by
  induction ticks generalizing last state with
  | nil =>
    cases h
    exact ⟨le_rfl, fun _ => ⟨[], (List.append_nil _).symm, List.Forall₂.nil⟩⟩
  | cons ts ticks ih =>
    rw [foldlM_cons] at h
    obtain ⟨next, hnext, h⟩ := bind_eq_ok.1 h
    obtain ⟨hhead, htail⟩ := List.pairwise_cons.1 hticks
    have hts : last < ts := hlast ts List.mem_cons_self
    unfold curveStep at hnext
    obtain ⟨⟨pending, positions, legacy⟩, hdue, hnext⟩ := bind_eq_ok.1 hnext
    obtain ⟨⟨drawn, missing⟩, hdrawn, hnext⟩ := bind_eq_ok.1 hnext
    dsimp only at hnext
    rw [pure_eq_ok, Except.ok.injEq] at hnext
    subst hnext
    rw [hpending] at hdue
    obtain ⟨hrest, happlied⟩ := applyDue_spec (hsorted.filter _) hdue
    -- the slices up to this tick are those up to the last one and those due since
    have hpositions' : (slices.filter fun slice => decide (slice.tsUs ≤ ts)).foldlM
        (applySlice schedules) opening = .ok positions := by
      rw [filter_le_append hsorted hts.le, foldlM_append, hpositions, ok_bind]
      exact happlied
    have hpending' : pending = slices.filter fun slice => decide (ts < slice.tsUs) := by
      rw [hrest, List.filter_filter]
      refine List.filter_congr fun slice _ => ?_
      rw [Bool.and_eq_left_iff_imp, decide_eq_true_eq, decide_eq_true_eq]
      exact fun hlt => hts.trans hlt
    have hdrawnTs := pointAt_tsUs hdrawn
    generalize hpoint : (if ts = start ∧ start < stop then zeroPoint ts else drawn) = point at h
    have hpointTs : point.tsUs = ts := by
      rw [← hpoint]
      split
      · rfl
      · exact hdrawnTs
    have hpush : pushOrReplacePoint state.points point = state.points ++ [point] :=
      pushOrReplacePoint_later fun other hother => by
        rw [hpointTs]
        exact (hpoints other hother).trans_lt hts
    rw [hpush] at h
    have hpoints' : ∀ other ∈ state.points ++ [point], other.tsUs ≤ ts := by
      intro other hother
      rcases List.mem_append.1 hother with hother | hother
      · exact (hpoints other hother).trans hts.le
      · rw [List.mem_singleton] at hother
        rw [hother, hpointTs]
    obtain ⟨hle, hall⟩ := ih htail hhead hpending' hpositions' hpoints' h
    dsimp only at hle hall
    refine ⟨by omega, fun heq => ?_⟩
    obtain ⟨added, hadded, hforall⟩ := hall (by omega)
    have hmissing : missing = 0 := by omega
    rw [hmissing] at hdrawn
    refine ⟨point :: added, ?_, List.Forall₂.cons ⟨positions, drawn, hpositions', hdrawn, hpoint.symm⟩
      hforall⟩
    rw [hadded, List.append_assoc, List.singleton_append]

end

end CtaManager.Theoretical
