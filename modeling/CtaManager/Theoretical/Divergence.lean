import CtaManager.Theoretical.FifoSides
import CtaManager.Theoretical.Marks

/-!
When `evaluate_fill` reports that the FIFO diverged.

The lots of a symbol stay on one side and above `ZERO_EPSILON` over every run of fills, and the
net quantity is their sum: the error of a fill is not carried to the next (`Consistent`).  One
fill alone can still be off by the dust it drops, and where what should be left is dust as well,
the check compares a whole lot with zero (`Strands`).
-/

namespace CtaManager.Theoretical

open Check

/-! ## Runs -/

/-- A fill that is worth matching. -/
structure SymbolFill where
  quantity : ℚ
  price : ℚ
  feeRate : ℚ
  large : F64.eps12 < |quantity|
  price_pos : 0 < price

/-- A market: its sums and its lots. -/
abbrev Position := SymbolState ℚ × List (FifoLot ℚ)

/-- What `applySlice` keeps of an applied fill. -/
def AppliedFill.position (applied : AppliedFill ℚ) : Position :=
  ({ netQuantity := applied.netQuantity
     realizedPnlBeforeFeeQuote := applied.realizedPnlBeforeFeeQuote
     estimatedTradingFeeQuote := applied.cumulativeFeeQuote
     nextLotSeq := applied.nextLotSeq }, applied.lots)

def Position.fill (position : Position) (fill : SymbolFill) : Except RebuildError Position := do
  let applied ← evaluateFill position.1 position.2 fill.quantity fill.price fill.feeRate
  return applied.position

def Position.fillAll (position : Position) (fills : List SymbolFill) :
    Except RebuildError Position := fills.foldlM Position.fill position

/-- The carried inventory of a market, at the mark of the start. -/
structure CarriedLot where
  quantity : ℚ
  markPrice : ℚ
  large : F64.eps12 < |quantity|

/-- Where a market starts: without lots, or with the carried one. -/
def Position.opening : Option CarriedLot → Position
  | none => (.fresh, [])
  | some carried => openedPosition carried.quantity carried.markPrice

/-- What holds of a market between its fills. -/
structure Consistent (position : Position) : Prop where
  large : ∀ lot ∈ position.2, F64.eps12 < |lot.quantity|
  oneSign : (∀ lot ∈ position.2, 0 < lot.quantity) ∨ ∀ lot ∈ position.2, lot.quantity < 0
  net : position.1.netQuantity = cleanZero (heldQuantity position.2)

/-- A fill that closes every lot but the newest, up to a rest within `ZERO_EPSILON`, where the
newest lot less that rest is within `ZERO_EPSILON` and the lot is not, even to the scale of what
was held. -/
def Strands (lots : List (FifoLot ℚ)) (fill : ℚ) : Prop :=
  ∃ closed last, lots = closed ++ [last] ∧ |heldQuantity closed + fill| ≤ F64.eps12 ∧
    |heldQuantity closed + fill + last.quantity| ≤ F64.eps12 ∧
    F64.eps12 * max 1 |heldQuantity lots| < |last.quantity|

/-! ## The curve fills so -/

/-- A slice of the curve is a fill of its market. -/
theorem applySlice_eq {schedules : Schedules ℚ} {positions : Positions ℚ} {slice : Slice ℚ}
    {fill : SymbolFill} (hprice : schedules.price slice = some fill.price)
    (hquantity : schedules.quantity slice = fill.quantity) (hfee : slice.delta.feeRate = fill.feeRate) :
    applySlice schedules positions slice =
      Position.fill (positions[slice.delta.market]?.getD (Position.opening none)) fill >>=
        fun position => return positions.insert slice.delta.market position := by
  unfold applySlice Position.fill
  rw [hprice, hquantity, hfee]
  rw [bind_assoc]
  rfl

section

variable [Text.Unicode]

theorem opening_of_openPositions {markets : Markets ℚ} {start : Int}
    {entries : List (MarketKey × ℚ)} {positions positions' : Positions ℚ} {missing missing' : Nat}
    (hkept : ∀ entry ∈ entries, cleanZero entry.2 ≠ 0)
    (hopen : ∀ (key : MarketKey) position, positions[key]? = some position →
      ∃ carried, position = Position.opening (some carried))
    (h : openPositions markets start entries positions missing = .ok (positions', missing')) :
    ∀ (key : MarketKey) position, positions'[key]? = some position →
      ∃ carried, position = Position.opening (some carried) := by
  induction entries generalizing positions missing with
  | nil =>
    cases h
    exact hopen
  | cons entry more ih =>
    obtain ⟨hentry, hmore⟩ := List.forall_mem_cons.1 hkept
    unfold openPositions at h
    by_cases hpublic : isPublicVenue entry.1.venue = true
    · rw [if_pos hpublic] at h
      obtain ⟨mark, -, h⟩ := bind_eq_ok.1 h
      cases mark with
      | none => exact ih hmore hopen h
      | some price =>
        refine ih hmore (fun key position hposition => ?_) h
        rw [OrdMap.getElem?_insert_of_key] at hposition
        split at hposition
        · have hlarge : F64.eps12 < |entry.2| := by
            by_contra hsmall
            exact hentry (cleanZero_small (not_lt.1 hsmall))
          exact ⟨⟨entry.2, price, hlarge⟩, (Option.some.inj hposition).symm⟩
        · exact hopen key position hposition
    · rw [if_neg hpublic] at h
      exact ih hmore hopen h

/-- The curve of a window opens its markets with what `clean_zero` keeps of the inventory. -/
theorem opening_of_curveInputs {carry : Inventory ℚ} {slices : List (Slice ℚ)}
    {store : CandleReads ℚ} {start stop : Int} {output : TheoreticalNavTimeline ℚ}
    {inputs : CurveInputs ℚ}
    (h : curveInputs carry slices store start stop output = .ok (.inr inputs)) (key : MarketKey)
    (position : Position) (hposition : inputs.positions[key]? = some position) :
    ∃ carried, position = Position.opening (some carried) := by
  unfold curveInputs at h
  obtain ⟨priced, -, h⟩ := bind_eq_ok.1 h
  cases hcollect : collectSchedules priced output ∅ with
  | inl early =>
    rw [hcollect] at h
    cases h
  | inr collected =>
    rw [hcollect] at h
    obtain ⟨symbols, -, h⟩ := bind_eq_ok.1 h
    obtain ⟨markets, -, h⟩ := bind_eq_ok.1 h
    obtain ⟨⟨positions, missing⟩, hopened, h⟩ := bind_eq_ok.1 h
    cases h
    refine opening_of_openPositions (fun entry hentry => ?_) (fun other position hother => ?_)
      hopened key position hposition
    · have hretained := (OrdMap.getElem?_filter_eq_some.1 (OrdMap.mem_toList.1 hentry)).2
      rw [Bool.not_eq_true', beq_eq_false_iff_ne] at hretained
      exact hretained
    · rw [Std.ExtTreeMap.getElem?_empty] at hother
      cases hother

end

/-! ## Sides -/

theorem consistent_iff {position : Position} :
    Consistent position ↔ (∃ direction, IsSign direction ∧ Side direction position.2) ∧
      position.1.netQuantity = cleanZero (heldQuantity position.2) := by
  constructor
  · intro h
    refine ⟨?_, h.net⟩
    rcases h.oneSign with hpos | hneg
    · refine ⟨1, .inl rfl, fun lot hlot => ?_⟩
      rw [one_mul, ← abs_of_pos (hpos lot hlot)]
      exact h.large lot hlot
    · refine ⟨-1, .inr rfl, fun lot hlot => ?_⟩
      rw [neg_one_mul, ← abs_of_neg (hneg lot hlot)]
      exact h.large lot hlot
  · rintro ⟨⟨direction, hd, hside⟩, hnet⟩
    refine ⟨fun lot hlot => ?_, ?_, hnet⟩
    · rw [hd.abs_eq]
      exact (hside lot hlot).trans_le (le_abs_self _)
    · rcases hd with rfl | rfl
      · refine .inl fun lot hlot => ?_
        have h := hside lot hlot
        rw [one_mul] at h
        exact eps12_pos.trans h
      · refine .inr fun lot hlot => ?_
        have h := hside lot hlot
        rw [neg_one_mul] at h
        exact neg_pos.1 (eps12_pos.trans h)

theorem consistent_opening (carried : Option CarriedLot) :
    Consistent (Position.opening carried) := by
  cases carried with
  | none =>
    refine consistent_iff.2 ⟨⟨1, .inl rfl, Side.nil⟩, ?_⟩
    show (0 : ℚ) = cleanZero (heldQuantity [])
    rw [heldQuantity_nil, cleanZero_zero]
  | some carried =>
    obtain ⟨direction, hd, hlarge⟩ := IsSign.exists_of_large carried.large
    have hside : Side direction (Position.opening (some carried)).2 :=
      Side.cons_iff.2 ⟨hlarge, Side.nil⟩
    refine consistent_iff.2 ⟨⟨direction, hd, hside⟩, ?_⟩
    rw [hside.cleanZero_held hd]
    show carried.quantity = heldQuantity [_]
    rw [heldQuantity_cons, heldQuantity_nil, add_zero]

/-! ## The lots after a fill -/

/-- The lots that a fill leaves, and its rest as a new lot. -/
theorem applyFifoFill_of_match {lots lots' : List (FifoLot ℚ)} {fill : SymbolFill}
    {rest realized : ℚ} (nextLotSeq : Int)
    (hmatch : matchLots fill.price (lots.length + 1) lots fill.quantity 0 = (lots', rest, realized)) :
    applyFifoFill lots fill.quantity fill.price nextLotSeq =
      if F64.eps12 < |rest| then
        if nextLotSeq < maxLotSeq then
          .ok (lots' ++ [{ seq := nextLotSeq, quantity := rest, entryPrice := fill.price }],
            cleanZero realized, nextLotSeq + 1)
        else .error .lotSequenceOverflowed
      else .ok (lots', cleanZero realized, nextLotSeq) := by
  have hpositive : isPositive fill.price = true := (Exact.isPositive_iff fill.price).2 fill.price_pos
  unfold applyFifoFill
  simp only [hmatch, hpositive, Exact.isFinite_eq, Bool.and_self, ensure_true, ok_bind, Exact.abs_eq]
  by_cases hrest : F64.eps12 < |rest|
  · simp only [if_pos hrest]
    by_cases hseq : nextLotSeq < maxLotSeq
    · simp only [hseq, if_true, decide_true, ensure_true]
      rfl
    · simp only [hseq, if_false, decide_false]
      rfl
  · simp only [if_neg hrest]
    rfl

/-- The two quantities that `evaluate_fill` compares. -/
def quantitiesAgree (state : SymbolState ℚ) (lots' : List (FifoLot ℚ)) (fill : ℚ) : Bool :=
  quantitiesEqual (cleanZero (heldQuantity lots')) (cleanZero (state.netQuantity + fill))
    (max (max |state.netQuantity| |fill|) |cleanZero (heldQuantity lots')|)

/-- In exact arithmetic a fill fails with the FIFO, or at the comparison. -/
theorem fill_eq {position : Position} {fill : SymbolFill} {lots' : List (FifoLot ℚ)} {realized : ℚ}
    {next : Int} (h : applyFifoFill position.2 fill.quantity fill.price position.1.nextLotSeq =
      .ok (lots', realized, next)) :
    (quantitiesAgree position.1 lots' fill.quantity = true ∧
      ∃ position', position.fill fill = .ok position' ∧ position'.2 = lots' ∧
        position'.1.netQuantity = cleanZero (heldQuantity lots')) ∨
    (quantitiesAgree position.1 lots' fill.quantity = false ∧
      position.fill fill = .error .quantityDiverged) := by
  have hpositive : isPositive fill.price = true := (Exact.isPositive_iff fill.price).2 fill.price_pos
  unfold Position.fill evaluateFill floatingPnlAtMark
  simp only [h, Exact.isFinite_eq, ensure_true, ok_bind, Except.mapError, Exact.sum_eq, hpositive,
    List.all_cons, List.all_nil, Bool.and_self]
  cases hagree : quantitiesAgree position.1 lots' fill.quantity with
  | true =>
    left
    unfold quantitiesAgree heldQuantity at hagree
    simp only [Exact.abs_eq, hagree, ensure_true, ok_bind]
    exact ⟨trivial, _, rfl, rfl, rfl⟩
  | false =>
    right
    unfold quantitiesAgree heldQuantity at hagree
    simp only [Exact.abs_eq, hagree]
    exact ⟨trivial, rfl⟩

/-! ## The comparison -/

theorem quantitiesEqual_iff {left right scaleHint : ℚ} :
    quantitiesEqual left right scaleHint = true ↔
      |left - right| ≤ F64.eps12 * max (max (max |left| |right|) |scaleHint|) 1 :=
  decide_eq_true_iff

theorem quantitiesEqual_near {left right : ℚ} (scaleHint : ℚ) (h : |left - right| ≤ F64.eps12) :
    quantitiesEqual left right scaleHint = true := by
  refine quantitiesEqual_iff.2 (h.trans ?_)
  calc F64.eps12 = F64.eps12 * 1 := (mul_one _).symm
    _ ≤ F64.eps12 * max (max (max |left| |right|) |scaleHint|) 1 :=
      mul_le_mul_of_nonneg_left (le_max_right _ _) eps12_pos.le

variable {direction : ℚ} {state : SymbolState ℚ} {lots lots' : List (FifoLot ℚ)} {fill : ℚ}

/-- The comparison holds where what is left differs from the booked quantity by dust only, and
not even by that where nothing should be left. -/
theorem quantitiesAgree_of_near (dust : ℚ) (hd : IsSign direction) (hside : Side direction lots')
    (hnet : state.netQuantity = heldQuantity lots)
    (hheld : heldQuantity lots + fill = heldQuantity lots' + dust) (hdust : |dust| ≤ F64.eps12)
    (hleft : lots' = [] ∨ F64.eps12 < |heldQuantity lots + fill|) :
    quantitiesAgree state lots' fill = true := by
  unfold quantitiesAgree
  rw [hside.cleanZero_held hd, hnet]
  refine quantitiesEqual_near _ ?_
  rcases hleft with rfl | hlarge
  · rw [heldQuantity_nil, zero_add] at hheld
    rw [hheld, cleanZero_small hdust, heldQuantity_nil, sub_zero, abs_zero]
    exact eps12_pos.le
  · rw [cleanZero_large hlarge, hheld, sub_add_cancel_left, abs_neg]
    exact hdust

/-- Where the newest lot alone is left of a booked quantity within `ZERO_EPSILON`, the lot is
compared with zero, on the scale of what was held. -/
theorem quantitiesAgree_last (hd : IsSign direction) {closed : List (FifoLot ℚ)} {last : FifoLot ℚ}
    (hlots : lots = closed ++ [last]) (hside : Side direction lots)
    (hnet : state.netQuantity = heldQuantity lots) (hlow : |heldQuantity closed + fill| ≤ F64.eps12)
    (hsmall : |heldQuantity lots + fill| ≤ F64.eps12) :
    quantitiesAgree state [last] fill = true ↔
      |last.quantity| ≤ F64.eps12 * max 1 |heldQuantity lots| := by
  obtain ⟨hclosed, hlast⟩ := Side.append_iff.1 (hlots ▸ hside)
  have hheld : heldQuantity lots = heldQuantity closed + last.quantity := by
    rw [hlots, heldQuantity_append, heldQuantity_cons, heldQuantity_nil, add_zero]
  have hone : heldQuantity [last] = last.quantity := by
    rw [heldQuantity_cons, heldQuantity_nil, add_zero]
  have hlot := (Side.cons_iff.1 hlast).1
  have htotal : |heldQuantity lots| = |heldQuantity closed| + |last.quantity| := by
    rw [hd.abs_eq (heldQuantity lots), hd.abs_eq (heldQuantity closed), hd.abs_eq last.quantity,
      hheld, mul_add, abs_of_nonneg hclosed.held_nonneg, abs_of_pos (eps12_pos.trans hlot),
      abs_of_nonneg (add_nonneg hclosed.held_nonneg (eps12_pos.trans hlot).le)]
  have hlotSmall : |last.quantity| ≤ |heldQuantity lots| := by
    rw [htotal]
    exact le_add_of_nonneg_left (abs_nonneg _)
  have hfillSmall : |fill| ≤ |heldQuantity lots| := by
    have hbound : |fill| ≤ |heldQuantity closed + fill| + |heldQuantity closed| := by
      calc |fill| = |(heldQuantity closed + fill) - heldQuantity closed| := by rw [add_sub_cancel_left]
        _ ≤ |heldQuantity closed + fill| + |heldQuantity closed| := abs_sub _ _
    have habove : F64.eps12 < |last.quantity| := by
      rw [hd.abs_eq]
      exact hlot.trans_le (le_abs_self _)
    rw [htotal]
    linarith
  unfold quantitiesAgree
  rw [hlast.cleanZero_held hd, hnet, cleanZero_small hsmall, hone, quantitiesEqual_iff, sub_zero,
    abs_zero, max_eq_left (abs_nonneg last.quantity), max_eq_left hfillSmall,
    max_eq_left hlotSmall, abs_abs, max_eq_right hlotSmall, max_comm]

/-! ## One fill -/

/-- What stranding says of lots of one side. -/
theorem Strands.elim (hd : IsSign direction) (hside : Side direction lots)
    (h : Strands lots fill) : ∃ closed last, lots = closed ++ [last] ∧
      -F64.eps12 ≤ direction * (heldQuantity closed + fill) ∧
      direction * (heldQuantity closed + fill) < 0 ∧
      |direction * (heldQuantity lots + fill)| ≤ F64.eps12 := by
  obtain ⟨closed, last, hlots, hdust, hsmall, -⟩ := h
  have hlast := (Side.cons_iff.1 (Side.append_iff.1 (hlots ▸ hside)).2).1
  have hheld : heldQuantity closed + fill + last.quantity = heldQuantity lots + fill := by
    rw [hlots, heldQuantity_append, heldQuantity_cons, heldQuantity_nil]
    ring
  rw [hd.abs_eq] at hdust hsmall
  refine ⟨closed, last, hlots, (abs_le.1 hdust).1, ?_, ?_⟩
  · have hhigh := (abs_le.1 hsmall).2
    rw [mul_add] at hhigh
    linarith
  · rwa [hheld] at hsmall

theorem not_strands_own_side (hd : IsSign direction) (hside : Side direction lots)
    (hfill : F64.eps12 < direction * fill) : ¬ Strands lots fill := by
  intro h
  obtain ⟨closed, last, hlots, -, hneg, -⟩ := h.elim hd hside
  have hclosed := (Side.append_iff.1 (hlots ▸ hside)).1.held_nonneg
  rw [mul_add] at hneg
  linarith [eps12_pos]

/-- What is left of a fill that strands nothing is within dust of the booked quantity. -/
theorem not_strands_of_large (hd : IsSign direction) (hside : Side direction lots)
    (hlarge : F64.eps12 < |heldQuantity lots + fill|) : ¬ Strands lots fill := by
  intro h
  obtain ⟨-, -, -, -, -, hsmall⟩ := h.elim hd hside
  rw [← hd.abs_eq] at hsmall
  exact absurd hsmall (not_le.2 hlarge)

/-- A fill goes with the lots, or against them. -/
theorem Consistent.side {position : Position} (h : Consistent position) (hfill : F64.eps12 < |fill|) :
    ∃ direction, IsSign direction ∧ Side direction position.2 ∧
      (F64.eps12 < direction * fill ∨ direction * fill < -F64.eps12) := by
  obtain ⟨⟨direction, hd, hside⟩, -⟩ := consistent_iff.1 h
  refine ⟨direction, hd, hside, ?_⟩
  rw [hd.abs_eq, lt_abs] at hfill
  rcases hfill with hown | hother
  · exact .inl hown
  · exact .inr (lt_neg.1 hother)

/-- What one fill comes to. -/
inductive Filled (position : Position) (fill : SymbolFill) : Prop
  | diverged (strands : Strands position.2 fill.quantity)
    (result : position.fill fill = .error .quantityDiverged)
  | overflowed (kept : ¬ Strands position.2 fill.quantity)
    (result : position.fill fill = .error (.fifo .lotSequenceOverflowed))
  | filled (kept : ¬ Strands position.2 fill.quantity) (position' : Position)
    (result : position.fill fill = .ok position') (consistent : Consistent position')

section

variable {position : Position} {fill : SymbolFill} {rest realized : ℚ}

/-- The lots that are left pass the comparison. -/
theorem filled_of_agree (hd : IsSign direction) (hside : Side direction lots') {next : Int}
    (hfifo : applyFifoFill position.2 fill.quantity fill.price position.1.nextLotSeq =
      .ok (lots', realized, next))
    (hagree : quantitiesAgree position.1 lots' fill.quantity = true)
    (hkept : ¬ Strands position.2 fill.quantity) : Filled position fill := by
  rcases fill_eq hfifo with ⟨-, position', hfill, hlots, hnet⟩ | ⟨hnot, -⟩
  · refine .filled hkept position' hfill (consistent_iff.2 ⟨⟨direction, hd, ?_⟩, ?_⟩)
    · rwa [hlots]
    · rw [hlots]
      exact hnet
  · rw [hagree] at hnot
    cases hnot

/-- The rest of a fill is nothing, and what is left passes the comparison. -/
theorem filled_of_closed (hd : IsSign direction) (hside : Side direction lots')
    (hmatch : matchLots fill.price (position.2.length + 1) position.2 fill.quantity 0 =
      (lots', 0, realized))
    (hagree : quantitiesAgree position.1 lots' fill.quantity = true)
    (hkept : ¬ Strands position.2 fill.quantity) : Filled position fill := by
  have hfifo := applyFifoFill_of_match position.1.nextLotSeq hmatch
  rw [abs_zero, if_neg (not_lt.2 eps12_pos.le)] at hfifo
  exact filled_of_agree hd hside hfifo hagree hkept

/-- The rest of a fill opens a lot. -/
theorem filled_of_opened (hd : IsSign direction) (hside : Side direction lots')
    (hmatch : matchLots fill.price (position.2.length + 1) position.2 fill.quantity 0 =
      (lots', rest, realized))
    (hrest : F64.eps12 < direction * rest)
    (hnet : position.1.netQuantity = heldQuantity position.2)
    (hheld : heldQuantity lots' + rest = heldQuantity position.2 + fill.quantity)
    (hkept : ¬ Strands position.2 fill.quantity) : Filled position fill := by
  let opened : FifoLot ℚ :=
    { seq := position.1.nextLotSeq, quantity := rest, entryPrice := fill.price }
  have hside' : Side direction (lots' ++ [opened]) :=
    Side.append_iff.2 ⟨hside, Side.cons_iff.2 ⟨hrest, Side.nil⟩⟩
  have hheld' : heldQuantity (lots' ++ [opened]) = heldQuantity position.2 + fill.quantity := by
    rw [heldQuantity_append, heldQuantity_cons, heldQuantity_nil, add_zero]
    exact hheld
  have hlarge : F64.eps12 < |heldQuantity position.2 + fill.quantity| := by
    rw [← hheld', hd.abs_eq]
    exact (hside'.held_large (List.append_ne_nil_of_right_ne_nil _ (List.cons_ne_nil _ _))).trans_le
      (le_abs_self _)
  have hagree : quantitiesAgree position.1 (lots' ++ [opened]) fill.quantity = true :=
    quantitiesAgree_of_near 0 hd hside' hnet (by rw [hheld', add_zero])
      (by rw [abs_zero]; exact eps12_pos.le) (.inr hlarge)
  have habove : F64.eps12 < |rest| := by
    rw [hd.abs_eq]
    exact hrest.trans_le (le_abs_self _)
  have hfifo := applyFifoFill_of_match position.1.nextLotSeq hmatch
  rw [if_pos habove] at hfifo
  by_cases hseq : position.1.nextLotSeq < maxLotSeq
  · rw [if_pos hseq] at hfifo
    exact filled_of_agree hd hside' hfifo hagree hkept
  · rw [if_neg hseq] at hfifo
    refine .overflowed hkept ?_
    unfold Position.fill evaluateFill
    simp only [hfifo, Exact.isFinite_eq, ensure_true, ok_bind, Except.mapError, error_bind]

/-- The rest of the fill is dropped: the one way to strand a lot. -/
theorem filled_of_fillDust (hd : IsSign direction) (hside : Side direction position.2)
    (hnet : position.1.netQuantity = heldQuantity position.2)
    (hmatch : matchLots fill.price (position.2.length + 1) position.2 fill.quantity 0 =
      (lots', 0, realized))
    {closed : List (FifoLot ℚ)} (split : position.2 = closed ++ lots')
    (low : -F64.eps12 ≤ direction * (heldQuantity closed + fill.quantity))
    (high : direction * (heldQuantity closed + fill.quantity) ≤ 0) : Filled position fill := by
  obtain ⟨-, hleft⟩ := Side.append_iff.1 (split ▸ hside)
  have hheld : heldQuantity position.2 + fill.quantity =
      heldQuantity lots' + (heldQuantity closed + fill.quantity) := by
    rw [split, heldQuantity_append]
    ring
  have hdust : |heldQuantity closed + fill.quantity| ≤ F64.eps12 := by
    rw [hd.abs_eq]
    exact abs_le.2 ⟨low, high.trans eps12_pos.le⟩
  have hagree := quantitiesAgree_of_near _ hd hleft hnet hheld hdust
  rcases eq_or_ne lots' [] with hempty | hne
  · refine filled_of_closed hd hleft hmatch (hagree (.inl hempty)) fun hstrands => ?_
    obtain ⟨closed', last, hlots, hlow, -, -⟩ := hstrands.elim hd hside
    have hlast := (Side.cons_iff.1 (Side.append_iff.1 (hlots ▸ hside)).2).1
    have hover : direction * (heldQuantity position.2 + fill.quantity) =
        direction * (heldQuantity closed' + fill.quantity) + direction * last.quantity := by
      rw [hlots, heldQuantity_append, heldQuantity_cons, heldQuantity_nil]
      ring
    rw [hheld, hempty, heldQuantity_nil, zero_add] at hover
    linarith
  · by_cases hlarge : F64.eps12 < |heldQuantity position.2 + fill.quantity|
    · exact filled_of_closed hd hleft hmatch (hagree (.inr hlarge))
        (not_strands_of_large hd hside hlarge)
    · -- what is booked is dust, so what is left is one lot
      have hsmall : |heldQuantity position.2 + fill.quantity| ≤ F64.eps12 := not_lt.1 hlarge
      have hbound : direction * heldQuantity lots' ≤ 2 * F64.eps12 := by
        have hbooked := hsmall
        rw [hd.abs_eq, hheld, mul_add] at hbooked
        linarith [(abs_le.1 hbooked).2]
      obtain ⟨last, rfl⟩ := hleft.eq_singleton hne hbound
      have hlast := quantitiesAgree_last hd split hside hnet hdust hsmall
      by_cases hscale : |last.quantity| ≤ F64.eps12 * max 1 |heldQuantity position.2|
      · refine filled_of_closed hd hleft hmatch (hlast.2 hscale) ?_
        rintro ⟨closed', last', hlots, -, -, hover⟩
        obtain ⟨-, hsame⟩ := List.append_inj' (split.symm.trans hlots) rfl
        rw [List.cons.injEq] at hsame
        rw [← hsame.1] at hover
        exact absurd hscale (not_le.2 hover)
      · have hstrands : Strands position.2 fill.quantity := by
          refine ⟨closed, last, split, hdust, ?_, not_le.1 hscale⟩
          rw [hheld, heldQuantity_cons, heldQuantity_nil, add_zero, add_comm] at hsmall
          exact hsmall
        have hfifo := applyFifoFill_of_match position.1.nextLotSeq hmatch
        rw [abs_zero, if_neg (not_lt.2 eps12_pos.le)] at hfifo
        rcases fill_eq hfifo with ⟨hequal, -⟩ | ⟨-, hresult⟩
        · exact absurd (hlast.1 hequal) hscale
        · exact .diverged hstrands hresult

/-- The rest of a lot is dropped. -/
theorem filled_of_lotDust (hd : IsSign direction) (hside : Side direction position.2)
    (hnet : position.1.netQuantity = heldQuantity position.2)
    (hmatch : matchLots fill.price (position.2.length + 1) position.2 fill.quantity 0 =
      (lots', 0, realized))
    {closed : List (FifoLot ℚ)} {front : FifoLot ℚ} (split : position.2 = closed ++ front :: lots')
    (met : direction * (heldQuantity closed + fill.quantity) < -F64.eps12)
    (low : 0 < direction * (heldQuantity closed + front.quantity + fill.quantity))
    (high : direction * (heldQuantity closed + front.quantity + fill.quantity) ≤ F64.eps12) :
    Filled position fill := by
  obtain ⟨-, hfront⟩ := Side.append_iff.1 (split ▸ hside)
  obtain ⟨-, hleft⟩ := Side.cons_iff.1 hfront
  have hheld : heldQuantity position.2 + fill.quantity =
      heldQuantity lots' + (heldQuantity closed + front.quantity + fill.quantity) := by
    rw [split, heldQuantity_append, heldQuantity_cons]
    ring
  have hdust : |heldQuantity closed + front.quantity + fill.quantity| ≤ F64.eps12 := by
    rw [hd.abs_eq, abs_of_pos low]
    exact high
  have hagree := quantitiesAgree_of_near _ hd hleft hnet hheld hdust
  rcases eq_or_ne lots' [] with rfl | hne
  · refine filled_of_closed hd hleft hmatch (hagree (.inl rfl)) fun hstrands => ?_
    obtain ⟨closed', last, hlots, hlow, -, -⟩ := hstrands.elim hd hside
    obtain ⟨hsame, -⟩ := List.append_inj' (split.symm.trans hlots) rfl
    rw [← hsame] at hlow
    exact absurd met (not_lt.2 hlow)
  · have hlarge : F64.eps12 < |heldQuantity position.2 + fill.quantity| := by
      rw [hheld, hd.abs_eq, mul_add]
      refine lt_of_lt_of_le ?_ (le_abs_self _)
      linarith [hleft.held_large hne]
    exact filled_of_closed hd hleft hmatch (hagree (.inr hlarge))
      (not_strands_of_large hd hside hlarge)

/-- A fill against the lots. -/
theorem filled_of_closing (hd : IsSign direction) (hside : Side direction position.2)
    (hnet : position.1.netQuantity = heldQuantity position.2)
    (hfill : direction * fill.quantity < -F64.eps12) : Filled position fill := by
  have hclosed := matchLots_closed fill.price hd hside 0 hfill
  rcases hmatch : matchLots fill.price (position.2.length + 1) position.2 fill.quantity 0 with
    ⟨lots', rest, realized⟩
  rw [hmatch] at hclosed
  dsimp only at hclosed
  cases hclosed with
  | outlasted left =>
    have hrest : F64.eps12 < -direction * (heldQuantity position.2 + fill.quantity) := by
      rw [neg_mul]
      exact lt_neg.2 left
    refine filled_of_opened hd.neg Side.nil hmatch hrest hnet (by rw [heldQuantity_nil, zero_add]) ?_
    refine not_strands_of_large hd hside ?_
    rw [hd.neg.abs_eq]
    exact hrest.trans_le (le_abs_self _)
  | fillDust closed _ split low high => exact filled_of_fillDust hd hside hnet hmatch split low high
  | lotDust closed front _ split met low high =>
    exact filled_of_lotDust hd hside hnet hmatch split met low high
  | opened closed front rest' split left =>
    obtain ⟨-, hfront⟩ := Side.append_iff.1 (split ▸ hside)
    have hleft : Side direction
        ({ front with quantity := heldQuantity closed + front.quantity + fill.quantity } :: rest') :=
      Side.cons_iff.2 ⟨left, (Side.cons_iff.1 hfront).2⟩
    have hheld : heldQuantity position.2 + fill.quantity = heldQuantity
        ({ front with quantity := heldQuantity closed + front.quantity + fill.quantity } ::
          rest') := by
      rw [split, heldQuantity_append, heldQuantity_cons, heldQuantity_cons]
      ring
    have hlarge : F64.eps12 < |heldQuantity position.2 + fill.quantity| := by
      rw [hheld, hd.abs_eq]
      exact (hleft.held_large (List.cons_ne_nil _ _)).trans_le (le_abs_self _)
    refine filled_of_closed hd hleft hmatch ?_ (not_strands_of_large hd hside hlarge)
    refine quantitiesAgree_of_near 0 hd hleft hnet (by rw [hheld, add_zero]) ?_ (.inr hlarge)
    rw [abs_zero]
    exact eps12_pos.le

/-- A fill of a consistent market diverges exactly where it strands a lot, and else leaves the
market consistent. -/
theorem Consistent.filled (h : Consistent position) (fill : SymbolFill) : Filled position fill := by
  obtain ⟨direction, hd, hside, hfill⟩ := h.side fill.large
  have hnet : position.1.netQuantity = heldQuantity position.2 := by
    rw [h.net, hside.cleanZero_held hd]
  rcases hfill with hown | hother
  · have hmatch := matchLots_own_side fill.price position.2.length hd hside 0 hown
    exact filled_of_opened hd hside hmatch hown hnet rfl (not_strands_own_side hd hside hown)
  · exact filled_of_closing hd hside hnet hother

end

/-! ## Every run -/

/-- The fills of a run up to any point leave the market consistent or have failed otherwise than
by diverging. -/
def NeverDiverges (position : Position) (fills : List SymbolFill) : Prop :=
  ∀ done more, fills = done ++ more →
    (∀ position', position.fillAll done = .ok position' → Consistent position') ∧
      position.fillAll done ≠ .error .quantityDiverged

theorem fillAll_append (position : Position) (done : List SymbolFill) (fill : SymbolFill) :
    position.fillAll (done ++ [fill]) =
      position.fillAll done >>= fun position' => position'.fill fill := by
  unfold Position.fillAll
  rw [List.foldlM_append]
  refine bind_congr fun position' => ?_
  rw [List.foldlM_cons]
  exact bind_pure _

/-- What every run keeps, whether it strands a lot later or not. -/
theorem consistent_fillAll {position position' : Position} (h : Consistent position)
    {fills : List SymbolFill} (hrun : position.fillAll fills = .ok position') :
    Consistent position' := by
  induction fills using List.reverseRecOn generalizing position' with
  | nil =>
    cases hrun
    exact h
  | append_singleton fills fill ih =>
    rw [fillAll_append] at hrun
    obtain ⟨reached, hreached, hfill⟩ := bind_eq_ok.1 hrun
    cases (ih hreached).filled fill with
    | diverged _ result =>
      rw [result] at hfill
      cases hfill
    | overflowed _ result =>
      rw [result] at hfill
      cases hfill
    | filled _ next result consistent =>
      rw [result] at hfill
      cases hfill
      exact consistent

/-- The lots of a market stay above `ZERO_EPSILON` on one side and the net quantity stays their
sum; the comparison fails exactly in the runs in which some fill strands a lot. -/
theorem neverDiverges_iff (carried : Option CarriedLot) (fills : List SymbolFill) :
    NeverDiverges (Position.opening carried) fills ↔
      ∀ done fill more, fills = done ++ fill :: more → ∀ position,
        (Position.opening carried).fillAll done = .ok position →
          ¬ Strands position.2 fill.quantity := by
  constructor
  · intro h done fill more hfills position hrun hstrands
    obtain ⟨-, hnot⟩ := h (done ++ [fill]) more (by rw [hfills, List.append_assoc]; rfl)
    rw [fillAll_append, hrun, ok_bind] at hnot
    have hconsistent := consistent_fillAll (consistent_opening carried) hrun
    cases hconsistent.filled fill with
    | diverged _ result => exact hnot result
    | overflowed kept _ => exact kept hstrands
    | filled kept _ _ _ => exact kept hstrands
  · intro h done more hfills
    refine ⟨fun position' hrun => consistent_fillAll (consistent_opening carried) hrun, ?_⟩
    induction done using List.reverseRecOn generalizing more with
    | nil =>
      intro hrun
      cases hrun
    | append_singleton done fill ih =>
      rw [List.append_assoc, List.singleton_append] at hfills
      rw [fillAll_append]
      cases hrun : (Position.opening carried).fillAll done with
      | error e =>
        have hearlier := ih (fill :: more) hfills
        rw [hrun] at hearlier
        exact hearlier
      | ok position =>
        have hconsistent := consistent_fillAll (consistent_opening carried) hrun
        have hkept := h done fill more hfills position hrun
        rw [ok_bind]
        cases hconsistent.filled fill with
        | diverged strands _ => exact absurd strands hkept
        | overflowed _ result =>
          rw [result]
          exact fun hne => by cases hne
        | filled _ _ result _ =>
          rw [result]
          exact fun hne => by cases hne

/-- One bought, then a little more than `ZERO_EPSILON`; then one sold, and a little less than
`ZERO_EPSILON`. -/
def strandingFills : List SymbolFill :=
  [{ quantity := 12 / 10000000000000, price := 1, feeRate := 0
     large := by decide +kernel, price_pos := by decide +kernel },
    { quantity := -(1 + 9 / 10000000000000), price := 1, feeRate := 0
      large := by decide +kernel, price_pos := by decide +kernel }]

/-- The rest of the sale is dropped, and the second lot is compared with zero. -/
theorem strandingFills_diverge :
    (Position.opening (some ⟨1, 1, by decide +kernel⟩)).fillAll strandingFills =
        .error .quantityDiverged ∧
      ¬ ∀ carried fills, NeverDiverges (Position.opening carried) fills := by
  have hdiverged : (Position.opening (some ⟨1, 1, by decide +kernel⟩)).fillAll strandingFills =
      .error .quantityDiverged := by decide +kernel
  refine ⟨hdiverged, fun h => ?_⟩
  exact (h _ strandingFills strandingFills [] (List.append_nil _).symm).2 hdiverged

end CtaManager.Theoretical
