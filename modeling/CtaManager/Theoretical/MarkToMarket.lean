import CtaManager.Theoretical.CurveRun

/-!
The theoretical curve is the mark-to-market of its slices (`rebuild_timeline`).

The inventory of a moment is the carried one and what the slices up to then have traded.  A
curve is drawn only when every scheduled delta has all its prices and every held market its
mark, and then each point is worth the inventory at its marks, less the opening inventory at
the marks of the start and what the slices of the window have paid
(`rebuildTimeline_marksToMarket`).  Amounts within `ZERO_EPSILON` of zero are the exception:
`clean_zero` drops them, and what they are worth.
-/

namespace CtaManager.Theoretical

open Check Candles StableSort

/-! ## Inventory -/

section

variable [Text.Unicode]

/-- The carried inventory after all slices up to `ts`. -/
def inventoryAt (carry : Inventory ℚ) (slices : List (Slice ℚ)) (store : CandleReads ℚ) (ts : Int) :
    Inventory ℚ :=
  OrdMap.accumulate Slice.market (fun slice => slice.quantity store)
    (slices.filter fun slice => decide (slice.tsUs ≤ ts)) carry

/-- The inventory just before `ts`. -/
def inventoryBefore (carry : Inventory ℚ) (slices : List (Slice ℚ)) (store : CandleReads ℚ)
    (ts : Int) : Inventory ℚ :=
  OrdMap.accumulate Slice.market (fun slice => slice.quantity store)
    (slices.filter fun slice => decide (slice.tsUs < ts)) carry

/-- The sum over the markets of inventory times mark. -/
def valueOf (inventory : Inventory ℚ) (mark : MarketKey → ℚ) : ℚ :=
  OrdMap.sumOf (fun key quantity => quantity * mark key) inventory

/-- The slices from `start` to `ts`. -/
def tradedSlices (slices : List (Slice ℚ)) (start ts : Int) : List (Slice ℚ) :=
  slices.filter fun slice => decide (start ≤ slice.tsUs) && decide (slice.tsUs ≤ ts)

/-- What slices pay. -/
def paidBy (slices : List (Slice ℚ)) (store : CandleReads ℚ) : ℚ :=
  (slices.map fun slice => slice.quantity store * (slice.price store).getD 0).sum

def feesOf (slices : List (Slice ℚ)) (store : CandleReads ℚ) : ℚ :=
  (slices.map fun slice =>
    |slice.quantity store| * (slice.price store).getD 0 * slice.delta.feeRate).sum

/-- The ticks of the window of some slices. -/
def windowTicks (slices : List (Slice ℚ)) (store : CandleReads ℚ) (start stop : Int) : OrdSet Int :=
  curveTicks start stop (slices.filter fun slice =>
    decide (start ≤ slice.tsUs) && (slice.price store).isSome)

/-! ## Dust -/

/-- The amounts of the marks at one tick. -/
def tickAmounts (inputs : CurveInputs ℚ) (ts : Int) : List ℚ :=
  match (inputs.slices.filter fun slice => decide (slice.tsUs ≤ ts)).foldlM
      (applySlice inputs.schedules) inputs.positions with
  | .ok positions => positions.toList.map (floatingOf inputs.markets ts)
  | .error _ => []

/-- The amounts that a run compares with `ZERO_EPSILON`. -/
def CurveInputs.amounts (inputs : CurveInputs ℚ) (start stop : Int) : List ℚ :=
  inputs.opening.toList.map Prod.snd ++
    slicesAmounts inputs.schedules inputs.positions inputs.slices ++
    (curveTicks start stop inputs.slices).toList.flatMap (tickAmounts inputs)

def cleanedAmounts (carry : Inventory ℚ) (slices : List (Slice ℚ)) (store : CandleReads ℚ)
    (start stop : Int) : List ℚ :=
  match curveInputs carry slices store start stop .empty with
  | .ok (.inr inputs) => inputs.amounts start stop
  | _ => []

/-- No amount of the run is dust: within `ZERO_EPSILON` of zero without being zero. -/
def DustFree (carry : Inventory ℚ) (slices : List (Slice ℚ)) (store : CandleReads ℚ)
    (start stop : Int) : Prop :=
  ∀ amount ∈ cleanedAmounts carry slices store start stop, Kept amount

instance (carry : Inventory ℚ) (slices : List (Slice ℚ)) (store : CandleReads ℚ) (start stop : Int) :
    Decidable (DustFree carry slices store start stop) :=
  inferInstanceAs (Decidable (∀ amount ∈ _, Kept amount))

/-! ## What the curve says -/

/-- A point worth the inventory of `ts` at its marks, less the opening inventory at the marks of
the start and what the slices since then have paid. -/
structure WorthAt (carry : Inventory ℚ) (slices : List (Slice ℚ)) (store : CandleReads ℚ)
    (start : Int) (mark : Int → MarketKey → ℚ) (ts : Int) (point : TheoreticalNavPoint ℚ) : Prop where
  beforeFee : point.navChangeBeforeFeeQuote =
    valueOf (inventoryAt carry slices store ts) (mark ts) -
      valueOf (inventoryBefore carry slices store start) (mark start) -
      paidBy (tradedSlices slices start ts) store
  fee : point.estimatedTradingFeeQuote = feesOf (tradedSlices slices start ts) store
  afterFee : point.navChangeAfterFeeQuote =
    point.navChangeBeforeFeeQuote - point.estimatedTradingFeeQuote

/-- Points that are the mark-to-market of the slices. -/
structure MarksToMarket (carry : Inventory ℚ) (slices : List (Slice ℚ)) (store : CandleReads ℚ)
    (start stop : Int) (mark : Int → MarketKey → ℚ) (curve : List (TheoreticalNavPoint ℚ)) :
    Prop where
  opening : ∀ key : MarketKey, (inventoryBefore carry slices store start)[key]?.getD 0 ≠ 0 →
    LatestMark store start stop key start (mark start key)
  marked : ∀ point ∈ curve, ∀ key : MarketKey,
    (inventoryAt carry slices store point.tsUs)[key]?.getD 0 ≠ 0 →
      LatestMark store start stop key point.tsUs (mark point.tsUs key)
  worth : ∀ point ∈ curve, start < point.tsUs →
    WorthAt carry slices store start mark point.tsUs point

end

/-! ## Sums over slices -/

theorem sum_map_filter {α : Type} (p : α → Bool) (f : α → ℚ) (l : List α) :
    ((l.filter p).map f).sum = (l.map fun a => if p a then f a else 0).sum := by
  induction l with
  | nil => rfl
  | cons a l ih =>
    by_cases ha : p a = true
    · rw [List.filter_cons_of_pos ha, List.map_cons, List.map_cons, List.sum_cons, List.sum_cons,
        if_pos ha, ih]
    · rw [List.filter_cons_of_neg ha, List.map_cons, List.sum_cons, if_neg ha, zero_add, ih]

/-- Two selections that differ in elements without a share. -/
theorem sum_map_filter_congr {α : Type} {p q : α → Bool} {f g : α → ℚ} {l : List α}
    (h : ∀ a ∈ l, (if p a then f a else 0) = if q a then g a else 0) :
    ((l.filter p).map f).sum = ((l.filter q).map g).sum := by
  rw [sum_map_filter, sum_map_filter]
  exact congrArg List.sum (List.map_congr_left h)

section

variable [Text.Unicode] {carry : Inventory ℚ} {slices : List (Slice ℚ)} {store : CandleReads ℚ}
  {schedules : Schedules ℚ} {start : Int}

theorem Slice.quantity_ite {slice : Slice ℚ} (c : Bool) :
    (if c && (slice.price store).isSome then slice.quantity store else 0) =
      if c then slice.quantity store else 0 := by
  cases hprice : slice.price store with
  | none => rw [Slice.quantity_of_price hprice, ite_self, ite_self]
  | some price => rw [Option.isSome_some, Bool.and_true]

/-- The opening inventory is what is held just before the window. -/
theorem openingInventory_eq (hscheduled : Scheduled store slices schedules) (key : MarketKey) :
    (openingInventory schedules carry slices start)[key]?.getD 0 =
      (inventoryBefore carry slices store start)[key]?.getD 0 := by
  have hfold : openingInventory schedules carry slices start =
      OrdMap.accumulate Slice.market schedules.quantity
        (slices.filter fun slice => decide (slice.tsUs < start) && (schedules.price slice).isSome)
        carry := rfl
  unfold inventoryBefore
  rw [hfold, OrdMap.getD_accumulate, OrdMap.getD_accumulate]
  congr 1
  refine sum_map_filter_congr fun slice hslice => ?_
  rw [hscheduled.price slice hslice, hscheduled.quantity slice hslice]
  by_cases hkey : slice.market = key
  · simp only [if_pos hkey]
    exact Slice.quantity_ite _
  · simp only [if_neg hkey, ite_self]

/-- The inventory of a later moment: the opening one and the slices of the window. -/
theorem inventoryAt_eq {ts : Int} (hts : start ≤ ts) (key : MarketKey) :
    (inventoryAt carry slices store ts)[key]?.getD 0 =
      (inventoryBefore carry slices store start)[key]?.getD 0 +
        ((tradedSlices slices start ts).map fun slice =>
          if slice.market = key then slice.quantity store else 0).sum := by
  unfold inventoryAt inventoryBefore tradedSlices
  rw [OrdMap.getD_accumulate, OrdMap.getD_accumulate, add_assoc, sum_map_filter, sum_map_filter,
    sum_map_filter, ← List.sum_map_add]
  congr 1
  refine congrArg List.sum (List.map_congr_left fun slice _ => ?_)
  by_cases hbefore : slice.tsUs < start
  · have hle : slice.tsUs ≤ ts := by omega
    have hnot : ¬ start ≤ slice.tsUs := by omega
    simp [hbefore, hle, hnot]
  · have hfrom : start ≤ slice.tsUs := by omega
    simp [hbefore, hfrom]

end

/-! ## The run -/

section

variable [Text.Unicode] {carry : Inventory ℚ} {deltas : List (VirtualDelta ℚ)}
  {store : CandleReads ℚ} {start stop : Int} {inputs : CurveInputs ℚ}

/-- What the curve is drawn from, as long as nothing is missing. -/
structure Prepared (carry : Inventory ℚ) (slices : List (Slice ℚ)) (store : CandleReads ℚ)
    (start stop : Int) (inputs : CurveInputs ℚ) : Prop where
  scheduled : Scheduled store slices inputs.schedules
  opening : inputs.opening = openingInventory inputs.schedules carry slices start
  window : inputs.slices = slices.filter fun slice =>
    decide (start ≤ slice.tsUs) && (slice.price store).isSome
  points : inputs.output.points = []
  mark : ∀ key ts price, markOf inputs.markets key ts = .ok (some price) →
    LatestMark store start stop key ts price
  complete : inputs.output.missingPriceCount = 0 → (∀ slice ∈ slices, slice.Complete store) ∧
    (∀ entry ∈ (retained inputs.opening).toList, ∃ price,
      markOf inputs.markets entry.1 start = .ok (some price)) ∧
    inputs.positions = (retained inputs.opening).toList.foldl (fun positions entry =>
      positions.insert entry.1 (openedPosition entry.2 (markAt inputs.markets start entry.1))) ∅

theorem curveInputs_inl {slices : List (Slice ℚ)} {output : TheoreticalNavTimeline ℚ}
    (h : curveInputs carry slices store start stop .empty = .ok (.inl output)) :
    output.points = [] ∧ output.unavailableReason.isSome := by
  unfold curveInputs at h
  obtain ⟨priced, -, h⟩ := bind_eq_ok.1 h
  cases hcollect : collectSchedules priced .empty ∅ with
  | inl early =>
    rw [hcollect] at h
    cases h
    exact collectSchedules_inl hcollect
  | inr collected =>
    obtain ⟨output', schedules⟩ := collected
    rw [hcollect] at h
    obtain ⟨symbols, -, h⟩ := bind_eq_ok.1 h
    obtain ⟨markets, -, h⟩ := bind_eq_ok.1 h
    obtain ⟨⟨positions, missing⟩, -, h⟩ := bind_eq_ok.1 h
    cases h

theorem curveInputs_inr
    (h : curveInputs carry (scheduledSlices deltas stop) store start stop .empty =
      .ok (.inr inputs)) : Prepared carry (scheduledSlices deltas stop) store start stop inputs := by
  unfold curveInputs at h
  obtain ⟨priced, hpriced, h⟩ := bind_eq_ok.1 h
  cases hcollect : collectSchedules priced .empty ∅ with
  | inl early =>
    rw [hcollect] at h
    cases h
  | inr collected =>
    obtain ⟨output, schedules⟩ := collected
    rw [hcollect] at h
    obtain ⟨symbols, -, h⟩ := bind_eq_ok.1 h
    obtain ⟨markets, hmarkets, h⟩ := bind_eq_ok.1 h
    obtain ⟨⟨positions, missing⟩, hopened, h⟩ := bind_eq_ok.1 h
    cases h
    obtain ⟨hscheduled, hpoints, hcomplete⟩ := scheduled_of_collect hpriced hcollect
    obtain ⟨-, hall⟩ := openPositions_spec hopened
    refine ⟨hscheduled, rfl, ?_, hpoints, fun key ts price hmark => markOf_latest hmarkets hmark, ?_⟩
    · refine List.filter_congr fun slice hslice => ?_
      rw [hscheduled.price slice hslice]
    · intro hcount
      dsimp only at hcount
      obtain ⟨hmarks, hpositions⟩ := hall (by omega)
      exact ⟨hcomplete (by omega), hmarks, hpositions⟩

end

/-! ## The opening books -/

theorem getD_retained {opening : Inventory ℚ} (hkept : ∀ entry ∈ opening.toList, Kept entry.2)
    (key : MarketKey) : (retained opening)[key]?.getD 0 = opening[key]?.getD 0 := by
  cases hretained : (retained opening)[key]? with
  | some quantity =>
    rw [(OrdMap.getElem?_filter_eq_some.1 hretained).1]
  | none =>
    cases hkey : opening[key]? with
    | none => rfl
    | some quantity =>
      have hclean : cleanZero quantity = quantity := hkept (key, quantity) (OrdMap.mem_toList.2 hkey)
      by_contra hne
      have hnot : ¬ quantity = 0 := fun hzero => hne hzero.symm
      have hsome : (retained opening)[key]? = some quantity :=
        OrdMap.getElem?_filter_eq_some.2 ⟨hkey, by rw [hclean]; simpa using hnot⟩
      rw [hretained] at hsome
      cases hsome

theorem elim_mul (quantity : Option ℚ) (mark : ℚ) :
    quantity.elim 0 (fun quantity => quantity * mark) = quantity.getD 0 * mark := by
  cases quantity with
  | none => exact (zero_mul mark).symm
  | some quantity => rfl

/-- Inventories of the same quantities have the same value. -/
theorem valueOf_congr {inventory inventory' : Inventory ℚ} {mark : MarketKey → ℚ}
    (h : ∀ key : MarketKey, inventory[key]?.getD 0 = inventory'[key]?.getD 0) :
    valueOf inventory mark = valueOf inventory' mark := by
  unfold valueOf
  refine OrdMap.sumOf_eq_of_share fun key => ?_
  rw [elim_mul, elim_mul, h key]

/-- One lot for each market, at its mark. -/
def openedPositions (inventory : Inventory ℚ) (mark : MarketKey → ℚ) : Positions ℚ :=
  inventory.toList.foldl (fun positions entry =>
    positions.insert entry.1 (openedPosition entry.2 (mark entry.1))) ∅

theorem getElem?_openedPositions (inventory : Inventory ℚ) (mark : MarketKey → ℚ) (key : MarketKey) :
    (openedPositions inventory mark)[key]? =
      inventory[key]?.map fun quantity => openedPosition quantity (mark key) :=
  OrdMap.getElem?_foldl_insert_toList inventory
    (fun key quantity => openedPosition quantity (mark key)) key

theorem netOf_opened (inventory : Inventory ℚ) (mark : MarketKey → ℚ) (key : MarketKey) :
    netOf (openedPositions inventory mark) key = inventory[key]?.getD 0 := by
  unfold netOf
  rw [getElem?_openedPositions]
  cases inventory[key]? with
  | none => rfl
  | some quantity => exact add_zero quantity

theorem bookOf_opened (inventory : Inventory ℚ) (mark : MarketKey → ℚ) :
    bookOf (openedPositions inventory mark) = -valueOf inventory mark := by
  have hshare : bookOf (openedPositions inventory mark) =
      OrdMap.sumOf (fun key quantity => -(quantity * mark key)) inventory := by
    unfold bookOf
    refine OrdMap.sumOf_eq_of_share fun key => ?_
    rw [getElem?_openedPositions]
    cases inventory[key]? with
    | none => rfl
    | some quantity => simp [openedPosition]
  have hzero : OrdMap.sumOf (fun key quantity => -(quantity * mark key) + quantity * mark key)
      inventory = 0 := OrdMap.sumOf_eq_zero fun key quantity _ => neg_add_cancel _
  rw [OrdMap.sumOf_add] at hzero
  rw [hshare]
  exact eq_neg_of_add_eq_zero_left hzero

theorem feeOf_opened (inventory : Inventory ℚ) (mark : MarketKey → ℚ) :
    feeOf (openedPositions inventory mark) = 0 := by
  unfold feeOf
  refine OrdMap.sumOf_eq_zero fun key position hposition => ?_
  rw [getElem?_openedPositions, Option.map_eq_some_iff] at hposition
  obtain ⟨quantity, -, rfl⟩ := hposition
  rfl

/-! ## The points -/

section

variable [Text.Unicode] {carry : Inventory ℚ} {deltas : List (VirtualDelta ℚ)}
  {store : CandleReads ℚ} {start stop : Int} {inputs : CurveInputs ℚ}

/-- The slices that the run has applied by `ts`, and those of the window by then. -/
theorem Prepared.sum_window {slices : List (Slice ℚ)}
    (h : Prepared carry slices store start stop inputs) (ts : Int) {f g : Slice ℚ → ℚ}
    (hfg : ∀ slice ∈ slices, f slice = g slice)
    (hzero : ∀ slice ∈ slices, slice.price store = none → g slice = 0) :
    ((inputs.slices.filter fun slice => decide (slice.tsUs ≤ ts)).map f).sum =
      ((tradedSlices slices start ts).map g).sum := by
  unfold tradedSlices
  rw [h.window, List.filter_filter]
  refine sum_map_filter_congr fun slice hslice => ?_
  rw [hfg slice hslice]
  cases hprice : slice.price store with
  | none => rw [hzero slice hslice hprice, ite_self, ite_self]
  | some price => rw [Option.isSome_some, Bool.and_true, Bool.and_comm]

theorem Prepared.start_le {slices : List (Slice ℚ)}
    (h : Prepared carry slices store start stop inputs) :
    ∀ slice ∈ inputs.slices, start ≤ slice.tsUs := by
  intro slice hslice
  rw [h.window, List.mem_filter, Bool.and_eq_true, decide_eq_true_eq] at hslice
  exact hslice.2.1

omit [Text.Unicode] in
theorem mem_curveTicks {slices : List (Slice ℚ)} (hwindow : start < stop)
    (hslices : ∀ slice ∈ slices, start ≤ slice.tsUs) {ts : Int}
    (h : ts ∈ curveTicks start stop slices) : start ≤ ts := by
  unfold curveTicks at h
  rcases (OrdMap.mem_foldl_insert fun tick => tick).1 h with ⟨tick, htick, rfl⟩ | hempty
  · rw [List.mem_cons, List.mem_cons, List.mem_append] at htick
    rcases htick with rfl | rfl | hquarter | hslice
    · exact le_rfl
    · exact hwindow.le
    · unfold quarterHours at hquarter
      obtain ⟨index, -, rfl⟩ := List.mem_map.1 hquarter
      omega
    · obtain ⟨slice, hmem, rfl⟩ := List.mem_map.1 hslice
      exact hslices slice hmem
  · exact absurd hempty Std.ExtTreeSet.not_mem_empty

/-- A point of a run without dust. -/
theorem Prepared.drawn_exact {slices : List (Slice ℚ)}
    (h : Prepared carry slices store start stop inputs) (hsorted : Sorted Slice.tsUs slices)
    (hpositions : inputs.positions =
      openedPositions (retained inputs.opening) (markAt inputs.markets start))
    (hkept : ∀ amount ∈ inputs.amounts start stop, Kept amount) {ts : Int} (hts : start ≤ ts)
    (htick : ts ∈ curveTicks start stop inputs.slices) {positions : Positions ℚ}
    {drawn : TheoreticalNavPoint ℚ}
    (hrun : (inputs.slices.filter fun slice => decide (slice.tsUs ≤ ts)).foldlM
      (applySlice inputs.schedules) inputs.positions = .ok positions)
    (hpoint : pointAt inputs.markets ts positions = .ok (drawn, 0)) :
    (∀ key : MarketKey, (inventoryAt carry slices store ts)[key]?.getD 0 ≠ 0 →
      LatestMark store start stop key ts (markAt inputs.markets ts key)) ∧
    WorthAt carry slices store start (markAt inputs.markets) ts drawn := by
  unfold CurveInputs.amounts at hkept
  rw [List.forall_mem_append, List.forall_mem_append] at hkept
  obtain ⟨⟨hcarry, hfills⟩, hmarks⟩ := hkept
  have hopening : ∀ entry ∈ inputs.opening.toList, Kept entry.2 := fun entry hentry =>
    hcarry entry.2 (List.mem_map.2 ⟨entry, hentry, rfl⟩)
  have hfloating : ∀ entry ∈ positions.toList, Kept (floatingOf inputs.markets ts entry) := by
    intro entry hentry
    refine hmarks _ (List.mem_flatMap.2 ⟨ts, Std.ExtTreeSet.mem_toList.2 htick, ?_⟩)
    unfold tickAmounts
    rw [hrun]
    exact List.mem_map.2 ⟨entry, hentry, rfl⟩
  have hwindow : Sorted Slice.tsUs inputs.slices := by
    rw [h.window]
    exact hsorted.filter _
  have hprefix : ∀ amount ∈ slicesAmounts inputs.schedules inputs.positions
      (inputs.slices.filter fun slice => decide (slice.tsUs ≤ ts)), Kept amount := by
    intro amount hamount
    have hmem := slicesAmounts_append _ _ _
      (inputs.slices.filter fun slice => decide (ts < slice.tsUs)) amount hamount
    rw [filter_le_append_filter_lt hwindow ts] at hmem
    exact hfills amount hmem
  obtain ⟨hnet, hbook, hfee⟩ := applySlices_exact hrun hprefix
  obtain ⟨-, hpointFee, hvalue, hafter, hmarked⟩ := pointAt_exact hpoint hfloating
  have hheld : ∀ key : MarketKey, netOf inputs.positions key =
      (inventoryBefore carry slices store start)[key]?.getD 0 := by
    intro key
    rw [hpositions, netOf_opened, getD_retained hopening, h.opening, openingInventory_eq h.scheduled]
  -- the positions hold the inventory
  have hinventory : ∀ key : MarketKey, netOf positions key =
      (inventoryAt carry slices store ts)[key]?.getD 0 := by
    intro key
    rw [hnet key, hheld key, inventoryAt_eq hts key]
    refine congrArg (_ + ·) (h.sum_window ts (fun slice hslice => ?_) fun slice _ hprice => ?_)
    · rw [h.scheduled.quantity slice hslice]
    · rw [Slice.quantity_of_price hprice, ite_self]
  have hpaid : ((inputs.slices.filter fun slice => decide (slice.tsUs ≤ ts)).map fun slice =>
      inputs.schedules.quantity slice * (inputs.schedules.price slice).getD 0).sum =
        paidBy (tradedSlices slices start ts) store := by
    refine h.sum_window ts (fun slice hslice => ?_) fun slice _ hprice => ?_
    · rw [h.scheduled.quantity slice hslice, h.scheduled.price slice hslice]
    · rw [Slice.quantity_of_price hprice, zero_mul]
  have hfees : ((inputs.slices.filter fun slice => decide (slice.tsUs ≤ ts)).map fun slice =>
      |inputs.schedules.quantity slice| * (inputs.schedules.price slice).getD 0 *
        slice.delta.feeRate).sum = feesOf (tradedSlices slices start ts) store := by
    refine h.sum_window ts (fun slice hslice => ?_) fun slice _ hprice => ?_
    · rw [h.scheduled.quantity slice hslice, h.scheduled.price slice hslice]
    · rw [Slice.quantity_of_price hprice, abs_zero, zero_mul, zero_mul]
  have hworth : OrdMap.sumOf (fun key position =>
      heldQuantity position.2 * markAt inputs.markets ts key) positions =
        valueOf (inventoryAt carry slices store ts) (markAt inputs.markets ts) := by
    unfold valueOf
    refine OrdMap.sumOf_eq_of_share fun key => ?_
    rw [elim_mul, ← hinventory key]
    unfold netOf
    cases positions[key]? with
    | none => exact (zero_mul _).symm
    | some position => rfl
  have hstart : bookOf inputs.positions =
      -valueOf (inventoryBefore carry slices store start) (markAt inputs.markets start) := by
    rw [hpositions, bookOf_opened]
    refine congrArg Neg.neg (valueOf_congr fun key => ?_)
    rw [getD_retained hopening, h.opening, openingInventory_eq h.scheduled]
  have hfree : feeOf inputs.positions = 0 := by rw [hpositions, feeOf_opened]
  refine ⟨fun key hheldAt => ?_, ?_, ?_, hafter⟩
  · obtain ⟨price, hprice⟩ := hmarked key (by rwa [hinventory key])
    rw [markAt_eq hprice]
    exact h.mark key ts price hprice
  · rw [hvalue, hworth, hbook, hstart, hpaid]
    ring
  · rw [hpointFee, hfee, hfree, hfees, zero_add]

/-- One point for each tick, unless a mark is missing. -/
theorem Prepared.curve {slices : List (Slice ℚ)}
    (h : Prepared carry slices store start stop inputs) (hsorted : Sorted Slice.tsUs slices)
    (hwindow : start < stop) {final : CurveState ℚ}
    (hrun : (curveTicks start stop inputs.slices).toList.foldlM
      (curveStep inputs.schedules inputs.markets start stop)
      { pending := inputs.slices, positions := inputs.positions, legacy := ∅
        points := inputs.output.points, missing := 0 } = .ok final)
    (hmissing : final.missing = 0) :
    List.Forall₂ (DrawnAt inputs.schedules inputs.markets start stop inputs.positions inputs.slices)
      (curveTicks start stop inputs.slices).toList final.points := by
  have hsorted' : Sorted Slice.tsUs inputs.slices := by
    rw [h.window]
    exact hsorted.filter _
  have hfrom := h.start_le
  -- no slice is due before the first tick
  have hlater : ∀ slice ∈ inputs.slices, start - 1 < slice.tsUs := by
    intro slice hslice
    have hle := hfrom slice hslice
    omega
  have hpending : inputs.slices =
      inputs.slices.filter fun slice => decide (start - 1 < slice.tsUs) := by
    rw [eq_comm, List.filter_eq_self]
    intro slice hslice
    simpa using hlater slice hslice
  have happlied : (inputs.slices.filter fun slice => decide (slice.tsUs ≤ start - 1)).foldlM
      (applySlice inputs.schedules) inputs.positions = .ok inputs.positions := by
    have hnone : (inputs.slices.filter fun slice => decide (slice.tsUs ≤ start - 1)) = [] := by
      rw [List.filter_eq_nil_iff]
      intro slice hslice
      simpa using hlater slice hslice
    rw [hnone]
    rfl
  have hticks : (curveTicks start stop inputs.slices).toList.Pairwise (· < ·) :=
    Std.ExtTreeSet.ordered_toList.imp fun hlt => compare_lt_iff_lt.1 hlt
  have hfirst : ∀ ts ∈ (curveTicks start stop inputs.slices).toList, start - 1 < ts := by
    intro ts hts
    have hle := mem_curveTicks hwindow hfrom (Std.ExtTreeSet.mem_toList.1 hts)
    omega
  have hempty : ∀ point ∈ inputs.output.points, point.tsUs ≤ start - 1 := by
    rw [h.points]
    exact fun _ hpoint => absurd hpoint List.not_mem_nil
  obtain ⟨-, hdrawn⟩ := curve_spec hsorted' hticks hfirst hpending happlied hempty hrun
  obtain ⟨added, hadded, hforall⟩ := hdrawn hmissing
  rw [hadded]
  dsimp only
  rw [h.points, List.nil_append]
  exact hforall

theorem DrawnAt.tsUs_eq {schedules : Schedules ℚ} {markets : Markets ℚ} {opening : Positions ℚ}
    {slices : List (Slice ℚ)} {ts : Int} {point : TheoreticalNavPoint ℚ}
    (h : DrawnAt schedules markets start stop opening slices ts point) : point.tsUs = ts := by
  obtain ⟨positions, drawn, -, hpoint, rfl⟩ := h
  split
  · rfl
  · exact pointAt_tsUs hpoint

theorem map_tsUs_of_drawn {schedules : Schedules ℚ} {markets : Markets ℚ} {opening : Positions ℚ}
    {slices : List (Slice ℚ)} {ticks : List Int} {curve : List (TheoreticalNavPoint ℚ)}
    (h : List.Forall₂ (DrawnAt schedules markets start stop opening slices) ticks curve) :
    curve.map TheoreticalNavPoint.tsUs = ticks := by
  induction h with
  | nil => rfl
  | cons hhead _ ih => rw [List.map_cons, hhead.tsUs_eq, ih]

/-- A run without dust is worth its slices. -/
theorem Prepared.marksToMarket {slices : List (Slice ℚ)}
    (h : Prepared carry slices store start stop inputs) (hsorted : Sorted Slice.tsUs slices)
    (hwindow : start < stop)
    (hmarks : ∀ entry ∈ (retained inputs.opening).toList, ∃ price,
      markOf inputs.markets entry.1 start = .ok (some price))
    (hpositions : inputs.positions =
      openedPositions (retained inputs.opening) (markAt inputs.markets start))
    (hkept : ∀ amount ∈ inputs.amounts start stop, Kept amount)
    {curve : List (TheoreticalNavPoint ℚ)}
    (hcurve : List.Forall₂ (DrawnAt inputs.schedules inputs.markets start stop inputs.positions
      inputs.slices) (curveTicks start stop inputs.slices).toList curve) :
    MarksToMarket carry slices store start stop (markAt inputs.markets) curve := by
  have hpoint : ∀ point ∈ curve,
      (∀ key : MarketKey, (inventoryAt carry slices store point.tsUs)[key]?.getD 0 ≠ 0 →
        LatestMark store start stop key point.tsUs (markAt inputs.markets point.tsUs key)) ∧
      (start < point.tsUs →
        WorthAt carry slices store start (markAt inputs.markets) point.tsUs point) := by
    intro point hmem
    obtain ⟨ts, htick, hat⟩ := exists_left_of_forall₂ hcurve hmem
    obtain rfl := hat.tsUs_eq
    obtain ⟨positions, drawn, hrun, hdrawn, heq⟩ := hat
    have hts := Std.ExtTreeSet.mem_toList.1 htick
    obtain ⟨hmarked, hworth⟩ := h.drawn_exact hsorted hpositions hkept
      (mem_curveTicks hwindow h.start_le hts) hts hrun hdrawn
    refine ⟨hmarked, fun hlater => ?_⟩
    rw [if_neg fun hstart => absurd hstart.1 (ne_of_gt hlater)] at heq
    rw [heq] at hworth ⊢
    exact hworth
  refine ⟨fun key hheld => ?_, fun point hmem => (hpoint point hmem).1,
    fun point hmem => (hpoint point hmem).2⟩
  have hopening : ∀ entry ∈ inputs.opening.toList, Kept entry.2 := fun entry hentry =>
    hkept entry.2 (List.mem_append_left _ (List.mem_append_left _
      (List.mem_map.2 ⟨entry, hentry, rfl⟩)))
  rw [← openingInventory_eq h.scheduled key, ← h.opening, ← getD_retained hopening key] at hheld
  cases hkey : (retained inputs.opening)[key]? with
  | none =>
    rw [hkey] at hheld
    exact absurd rfl hheld
  | some quantity =>
    obtain ⟨price, hprice⟩ := hmarks (key, quantity) (OrdMap.mem_toList.2 hkey)
    rw [markAt_eq hprice]
    exact h.mark key start price hprice

/-! ## The curve -/

omit [Text.Unicode] in
theorem finishTimeline_missing {output : TheoreticalNavTimeline ℚ} {maxPoints : Nat}
    (h : 0 < output.missingPriceCount) : (finishTimeline output maxPoints).points = [] ∧
      (finishTimeline output maxPoints).unavailableReason.isSome := by
  unfold finishTimeline
  rw [if_pos h]
  exact ⟨rfl, rfl⟩

omit [Text.Unicode] in
theorem finishTimeline_points {output : TheoreticalNavTimeline ℚ} {maxPoints : Nat}
    (h : output.missingPriceCount = 0) :
    (finishTimeline output maxPoints).points = downsamplePoints output.points maxPoints := by
  unfold finishTimeline
  rw [if_neg (by omega)]

/-- A rebuilt curve is the mark-to-market of its slices, or there is none.

Unless the points are empty and a reason is set, every scheduled delta had all its prices, and
the points are a sample of a curve with one point for each tick: zero at the start, and, as
long as no amount of the run is dust, worth at every later tick the inventory at its marks. -/
theorem rebuildTimeline_marksToMarket (carry : Inventory ℚ) (deltas : List (VirtualDelta ℚ))
    (store : CandleReads ℚ) (start stop : Int) (maxPoints : Nat)
    (output : TheoreticalNavTimeline ℚ) (hwindow : start < stop)
    (h : rebuildTimeline carry (scheduledSlices deltas stop) store start stop maxPoints .empty =
      .ok output) :
    (output.points = [] ∧ output.unavailableReason.isSome) ∨
      (∀ slice ∈ scheduledSlices deltas stop, slice.Complete store ∧
        (slice.quantity store ≠ 0 → ∃ price, slice.price store = some price)) ∧
      ∃ curve mark, output.points = downsamplePoints curve maxPoints ∧
        curve.map TheoreticalNavPoint.tsUs =
          (windowTicks (scheduledSlices deltas stop) store start stop).toList ∧
        (∀ point ∈ curve, point.tsUs = start → point = zeroPoint start) ∧
        (DustFree carry (scheduledSlices deltas stop) store start stop →
          MarksToMarket carry (scheduledSlices deltas stop) store start stop mark curve) := by
  unfold rebuildTimeline at h
  obtain ⟨prepared, hprepared, h⟩ := bind_eq_ok.1 h
  cases prepared with
  | inl early =>
    cases h
    exact Or.inl (curveInputs_inl hprepared)
  | inr inputs =>
    obtain ⟨final, hcurve, h⟩ := bind_eq_ok.1 h
    rw [pure_eq_ok, Except.ok.injEq] at h
    subst h
    have hinputs := curveInputs_inr hprepared
    have hsorted : Sorted Slice.tsUs (scheduledSlices deltas stop) := sorted_scheduledSlices _ _
    by_cases hmissing : 0 < inputs.output.missingPriceCount + final.missing
    · exact Or.inl (finishTimeline_missing hmissing)
    · right
      obtain ⟨hcomplete, hmarks, hpositions⟩ := hinputs.complete (by omega)
      have hforall := hinputs.curve hsorted hwindow hcurve (by omega)
      refine ⟨fun slice hslice => ⟨hcomplete slice hslice, fun hquantity => ?_⟩, final.points,
        markAt inputs.markets, finishTimeline_points (by dsimp only; omega), ?_, ?_, fun hdust => ?_⟩
      · cases hprice : slice.price store with
        | none => exact absurd (Slice.quantity_of_price hprice) hquantity
        | some price => exact ⟨price, rfl⟩
      · have hticks : windowTicks (scheduledSlices deltas stop) store start stop =
            curveTicks start stop inputs.slices := by
          rw [hinputs.window]
          rfl
        rw [hticks]
        exact map_tsUs_of_drawn hforall
      · intro point hpoint hstart
        obtain ⟨ts, -, hat⟩ := exists_left_of_forall₂ hforall hpoint
        obtain rfl := hat.tsUs_eq
        obtain ⟨positions, drawn, -, -, heq⟩ := hat
        rw [heq, if_pos ⟨hstart, hwindow⟩, hstart]
      · refine hinputs.marksToMarket hsorted hwindow hmarks hpositions ?_ hforall
        unfold DustFree cleanedAmounts at hdust
        rw [hprepared] at hdust
        exact hdust

end

section Sample

attribute [local instance] Text.Unicode.ascii

def curveMinute (minute : Nat) (price volume : ℚ) : Kline ℚ :=
  ⟨minute * MINUTE_US, price, price, price, price, volume, volume * price, 1⟩

/-- Six minutes, the third of them empty. -/
def curveMinutes : OrdMap Int (Kline ℚ) :=
  [curveMinute 1000 10 1, curveMinute 1001 10 1, curveMinute 1002 10 0, curveMinute 1003 12 1,
    curveMinute 1004 13 1, curveMinute 1005 13 1].foldl
      (fun minutes candle => minutes.insert candle.openTsUs candle) ∅

theorem curveMinutes_valid : ∀ (openTsUs : Int) candle, curveMinutes[openTsUs]? = some candle →
    candle.validate = .ok () ∧ candle.openTsUs = openTsUs := by
  intro openTsUs candle hcandle
  have hall : (curveMinutes.toList.all fun p =>
      decide (p.2.validate = .ok ()) && decide (p.2.openTsUs = p.1)) = true := by
    decide +kernel
  simpa using List.all_eq_true.1 hall _ (OrdMap.mem_toList.2 hcandle)

theorem curveSymbol_named : (prefixBytes "BTCUSDT").toOption.isSome = true := by decide +kernel

def curveHistory : Database ℚ where
  candles := (∅ : OrdMap String (OrdMap Int (Kline ℚ))).insert "BTCUSDT" curveMinutes
  valid := valid_single curveMinutes_valid
  named := named_single curveSymbol_named

/-- The store an hour later, before it has read anything. -/
def curveStore : CandleReads ℚ :=
  storeReads (KlineStore.fromDb ⟨true, 30⟩ curveHistory) (KlineStore.coherent_fromDb _ _)
    (1060 * MINUTE_US)

def bitcoinDelta (model : ExecutionModel) (receivedAtUs : Int) (deltaQty : ℚ) : VirtualDelta ℚ where
  executionModel := model
  sourceId := "desk"
  bindingName := "cta"
  strategyName := "trend"
  symbol := "BTCUSDT"
  venue := "binance-futures"
  receivedAtUs := receivedAtUs
  seq := 1
  deltaQty := deltaQty
  feeRate := 1 / 1000
  archivedTakerFeeRate := none
  legacyFee := false
  targetSignal := 1

def bitcoin : MarketKey := ⟨"desk", "BTCUSDT", "binance-futures"⟩

/-- Two are carried, and four more bought in five minutes, one of them empty. -/
def boughtDeltas : List (VirtualDelta ℚ) := [bitcoinDelta .twap5m (1000 * MINUTE_US) 4]

def carriedTwo : Inventory ℚ := (∅ : Inventory ℚ).insert bitcoin 2

def boughtCurve : List (TheoreticalNavPoint ℚ) :=
  [⟨1001 * MINUTE_US, 0, 0, 0⟩, ⟨1002 * MINUTE_US, 0, -1 / 50, 1 / 50⟩,
    ⟨1004 * MINUTE_US, 8, 8 - 4 / 125, 4 / 125⟩, ⟨1005 * MINUTE_US, 13, 13 - 9 / 200, 9 / 200⟩]

def boughtOutput : TheoreticalNavTimeline ℚ :=
  { (TheoreticalNavTimeline.empty : TheoreticalNavTimeline ℚ) with
    latestPointTsUs := some (1005 * MINUTE_US)
    points := boughtCurve
    sampled := true
    zeroVolumeSkippedSampleCount := 1 }

theorem rebuildTimeline_bought : rebuildTimeline carriedTwo
    (scheduledSlices boughtDeltas (1005 * MINUTE_US)) curveStore (1001 * MINUTE_US)
    (1005 * MINUTE_US) 0 .empty = .ok boughtOutput := by
  decide +kernel

theorem downsamplePoints_zero (points : List (TheoreticalNavPoint ℚ)) :
    downsamplePoints points 0 = points := by
  unfold downsamplePoints
  rw [if_pos (Or.inr (by decide))]

theorem rebuildTimeline_marksToMarket_bought : ∃ mark, MarksToMarket carriedTwo
    (scheduledSlices boughtDeltas (1005 * MINUTE_US)) curveStore (1001 * MINUTE_US)
    (1005 * MINUTE_US) mark boughtCurve := by
  rcases rebuildTimeline_marksToMarket carriedTwo boughtDeltas curveStore (1001 * MINUTE_US)
    (1005 * MINUTE_US) 0 boughtOutput (by decide) rebuildTimeline_bought with
    hnone | ⟨-, curve, mark, hpoints, -, -, hmarks⟩
  · exact absurd hnone.1 (by decide)
  · rw [downsamplePoints_zero] at hpoints
    have hcurve : curve = boughtCurve := hpoints.symm
    rw [hcurve] at hmarks
    exact ⟨mark, hmarks (by decide +kernel)⟩

/-- A millionth of a millionth, bought at 10. -/
def dustDeltas : List (VirtualDelta ℚ) :=
  [bitcoinDelta .instantTaker (1002 * MINUTE_US) (1 / 1000000000000)]

def dustOutput : TheoreticalNavTimeline ℚ :=
  { (TheoreticalNavTimeline.empty : TheoreticalNavTimeline ℚ) with
    latestPointTsUs := some (1005 * MINUTE_US)
    points := [zeroPoint (1001 * MINUTE_US), zeroPoint (1002 * MINUTE_US),
      zeroPoint (1005 * MINUTE_US)]
    sampled := true }

theorem dustInventory : (inventoryAt ∅ (scheduledSlices dustDeltas (1005 * MINUTE_US)) curveStore
    (1005 * MINUTE_US)).toList = [(bitcoin, 1 / 1000000000000)] := by
  decide +kernel

/-- At the last point the market stood at 13. -/
theorem dustMark {price : ℚ} (h : LatestMark curveStore (1001 * MINUTE_US) (1005 * MINUTE_US) bitcoin
    (1005 * MINUTE_US) price) : price = 13 := by
  obtain ⟨symbol, bars, candle, hsymbol, hbars, hmem, hend, hrecent, -, rfl⟩ := h
  have hname : marketKey bitcoin.venue bitcoin.symbol = .ok "BTCUSDT" := by decide +kernel
  rw [hname] at hsymbol
  cases hsymbol
  have hscan : (curveStore.scan "BTCUSDT" (floorMinute (1001 * MINUTE_US) - MINUTE_US)
      (1005 * MINUTE_US)).toOption.all (fun bars => bars.all fun candle =>
        decide (candle.endTsUs ≤ 1005 * MINUTE_US → 1005 * MINUTE_US < candle.endTsUs + MINUTE_US →
          candle.close = 13)) = true := by
    decide +kernel
  rw [hbars] at hscan
  have hclose := List.all_eq_true.1 hscan candle hmem
  rw [decide_eq_true_eq] at hclose
  exact hclose hend hrecent

/-- A slice without a price leaves a curve all the same, and one that trades dust is worth
nothing on it. -/
theorem rebuildTimeline_marksToMarket_dust :
    (∃ slice ∈ scheduledSlices boughtDeltas (1005 * MINUTE_US), slice.price curveStore = none) ∧
    boughtOutput.points ≠ [] ∧
    rebuildTimeline carriedTwo (scheduledSlices boughtDeltas (1005 * MINUTE_US)) curveStore
      (1001 * MINUTE_US) (1005 * MINUTE_US) 0 .empty = .ok boughtOutput ∧
    rebuildTimeline ∅ (scheduledSlices dustDeltas (1005 * MINUTE_US)) curveStore
      (1001 * MINUTE_US) (1005 * MINUTE_US) 0 .empty = .ok dustOutput ∧
    ∀ mark, ¬ MarksToMarket ∅ (scheduledSlices dustDeltas (1005 * MINUTE_US)) curveStore
      (1001 * MINUTE_US) (1005 * MINUTE_US) mark dustOutput.points := by
  refine ⟨?_, by decide, rebuildTimeline_bought, by decide +kernel, fun mark h => ?_⟩
  · decide +kernel
  · have hmem : zeroPoint (1005 * MINUTE_US) ∈ dustOutput.points := by decide +kernel
    have hheld : (inventoryAt ∅ (scheduledSlices dustDeltas (1005 * MINUTE_US)) curveStore
        (1005 * MINUTE_US))[bitcoin]? = some (1 / 1000000000000) := by
      rw [← OrdMap.mem_toList, dustInventory]
      exact List.mem_singleton_self _
    have hmark := dustMark (h.marked _ hmem bitcoin (by
      show (inventoryAt ∅ _ curveStore (1005 * MINUTE_US))[bitcoin]?.getD 0 ≠ 0
      rw [hheld]
      decide +kernel))
    have hworth := (h.worth _ hmem (by decide)).beforeFee
    have hbefore : (inventoryBefore ∅ (scheduledSlices dustDeltas (1005 * MINUTE_US)) curveStore
        (1001 * MINUTE_US)).toList = [] := by
      decide +kernel
    have hpaid : paidBy (tradedSlices (scheduledSlices dustDeltas (1005 * MINUTE_US))
        (1001 * MINUTE_US) (1005 * MINUTE_US)) curveStore = 10 / 1000000000000 := by
      decide +kernel
    unfold valueOf OrdMap.sumOf at hworth
    rw [show (zeroPoint (1005 * MINUTE_US) : TheoreticalNavPoint ℚ).tsUs = 1005 * MINUTE_US from rfl,
      dustInventory, hbefore, hpaid] at hworth
    rw [show (zeroPoint (1005 * MINUTE_US) : TheoreticalNavPoint ℚ).tsUs = 1005 * MINUTE_US from rfl]
      at hmark
    simp only [List.map_cons, List.map_nil, List.sum_cons, List.sum_nil, hmark] at hworth
    have hzero : (zeroPoint (1005 * MINUTE_US) : TheoreticalNavPoint ℚ).navChangeBeforeFeeQuote = 0 :=
      rfl
    rw [hzero] at hworth
    norm_num at hworth

end Sample

end CtaManager.Theoretical
