import CtaManager.Theoretical.FifoExact

/-!
The slices of a window at the prices of the store.

`rebuild_timeline` keeps the prices by the index of the delta; what a slice trades and at what
price is a matter of its delta and the store alone (`Slice.quantity`, `Slice.price`).  The
schedules it collects say the same of every scheduled slice (`getElem?_schedules`).
-/

namespace CtaManager.Theoretical

open Check Candles StableSort

/-! ## Scheduled slices -/

section

variable {F : Type}

def Slice.market (slice : Slice F) : MarketKey := slice.delta.market

theorem mem_scheduledSlices {deltas : List (VirtualDelta F)} {stop : Int} {slice : Slice F} :
    slice ∈ scheduledSlices deltas stop ↔ deltas[slice.index]? = some slice.delta ∧
      slice.slice < slice.delta.executionModel.sampleCount ∧
      slice.tsUs = slice.delta.sliceTsUs slice.slice ∧ slice.tsUs ≤ stop := by
  unfold scheduledSlices
  rw [mem_stableSort, List.mem_flatMap]
  constructor
  · rintro ⟨⟨delta, index⟩, hentry, hmem⟩
    obtain ⟨part, hpart, rfl⟩ := List.mem_map.1 hmem
    rw [List.mem_filter, List.mem_range, decide_eq_true_eq] at hpart
    exact ⟨List.mem_zipIdx_iff_getElem?.1 hentry, hpart.1, rfl, hpart.2⟩
  · rintro ⟨hdelta, hpart, hts, hstop⟩
    refine ⟨(slice.delta, slice.index), List.mem_zipIdx_iff_getElem?.2 hdelta, List.mem_map.2
      ⟨slice.slice, ?_, ?_⟩⟩
    · rw [List.mem_filter, List.mem_range, decide_eq_true_eq, ← hts]
      exact ⟨hpart, hstop⟩
    · rw [← hts]

/-- The index of a slice says its delta. -/
theorem delta_of_index {deltas : List (VirtualDelta F)} {stop : Int} {slice other : Slice F}
    (hslice : slice ∈ scheduledSlices deltas stop) (hother : other ∈ scheduledSlices deltas stop)
    (h : slice.index = other.index) : slice.delta = other.delta := by
  have hdelta := (mem_scheduledSlices.1 hslice).1
  rw [h, (mem_scheduledSlices.1 hother).1, Option.some.injEq] at hdelta
  exact hdelta.symm

theorem sorted_scheduledSlices (deltas : List (VirtualDelta F)) (stop : Int) :
    (scheduledSlices deltas stop).Pairwise fun a b => a.tsUs ≤ b.tsUs := by
  unfold scheduledSlices
  refine (sorted_stableSort _ _).imp fun {a b} h => ?_
  rcases Prod.Lex.toLex_le_toLex.1 h with hlt | ⟨heq, -⟩
  · exact hlt.le
  · exact heq.le

end

variable {F : Type} [F64 F]

/-! ## Prices -/

section

variable [Text.Unicode]

/-- The prices of the delta of a slice, where the store has them. -/
def Slice.priced (slice : Slice F) (store : CandleReads F) : Option (MinutePrices F) :=
  (slice.delta.prices store).toOption.join

def Slice.price (slice : Slice F) (store : CandleReads F) : Option F :=
  (slice.priced store).bind fun priced => priced.prices[slice.slice]?.join

/-- What a slice trades: nothing, where it has no price. -/
def Slice.quantity (slice : Slice F) (store : CandleReads F) : F :=
  (slice.priced store).elim 0 fun priced => priced.quantity slice.delta.deltaQty slice.slice

theorem Slice.quantity_of_price {slice : Slice F} {store : CandleReads F}
    (h : slice.price store = none) : slice.quantity store = 0 := by
  unfold Slice.price at h
  unfold Slice.quantity
  cases hpriced : slice.priced store with
  | none => rfl
  | some priced =>
    rw [hpriced] at h
    show priced.quantity slice.delta.deltaQty slice.slice = 0
    unfold MinutePrices.quantity
    split
    · next price hprice =>
      rw [Option.bind_some, hprice] at h
      cases h
    · rfl

end

/-! ## Schedules -/

omit [F64 F] in
/-- A window without a price average leaves no curve. -/
theorem collectSchedules_inl {entries : List (Nat × VirtualDelta F × Option (MinutePrices F))}
    {output output' : TheoreticalNavTimeline F} {schedules : Schedules F}
    (h : collectSchedules entries output schedules = .inl output') :
    output'.points = [] ∧ output'.unavailableReason.isSome := by
  induction entries generalizing output schedules with
  | nil => cases h
  | cons entry entries ih =>
    obtain ⟨index, delta, prices⟩ := entry
    cases prices with
    | none => exact ih h
    | some priced =>
      unfold collectSchedules at h
      dsimp only at h
      split at h
      · cases h
        exact ⟨rfl, rfl⟩
      · exact ih h

omit [F64 F] in
theorem collectSchedules_frame {entries : List (Nat × VirtualDelta F × Option (MinutePrices F))}
    {output output' : TheoreticalNavTimeline F} {schedules schedules' : Schedules F}
    (h : collectSchedules entries output schedules = .inr (output', schedules')) {index : Nat}
    (hindex : ∀ entry ∈ entries, entry.1 ≠ index) : schedules'[index]? = schedules[index]? := by
  induction entries generalizing output schedules with
  | nil =>
    cases h
    rfl
  | cons entry entries ih =>
    obtain ⟨head, delta, prices⟩ := entry
    have hhead : head ≠ index := hindex _ List.mem_cons_self
    have hrest : ∀ entry ∈ entries, entry.1 ≠ index := fun entry hentry =>
      hindex entry (List.mem_cons_of_mem _ hentry)
    cases prices with
    | none => exact ih h hrest
    | some priced =>
      unfold collectSchedules at h
      dsimp only at h
      split at h
      · cases h
      · rw [ih h hrest, OrdMap.getElem?_insert_of_key, if_neg hhead]

omit [F64 F] in
/-- The schedules have the priced deltas, and each of the others is counted. -/
theorem collectSchedules_inr {entries : List (Nat × VirtualDelta F × Option (MinutePrices F))}
    {output output' : TheoreticalNavTimeline F} {schedules schedules' : Schedules F}
    (h : collectSchedules entries output schedules = .inr (output', schedules'))
    (hnodup : (entries.map Prod.fst).Nodup)
    (hfresh : ∀ entry ∈ entries, schedules[entry.1]? = none) :
    output'.points = output.points ∧ output.missingPriceCount ≤ output'.missingPriceCount ∧
      ∀ entry ∈ entries, schedules'[entry.1]? = entry.2.2 ∧
        (entry.2.2 = none → output.missingPriceCount < output'.missingPriceCount) ∧
        ∀ priced, entry.2.2 = some priced → priced.average.isSome := by
  induction entries generalizing output schedules with
  | nil =>
    cases h
    exact ⟨rfl, le_rfl, fun _ hentry => absurd hentry List.not_mem_nil⟩
  | cons entry entries ih =>
    obtain ⟨index, delta, prices⟩ := entry
    rw [List.map_cons, List.nodup_cons] at hnodup
    have hother : ∀ entry ∈ entries, entry.1 ≠ index := by
      intro entry hentry heq
      exact hnodup.1 (List.mem_map.2 ⟨entry, hentry, heq⟩)
    have hrest : ∀ entry ∈ entries, schedules[entry.1]? = none := fun entry hentry =>
      hfresh entry (List.mem_cons_of_mem _ hentry)
    cases prices with
    | none =>
      obtain ⟨hpoints, hle, hentries⟩ := ih h hnodup.2 hrest
      have hlt : output.missingPriceCount < output'.missingPriceCount := hle
      refine ⟨hpoints, hlt.le, List.forall_mem_cons.2 ⟨⟨?_, fun _ => hlt, ?_⟩, ?_⟩⟩
      · have hcollected : collectSchedules entries
            { output with missingPriceCount := output.missingPriceCount + 1 } schedules =
            .inr (output', schedules') := h
        rw [collectSchedules_frame hcollected hother]
        exact hfresh _ List.mem_cons_self
      · intro priced hpriced
        cases hpriced
      · intro entry hentry
        obtain ⟨hmap, -, haverage⟩ := hentries entry hentry
        exact ⟨hmap, fun _ => hlt, haverage⟩
    | some priced =>
      unfold collectSchedules at h
      dsimp only at h
      split at h
      · cases h
      · next haverage =>
        have hfresh' : ∀ entry ∈ entries, (schedules.insert index priced)[entry.1]? = none := by
          intro entry hentry
          rw [OrdMap.getElem?_insert_of_key, if_neg (hother entry hentry).symm]
          exact hrest entry hentry
        obtain ⟨hpoints, hle, hentries⟩ := ih h hnodup.2 hfresh'
        refine ⟨hpoints, hle, List.forall_mem_cons.2 ⟨⟨?_, ?_, ?_⟩, hentries⟩⟩
        · rw [collectSchedules_frame h hother, OrdMap.getElem?_insert_of_key, if_pos rfl]
        · intro hnone
          cases hnone
        · rintro priced' heq
          cases heq
          rw [Option.isNone_iff_eq_none, ← Option.not_isSome_iff_eq_none, not_not] at haverage
          exact haverage

section

variable [Text.Unicode] {store : CandleReads F} {deltas : List (VirtualDelta F)} {stop : Int}

omit [F64 F] in
/-- Every scheduled slice has its delta among the priced ones, once. -/
theorem priceDeltas_spec {entries : List (Nat × VirtualDelta F × Option (MinutePrices F))}
    (h : priceDeltas store (scheduledSlices deltas stop) = .ok entries) :
    (entries.map Prod.fst).Nodup ∧ ∀ slice ∈ scheduledSlices deltas stop,
      ∃ prices, slice.delta.prices store = .ok prices ∧
        (slice.index, slice.delta, prices) ∈ entries := by
  unfold priceDeltas at h
  generalize hmap : (scheduledSlices deltas stop).foldl (fun deltas slice =>
    deltas.insert slice.index slice.delta) (∅ : OrdMap Nat (VirtualDelta F)) = byIndex at h
  rw [mapM_eq_ok] at h
  have hentry : ∀ (entry : Nat × VirtualDelta F)
      (result : Nat × VirtualDelta F × Option (MinutePrices F)), (do
      let prices ← (entry.2.prices store).mapError RebuildError.read
      return (entry.1, entry.2, prices) : Except RebuildError
        (Nat × VirtualDelta F × Option (MinutePrices F))) = .ok result →
      ∃ prices, entry.2.prices store = .ok prices ∧ result = (entry.1, entry.2, prices) := by
    intro entry result hresult
    obtain ⟨prices, hprices, hresult⟩ := bind_eq_ok.1 hresult
    cases hstore : entry.2.prices store with
    | error e =>
      rw [hstore] at hprices
      cases hprices
    | ok read =>
      rw [hstore] at hprices
      cases hprices
      cases hresult
      exact ⟨prices, rfl, rfl⟩
  constructor
  · have hkeys : entries.map Prod.fst = byIndex.toList.map Prod.fst := by
      clear hmap
      generalize byIndex.toList = deltas at h
      induction h with
      | nil => rfl
      | cons hhead _ ih =>
        obtain ⟨prices, -, rfl⟩ := hentry _ _ hhead
        rw [List.map_cons, List.map_cons, ih]
    rw [hkeys]
    exact OrdMap.nodup_keys_toList byIndex
  · intro slice hslice
    have hlookup : byIndex[slice.index]? = some slice.delta := by
      rw [← hmap]
      have hfold := OrdMap.getElem?_foldl_insert
        ((scheduledSlices deltas stop).map fun slice => (slice.index, slice.delta)) ∅ slice.index
        slice.delta (List.mem_map.2 ⟨slice, hslice, rfl⟩) (by
          intro delta hdelta
          obtain ⟨other, hother, heq⟩ := List.mem_map.1 hdelta
          rw [Prod.mk.injEq] at heq
          rw [← heq.2]
          exact delta_of_index hother hslice heq.1)
      rwa [List.foldl_map] at hfold
    obtain ⟨result, hresult, hok⟩ := exists_right_of_forall₂ h (OrdMap.mem_toList.2 hlookup)
    obtain ⟨prices, hprices, rfl⟩ := hentry _ _ hok
    exact ⟨prices, hprices, hresult⟩

/-- What the run knows of its slices. -/
structure Scheduled (store : CandleReads F) (slices : List (Slice F)) (schedules : Schedules F) :
    Prop where
  price : ∀ slice ∈ slices, schedules.price slice = slice.price store
  quantity : ∀ slice ∈ slices, schedules.quantity slice = slice.quantity store

/-- A slice whose delta has all its prices. -/
def Slice.Complete (slice : Slice F) (store : CandleReads F) : Prop :=
  ∃ priced, slice.delta.prices store = .ok (some priced) ∧ priced.average.isSome

theorem scheduled_of_collect {entries : List (Nat × VirtualDelta F × Option (MinutePrices F))}
    {output : TheoreticalNavTimeline F} {schedules : Schedules F}
    (hpriced : priceDeltas store (scheduledSlices deltas stop) = .ok entries)
    (hcollect : collectSchedules entries .empty ∅ = .inr (output, schedules)) :
    Scheduled store (scheduledSlices deltas stop) schedules ∧ output.points = [] ∧
      (output.missingPriceCount = 0 → ∀ slice ∈ scheduledSlices deltas stop,
        slice.Complete store) := by
  obtain ⟨hnodup, hslices⟩ := priceDeltas_spec hpriced
  obtain ⟨hpoints, -, hentries⟩ := collectSchedules_inr hcollect hnodup fun entry _ =>
    Std.ExtTreeMap.getElem?_empty
  have hlookup : ∀ slice ∈ scheduledSlices deltas stop,
      schedules[slice.index]? = slice.priced store := by
    intro slice hslice
    obtain ⟨prices, hprices, hmem⟩ := hslices slice hslice
    rw [(hentries _ hmem).1]
    unfold Slice.priced
    rw [hprices]
    rfl
  refine ⟨⟨fun slice hslice => ?_, fun slice hslice => ?_⟩, hpoints, fun hcount slice hslice => ?_⟩
  · unfold Schedules.price Slice.price
    rw [hlookup slice hslice]
  · unfold Schedules.quantity Slice.quantity
    rw [hlookup slice hslice]
  · obtain ⟨prices, hprices, hmem⟩ := hslices slice hslice
    obtain ⟨-, hnone, haverage⟩ := hentries _ hmem
    cases prices with
    | none =>
      have hlt := hnone rfl
      rw [hcount] at hlt
      exact absurd hlt (Nat.not_lt_zero _)
    | some priced => exact ⟨priced, hprices, haverage priced rfl⟩

end

end CtaManager.Theoretical
