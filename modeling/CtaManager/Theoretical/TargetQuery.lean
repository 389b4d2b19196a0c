import CtaManager.Library.PartitionPoint
import CtaManager.Library.StableSort
import CtaManager.Theoretical.TargetCoherence

/-!
What a query reads of the target cache (`query_inputs` of `theoretical_nav.rs`).

A binary search over the positions of each market finds the deltas of the window, and the
running quantity in front of them is the inventory the window opens with.  The positions found
are those of a plain scan over all deltas (`selectPositions_eq`), and the inventory is the sum of
the deltas the scan leaves out (`selectPositions_carry`).
-/

namespace CtaManager.Theoretical

open Check Candles PartitionPoint StableSort RunningFold Archive Steps

structure TheoreticalFeeRates (F : Type) where
  default : F
  byQuote : OrdMap String F
  takerDefault : F
  takerByQuote : OrdMap String F

structure TargetQuery where
  endUs : Int
  sourceIds : List String
  strategy : Option String
  navStart : Option Int
  receivedStart : Option Int
  /-- the model of each source -/
  models : String → ExecutionModel

inductive QueryError
  | missingFee (sourceId : String)
  | invalidFee
  deriving DecidableEq

section

variable {F : Type}

def TheoreticalFeeRates.takerForSymbol (fees : TheoreticalFeeRates F) (symbol : String) : F :=
  (fees.takerByQuote[symbolQuote symbol]?).getD fees.takerDefault

def TheoreticalFeeRates.forSymbol (fees : TheoreticalFeeRates F) (symbol : String) : F :=
  (fees.byQuote[symbolQuote symbol]?).getD fees.default

namespace TargetQuery

def includes (q : TargetQuery) (sourceId : String) : Bool :=
  q.sourceIds.isEmpty || q.sourceIds.contains sourceId

/-- Is a delta of the source in front of the window? -/
def before (q : TargetQuery) (sourceId : String) (delta : VirtualDelta F) : Bool :=
  match q.navStart with
  | some start => decide (delta.executionTsUsFor (q.models sourceId) < start)
  | none => q.receivedStart.any fun start => decide (delta.receivedAtUs < start)

def endIndex (q : TargetQuery) (values : List (VirtualDelta F)) (index : MarketDeltaIndex F) : Nat :=
  partitionPoint (fun position => (values[position]?).any fun delta =>
    decide (delta.receivedAtUs ≤ q.endUs)) index.positions

def firstIndex (q : TargetQuery) (values : List (VirtualDelta F)) (market : MarketKey)
    (index : MarketDeltaIndex F) : Nat :=
  if q.navStart.isSome || q.receivedStart.isSome then
    partitionPoint (fun position => (values[position]?).any (q.before market.sourceId))
      (index.positions.take (q.endIndex values index))
  else 0

variable [F64 F]

/-- One market of a part of the cache: the inventory in front of the window, and the positions
in it. -/
def selectMarket (q : TargetQuery) (tail : Bool) (values : List (VirtualDelta F))
    (acc : OrdMap MarketKey F × List (Bool × Nat)) (entry : MarketKey × MarketDeltaIndex F) :
    OrdMap MarketKey F × List (Bool × Nat) :=
  if q.includes entry.1.sourceId then
    let last := q.endIndex values entry.2
    let first := q.firstIndex values entry.1 entry.2
    (if q.navStart.isSome && decide (0 < first) then
      acc.1.upsert entry.1 fun quantity =>
        quantity.getD 0 + (entry.2.cumulativeQuantity[first - 1]?).getD 0
    else acc.1,
    acc.2 ++ ((entry.2.positions.take last).drop first).map fun position => (tail, position))
  else acc

def selectPositions (q : TargetQuery) (cache : TargetCacheState F) :
    OrdMap MarketKey F × List (Bool × Nat) :=
  cache.tailMarkets.toList.foldl (q.selectMarket true cache.tailDeltas)
    (cache.markets.toList.foldl (q.selectMarket false cache.deltas) (∅, []))

/-- The model of its source, and the fee where it was not archived. -/
def resolve (q : TargetQuery) (fees : OrdMap String (TheoreticalFeeRates F))
    (delta : VirtualDelta F) : Except QueryError (VirtualDelta F) := do
  let executionModel := q.models delta.sourceId
  if executionModel = .instantTaker then
    match delta.archivedTakerFeeRate.or
        ((fees[delta.sourceId]?).map fun fees => fees.takerForSymbol delta.symbol) with
    -- the fee is not a number
    | none => .error .invalidFee
    | some feeRate =>
      ensure (F64.isFinite feeRate) .invalidFee
      return { delta with executionModel, feeRate, legacyFee := delta.archivedTakerFeeRate.isNone }
  else
    let feeRate ←
      if delta.legacyFee then
        match fees[delta.sourceId]? with
        | none => .error (.missingFee delta.sourceId)
        | some fees => .ok (fees.forSymbol delta.symbol)
      else .ok delta.feeRate
    ensure (F64.isFinite feeRate) .invalidFee
    return { delta with executionModel, feeRate }

/-- Deltas of the sources and of the strategy asked for. -/
def wants (q : TargetQuery) (delta : VirtualDelta F) : Bool :=
  q.includes delta.sourceId && q.strategy.all fun name => name == delta.strategyName

/-- The deltas at some positions. -/
def deltasAt (cache : TargetCacheState F) (selected : List (Bool × Nat)) : List (VirtualDelta F) :=
  selected.filterMap fun position =>
    (if position.1 then cache.tailDeltas else cache.deltas)[position.2]?

/-- `query_inputs`. -/
def queryInputs (q : TargetQuery) (fees : OrdMap String (TheoreticalFeeRates F))
    (cache : TargetCacheState F) :
    Except QueryError (List (VirtualDelta F) × OrdMap MarketKey F × Nat) := do
  let (carry, selected) := q.selectPositions cache
  let deltas ← ((deltasAt cache (stableSort (fun position => toLex position) selected)).filter
    q.wants).mapM (q.resolve fees)
  return (deltas, carry.filter fun _ quantity => !(cleanZero quantity == 0), cache.revision)

end TargetQuery

end

/-! ## Positions in the order of their times -/

section

variable {F : Type}

/-- In the order of their times. -/
def InOrder (values : List (VirtualDelta F)) : Prop :=
  values.Pairwise fun a b => a.receivedAtUs ≤ b.receivedAtUs

/-- A test that later deltas fail once one has. -/
def Earlier (p : VirtualDelta F → Bool) : Prop :=
  ∀ a b : VirtualDelta F, a.receivedAtUs ≤ b.receivedAtUs → p b = true → p a = true

theorem mem_ofMarket {market : MarketKey} {values : List (VirtualDelta F)} {delta : VirtualDelta F}
    {position : Nat} :
    (delta, position) ∈ ofMarket market values ↔
      values[position]? = some delta ∧ delta.market = market := by
  unfold ofMarket
  rw [List.mem_filter, List.mem_zipIdx_iff_getElem?, decide_eq_true_eq]

theorem ascending_positions (values : List (VirtualDelta F)) (p : VirtualDelta F × Nat → Bool) :
    ((values.zipIdx.filter p).map Prod.snd).Pairwise (· < ·) := by
  refine List.Pairwise.sublist (List.Sublist.map _ List.filter_sublist) ?_
  rw [List.zipIdx_map_snd]
  exact List.pairwise_lt_range' ..

theorem mem_positions {market : MarketKey} {values : List (VirtualDelta F)} {position : Nat} :
    position ∈ (ofMarket market values).map Prod.snd ↔
      ∃ delta, values[position]? = some delta ∧ delta.market = market := by
  rw [List.mem_map]
  constructor
  · rintro ⟨⟨delta, position'⟩, hmem, rfl⟩
    exact ⟨delta, mem_ofMarket.1 hmem⟩
  · rintro ⟨delta, hdelta⟩
    exact ⟨(delta, position), mem_ofMarket.2 hdelta, rfl⟩

/-- Ascending positions are partitioned by a test of times. -/
theorem partitioned_positions {values : List (VirtualDelta F)} (hvalues : InOrder values)
    {p : VirtualDelta F → Bool} (hp : Earlier p) {positions : List Nat}
    (hpositions : positions.Pairwise (· < ·)) (hmem : ∀ i ∈ positions, i < values.length) :
    Partitioned (fun position => (values[position]?).any p) positions := by
  refine hpositions.imp_of_mem fun {i j} hi hj hlt hpj => ?_
  have hj' := hmem j hj
  have hi' := hmem i hi
  simp only [List.getElem?_eq_getElem hj', List.getElem?_eq_getElem hi', Option.any_some] at hpj ⊢
  exact hp _ _ (List.pairwise_iff_getElem.1 hvalues i j hi' hj' hlt) hpj

theorem earlier_end (q : TargetQuery) :
    Earlier fun delta : VirtualDelta F => decide (delta.receivedAtUs ≤ q.endUs) := by
  intro a b hle hb
  rw [decide_eq_true_eq] at hb ⊢
  exact hle.trans hb

theorem earlier_before (q : TargetQuery) (sourceId : String) :
    Earlier fun delta : VirtualDelta F => q.before sourceId delta := by
  intro a b hle hb
  simp only at hb ⊢
  unfold TargetQuery.before at hb ⊢
  cases hstart : q.navStart with
  | some start =>
    rw [hstart] at hb
    simp only [decide_eq_true_eq] at hb ⊢
    refine lt_of_le_of_lt ?_ hb
    unfold VirtualDelta.executionTsUsFor
    by_cases hmodel : q.models sourceId = .instantTaker
    · rw [if_pos hmodel, if_pos hmodel]
      exact hle
    · rw [if_neg hmodel, if_neg hmodel]
      unfold ExecutionModel.openTsUs
      rw [if_neg hmodel, if_neg hmodel]
      have := firstCompleteOpen_mono hle
      omega
  | none =>
    rw [hstart] at hb
    simp only at hb ⊢
    cases hreceived : q.receivedStart with
    | none =>
      rw [hreceived] at hb
      cases hb
    | some start =>
      rw [hreceived] at hb
      simp only [Option.any_some, decide_eq_true_eq] at hb ⊢
      omega

/-- Without a start nothing is in front of the window. -/
theorem before_eq_false {q : TargetQuery}
    (h : ¬(q.navStart.isSome || q.receivedStart.isSome) = true) (sourceId : String)
    (delta : VirtualDelta F) : q.before sourceId delta = false := by
  unfold TargetQuery.before
  cases hnav : q.navStart with
  | some start => exact absurd (by rw [hnav]; rfl) h
  | none =>
    cases hreceived : q.receivedStart with
    | some start => exact absurd (by rw [hnav, hreceived]; rfl) h
    | none => rfl

/-! ## The window of a market -/

theorem map_fst_filter_zipIdx (values : List (VirtualDelta F)) (p : VirtualDelta F → Bool) :
    (values.zipIdx.filter fun entry => p entry.1).map Prod.fst = values.filter p := by
  have hfst : values.zipIdx.map Prod.fst = values := List.zipIdx_map_fst ..
  conv_rhs => rw [← hfst, List.filter_map]
  rfl

/-- The entries of a market that pass a test of times come first. -/
theorem partitioned_ofMarket {values : List (VirtualDelta F)} (hvalues : InOrder values)
    {p : VirtualDelta F → Bool} (hp : Earlier p) (market : MarketKey) :
    Partitioned (fun entry : VirtualDelta F × Nat => (values[entry.2]?).any p)
      (ofMarket market values) := by
  have hascending : ((ofMarket market values).map Prod.snd).Pairwise (· < ·) :=
    ascending_positions values _
  have hpositions := partitioned_positions hvalues hp hascending
    fun i hi => by
      obtain ⟨delta, hdelta, -⟩ := mem_positions.1 hi
      exact (List.getElem?_eq_some_iff.1 hdelta).1
  exact List.pairwise_map.1 hpositions

theorem filter_ofMarket_any {values : List (VirtualDelta F)} {market : MarketKey}
    (p : VirtualDelta F → Bool) :
    ((ofMarket market values).filter fun entry => (values[entry.2]?).any p) =
      (ofMarket market values).filter fun entry => p entry.1 := by
  refine List.filter_congr fun entry hentry => ?_
  rw [(mem_ofMarket.1 hentry).1, Option.any_some]

end

section

variable {F : Type} [F64 F]

theorem positions_of_marketIndex {market : MarketKey} {values : List (VirtualDelta F)}
    {index : MarketDeltaIndex F} (h : marketIndex market values = some index) :
    index.positions = (ofMarket market values).map Prod.snd ∧
      index.cumulativeQuantity =
        running (· + ·) 0 ((ofMarket market values).map fun entry => entry.1.deltaQty) := by
  unfold marketIndex at h
  by_cases hempty : (ofMarket market values).isEmpty = true
  · rw [if_pos hempty] at h
    cases h
  · rw [if_neg hempty] at h
    obtain rfl := Option.some.inj h
    exact ⟨rfl, rfl⟩

/-- In front of the end of the window. -/
def TargetQuery.within (q : TargetQuery) (delta : VirtualDelta F) : Bool :=
  decide (delta.receivedAtUs ≤ q.endUs)

theorem take_endIndex {q : TargetQuery} {values : List (VirtualDelta F)} (hvalues : InOrder values)
    {market : MarketKey} {index : MarketDeltaIndex F}
    (hindex : marketIndex market values = some index) :
    (ofMarket market values).take (q.endIndex values index) =
      (ofMarket market values).filter fun entry => q.within entry.1 := by
  unfold TargetQuery.endIndex
  rw [(positions_of_marketIndex hindex).1, partitionPoint_map,
    take_partitionPoint_eq_filter _ _ (partitioned_ofMarket hvalues (earlier_end q) market),
    filter_ofMarket_any]
  rfl

theorem window_ofMarket {q : TargetQuery} {values : List (VirtualDelta F)} (hvalues : InOrder values)
    {market : MarketKey} {index : MarketDeltaIndex F}
    (hindex : marketIndex market values = some index) :
    (index.positions.take (q.endIndex values index)).drop (q.firstIndex values market index) =
        ((ofMarket market values).filter fun entry =>
          q.within entry.1 && !q.before market.sourceId entry.1).map Prod.snd ∧
      (ofMarket market values).take (q.firstIndex values market index) =
        ((ofMarket market values).filter fun entry =>
          q.within entry.1 && q.before market.sourceId entry.1) ∧
      q.firstIndex values market index ≤ (ofMarket market values).length := by
  have htake := take_endIndex (q := q) hvalues hindex
  have hpart : Partitioned (fun entry : VirtualDelta F × Nat =>
      (values[entry.2]?).any (q.before market.sourceId))
      ((ofMarket market values).take (q.endIndex values index)) :=
    (partitioned_ofMarket hvalues (earlier_before q market.sourceId) market).sublist
      (List.take_sublist _ _)
  have hcongr : ∀ p : VirtualDelta F → Bool,
      ((ofMarket market values).take (q.endIndex values index)).filter
        (fun entry => p entry.1) =
      (ofMarket market values).filter fun entry => q.within entry.1 && p entry.1 := by
    intro p
    rw [htake, List.filter_filter]
    exact List.filter_congr fun entry _ => Bool.and_comm _ _
  have hany : ∀ entry ∈ (ofMarket market values).take (q.endIndex values index),
      (values[entry.2]?).any (q.before market.sourceId) = q.before market.sourceId entry.1 := by
    intro entry hentry
    rw [(mem_ofMarket.1 (List.mem_of_mem_take hentry)).1, Option.any_some]
  rw [(positions_of_marketIndex hindex).1, ← List.map_take, ← List.map_drop]
  unfold TargetQuery.firstIndex
  by_cases hstart : (q.navStart.isSome || q.receivedStart.isSome) = true
  · rw [if_pos hstart, (positions_of_marketIndex hindex).1, ← List.map_take, partitionPoint_map]
    have hle := (partitionPoint_spec _ _ hpart).1
    have hfirst := take_partitionPoint_eq_filter _ _ hpart
    have hrest := drop_partitionPoint_eq_filter _ _ hpart
    rw [List.filter_congr (hany)] at hfirst
    rw [List.filter_congr (fun entry hentry => congrArg (!·) (hany entry hentry))] at hrest
    generalize partitionPoint (fun entry : VirtualDelta F × Nat =>
      (values[entry.2]?).any (q.before market.sourceId))
      ((ofMarket market values).take (q.endIndex values index)) = first at hle hfirst hrest
    rw [List.length_take] at hle
    refine ⟨?_, ?_, by omega⟩
    · rw [hrest, hcongr fun delta => !q.before market.sourceId delta]
    · rw [← hcongr, ← hfirst, List.take_take]
      congr 1
      omega
  · rw [if_neg hstart]
    have hnone : ∀ delta : VirtualDelta F, q.before market.sourceId delta = false :=
      before_eq_false hstart market.sourceId
    refine ⟨?_, ?_, Nat.zero_le _⟩
    · rw [List.drop_zero, htake]
      refine congrArg (List.map Prod.snd) (List.filter_congr fun entry _ => ?_)
      rw [hnone, Bool.not_false, Bool.and_true]
    · rw [List.take_zero]
      refine (List.filter_eq_nil_iff.2 fun entry _ => ?_).symm
      rw [hnone, Bool.and_false]
      exact Bool.false_ne_true

/-! ## The positions of the window -/

theorem exists_marketIndex {values : List (VirtualDelta F)} {position : Nat}
    {delta : VirtualDelta F} (h : values[position]? = some delta) :
    ∃ index, marketIndex delta.market values = some index := by
  have hmem : (delta, position) ∈ ofMarket delta.market values := mem_ofMarket.2 ⟨h, rfl⟩
  unfold marketIndex
  cases hentries : ofMarket delta.market values with
  | nil =>
    rw [hentries] at hmem
    exact absurd hmem List.not_mem_nil
  | cons entry entries => exact ⟨_, rfl⟩

/-- The positions that a scan over all deltas selects. -/
def TargetQuery.windowPositions (q : TargetQuery) (values : List (VirtualDelta F)) : List Nat :=
  (values.zipIdx.filter fun entry => q.includes entry.1.sourceId &&
    (q.within entry.1 && !q.before entry.1.sourceId entry.1)).map Prod.snd

omit [F64 F] in
theorem mem_windowPositions {q : TargetQuery} {values : List (VirtualDelta F)} {position : Nat} :
    position ∈ q.windowPositions values ↔ ∃ delta, values[position]? = some delta ∧
      q.includes delta.sourceId = true ∧ q.within delta = true ∧
        q.before delta.sourceId delta = false := by
  unfold TargetQuery.windowPositions
  rw [List.mem_map]
  constructor
  · rintro ⟨⟨delta, position'⟩, hmem, rfl⟩
    rw [List.mem_filter, List.mem_zipIdx_iff_getElem?] at hmem
    simp only [Bool.and_eq_true, Bool.not_eq_true'] at hmem
    exact ⟨delta, hmem.1, hmem.2⟩
  · rintro ⟨delta, hdelta, htest⟩
    refine ⟨(delta, position), ?_, rfl⟩
    rw [List.mem_filter, List.mem_zipIdx_iff_getElem?]
    simp only [Bool.and_eq_true, Bool.not_eq_true']
    exact ⟨hdelta, htest⟩

/-- The positions that the index of one market gives. -/
def TargetQuery.marketPositions (q : TargetQuery) (values : List (VirtualDelta F))
    (entry : MarketKey × MarketDeltaIndex F) : List Nat :=
  if q.includes entry.1.sourceId then
    (entry.2.positions.take (q.endIndex values entry.2)).drop (q.firstIndex values entry.1 entry.2)
  else []

theorem mem_marketPositions {q : TargetQuery} {values : List (VirtualDelta F)}
    (hvalues : InOrder values) {entry : MarketKey × MarketDeltaIndex F}
    (hentry : marketIndex entry.1 values = some entry.2) {position : Nat} :
    position ∈ q.marketPositions values entry ↔ ∃ delta, values[position]? = some delta ∧
      delta.market = entry.1 ∧ q.includes delta.sourceId = true ∧ q.within delta = true ∧
        q.before delta.sourceId delta = false := by
  unfold TargetQuery.marketPositions
  have hsource : ∀ delta : VirtualDelta F, delta.market = entry.1 →
      entry.1.sourceId = delta.sourceId := fun delta h => by rw [← h]; rfl
  by_cases hincludes : q.includes entry.1.sourceId = true
  · rw [if_pos hincludes, (window_ofMarket hvalues hentry).1, List.mem_map]
    constructor
    · rintro ⟨⟨delta, position'⟩, hmem, rfl⟩
      rw [List.mem_filter, mem_ofMarket] at hmem
      simp only [Bool.and_eq_true, Bool.not_eq_true'] at hmem
      obtain ⟨⟨hdelta, hmarket⟩, hwithin, hbefore⟩ := hmem
      rw [hsource delta hmarket] at hincludes hbefore
      exact ⟨delta, hdelta, hmarket, hincludes, hwithin, hbefore⟩
    · rintro ⟨delta, hdelta, hmarket, -, hwithin, hbefore⟩
      refine ⟨(delta, position), ?_, rfl⟩
      rw [List.mem_filter, mem_ofMarket]
      simp only [Bool.and_eq_true, Bool.not_eq_true']
      rw [hsource delta hmarket]
      exact ⟨⟨hdelta, hmarket⟩, hwithin, hbefore⟩
  · rw [if_neg hincludes]
    constructor
    · intro h
      exact absurd h List.not_mem_nil
    · rintro ⟨delta, -, hmarket, hincl, -⟩
      rw [hsource delta hmarket] at hincludes
      exact absurd hincl hincludes

theorem marketPositions_perm {q : TargetQuery} {values : List (VirtualDelta F)}
    (hvalues : InOrder values) {markets : OrdMap MarketKey (MarketDeltaIndex F)}
    (hindexed : Indexed values markets) :
    (markets.toList.flatMap (q.marketPositions values)).Perm (q.windowPositions values) := by
  have hentry : ∀ entry ∈ markets.toList, marketIndex entry.1 values = some entry.2 := by
    intro entry hmem
    rw [← hindexed entry.1]
    exact OrdMap.mem_toList.1 hmem
  refine (List.perm_ext_iff_of_nodup ?_ ?_).2 fun position => ?_
  · refine List.nodup_flatMap.2 ⟨fun entry hmem => ?_, ?_⟩
    · unfold TargetQuery.marketPositions
      by_cases hincludes : q.includes entry.1.sourceId = true
      · rw [if_pos hincludes]
        refine List.Nodup.sublist ((List.drop_sublist _ _).trans (List.take_sublist _ _)) ?_
        rw [(positions_of_marketIndex (hentry entry hmem)).1]
        exact (ascending_positions values _).imp fun h => ne_of_lt h
      · rw [if_neg hincludes]
        exact List.nodup_nil
    · refine (OrdMap.sorted_keys_toList markets).imp_of_mem fun {a b} ha hb hlt => ?_
      intro position hpa hpb
      obtain ⟨delta, hdelta, hmarket, -⟩ := (mem_marketPositions hvalues (hentry a ha)).1 hpa
      obtain ⟨delta', hdelta', hmarket', -⟩ := (mem_marketPositions hvalues (hentry b hb)).1 hpb
      rw [hdelta] at hdelta'
      obtain rfl := Option.some.inj hdelta'
      rw [← hmarket, ← hmarket'] at hlt
      exact lt_irrefl _ hlt
  · exact (ascending_positions values _).imp fun h => ne_of_lt h
  · rw [List.mem_flatMap, mem_windowPositions]
    constructor
    · rintro ⟨entry, hmem, hposition⟩
      obtain ⟨delta, hdelta, -, htest⟩ := (mem_marketPositions hvalues (hentry entry hmem)).1 hposition
      exact ⟨delta, hdelta, htest⟩
    · rintro ⟨delta, hdelta, htest⟩
      obtain ⟨index, hindex⟩ := exists_marketIndex hdelta
      refine ⟨(delta.market, index), OrdMap.mem_toList.2 ?_,
        (mem_marketPositions hvalues hindex).2 ⟨delta, hdelta, rfl, htest⟩⟩
      rw [hindexed delta.market]
      exact hindex

theorem foldl_selectMarket_snd (q : TargetQuery) (tail : Bool) (values : List (VirtualDelta F))
    (entries : List (MarketKey × MarketDeltaIndex F)) (acc : OrdMap MarketKey F × List (Bool × Nat)) :
    (entries.foldl (q.selectMarket tail values) acc).2 =
      acc.2 ++ (entries.flatMap (q.marketPositions values)).map fun position => (tail, position) := by
  induction entries generalizing acc with
  | nil => exact (List.append_nil _).symm
  | cons entry entries ih =>
    rw [List.foldl_cons, ih, List.flatMap_cons, List.map_append, ← List.append_assoc]
    congr 1
    unfold TargetQuery.selectMarket TargetQuery.marketPositions
    by_cases hincludes : q.includes entry.1.sourceId = true
    · rw [if_pos hincludes, if_pos hincludes]
    · rw [if_neg hincludes, if_neg hincludes, List.map_nil, List.append_nil]

/-- The two parts of a cache, each indexed and in the order of its times. -/
structure IndexedInOrder (cache : TargetCacheState F) : Prop where
  stable : Indexed cache.deltas cache.markets
  recent : Indexed cache.tailDeltas cache.tailMarkets
  stableOrder : InOrder cache.deltas
  recentOrder : InOrder cache.tailDeltas

/-- The index finds the positions of a scan, in the order of the cache. -/
theorem selectPositions_eq {cache : TargetCacheState F} (h : IndexedInOrder cache)
    (q : TargetQuery) :
    stableSort (fun position => toLex position) (q.selectPositions cache).2 =
      (q.windowPositions cache.deltas).map (fun position => (false, position)) ++
        (q.windowPositions cache.tailDeltas).map fun position => (true, position) := by
  refine List.Perm.eq_of_pairwise
    (fun a b _ _ hab hba => toLex.injective (le_antisymm hab hba))
    (sorted_stableSort (fun position : Bool × Nat => toLex position) _) ?_ ?_
  · have hpart : ∀ (tail : Bool) (values : List (VirtualDelta F)),
        ((q.windowPositions values).map fun position => (tail, position)).Pairwise
          fun a b => toLex a ≤ toLex b := by
      intro tail values
      rw [List.pairwise_map]
      refine (ascending_positions values _).imp fun hlt => ?_
      exact Prod.Lex.toLex_le_toLex.2 (Or.inr ⟨rfl, hlt.le⟩)
    refine List.pairwise_append.2 ⟨hpart false _, hpart true _, fun a ha b hb => ?_⟩
    obtain ⟨i, -, rfl⟩ := List.mem_map.1 ha
    obtain ⟨j, -, rfl⟩ := List.mem_map.1 hb
    exact Prod.Lex.toLex_le_toLex.2 (Or.inl Bool.false_lt_true)
  · refine (perm_stableSort _ _).trans ?_
    unfold TargetQuery.selectPositions
    rw [foldl_selectMarket_snd, foldl_selectMarket_snd, List.nil_append]
    exact ((marketPositions_perm h.stableOrder h.stable).map _).append
      ((marketPositions_perm h.recentOrder h.recent).map _)

/-! ## The deltas of the window -/

/-- The deltas that a scan selects. -/
def TargetQuery.selects (q : TargetQuery) (delta : VirtualDelta F) : Bool :=
  q.wants delta && (q.within delta && !q.before delta.sourceId delta)

omit [F64 F] in
theorem filterMap_windowPositions (q : TargetQuery) (values : List (VirtualDelta F)) :
    (q.windowPositions values).filterMap (fun position => values[position]?) =
      values.filter fun delta => q.includes delta.sourceId &&
        (q.within delta && !q.before delta.sourceId delta) := by
  unfold TargetQuery.windowPositions
  rw [List.filterMap_map, ← map_fst_filter_zipIdx, ← List.filterMap_eq_map]
  refine List.filterMap_congr fun entry hentry => ?_
  exact List.mem_zipIdx_iff_getElem?.1 (List.mem_filter.1 hentry).1

theorem filter_deltasAt {cache : TargetCacheState F} (h : IndexedInOrder cache) (q : TargetQuery) :
    (TargetQuery.deltasAt cache
      (stableSort (fun position => toLex position) (q.selectPositions cache).2)).filter q.wants =
      (cache.deltas ++ cache.tailDeltas).filter q.selects := by
  have hselects : ∀ values : List (VirtualDelta F),
      (values.filter fun delta => q.includes delta.sourceId &&
        (q.within delta && !q.before delta.sourceId delta)).filter q.wants =
      values.filter q.selects := by
    intro values
    rw [List.filter_filter]
    refine List.filter_congr fun delta _ => ?_
    unfold TargetQuery.selects TargetQuery.wants
    cases q.includes delta.sourceId with
    | false => rfl
    | true => rfl
  rw [selectPositions_eq h, List.filter_append, ← hselects, ← hselects, ← filterMap_windowPositions,
    ← filterMap_windowPositions, ← List.filter_append]
  congr 1
  unfold TargetQuery.deltasAt
  rw [List.filterMap_append, List.filterMap_map, List.filterMap_map]
  rfl

/-! ## The inventory in front of the window -/

/-- The quantities of a market in front of the window. -/
def TargetQuery.carried (q : TargetQuery) (values : List (VirtualDelta F)) (market : MarketKey) :
    List F :=
  (values.filter fun delta => decide (delta.market = market) &&
    (q.within delta && q.before market.sourceId delta)).map VirtualDelta.deltaQty

/-- An inventory with more quantities, if there are any. -/
def addCarried (carry : Option F) (quantities : List F) : Option F :=
  if quantities.isEmpty then carry else some (carry.getD 0 + F64.sum quantities)

/-- What the window of a market opens with: the stable part and then the recent one. -/
def TargetQuery.openingQuantity (q : TargetQuery) (cache : TargetCacheState F)
    (market : MarketKey) : Option F :=
  if q.includes market.sourceId && q.navStart.isSome then
    addCarried (addCarried none (q.carried cache.deltas market)) (q.carried cache.tailDeltas market)
  else none

omit [F64 F] in
theorem carried_eq (q : TargetQuery) (values : List (VirtualDelta F)) (market : MarketKey) :
    q.carried values market =
      ((ofMarket market values).filter fun entry =>
        q.within entry.1 && q.before market.sourceId entry.1).map fun entry => entry.1.deltaQty := by
  unfold TargetQuery.carried ofMarket
  rw [← map_fst_filter_zipIdx, List.map_map, List.filter_filter]
  refine congrArg (List.map _) (List.filter_congr fun entry _ => ?_)
  exact Bool.and_comm _ _

/-- The running quantity in front of the window is the sum of what is in front of it. -/
theorem cumulative_eq {q : TargetQuery} {values : List (VirtualDelta F)} (hvalues : InOrder values)
    {market : MarketKey} {index : MarketDeltaIndex F}
    (hindex : marketIndex market values = some index) :
    (0 < q.firstIndex values market index ↔ (q.carried values market).isEmpty = false) ∧
      (0 < q.firstIndex values market index →
        (index.cumulativeQuantity[q.firstIndex values market index - 1]?).getD 0 =
          F64.sum (q.carried values market)) := by
  obtain ⟨-, htake, hle⟩ := window_ofMarket (q := q) hvalues hindex
  rw [(positions_of_marketIndex hindex).2]
  have hcarried : q.carried values market =
      ((ofMarket market values).take (q.firstIndex values market index)).map
        fun entry => entry.1.deltaQty := by
    rw [carried_eq, htake]
  have hlength : (q.carried values market).length = q.firstIndex values market index := by
    rw [hcarried, List.length_map, List.length_take]
    omega
  refine ⟨?_, fun hpos => ?_⟩
  · rw [← hlength, List.length_pos_iff, ← Bool.not_eq_true, List.isEmpty_iff]
  · rw [getElem?_running (by rw [List.length_map]; omega), Option.getD_some, hcarried,
      Nat.sub_add_cancel hpos, List.map_take]
    rfl

theorem getElem?_selectMarket {q : TargetQuery} {tail : Bool} {values : List (VirtualDelta F)}
    (hvalues : InOrder values) {entry : MarketKey × MarketDeltaIndex F}
    (hentry : marketIndex entry.1 values = some entry.2)
    (acc : OrdMap MarketKey F × List (Bool × Nat)) (market : MarketKey) :
    ((q.selectMarket tail values acc entry).1)[market]? =
      if entry.1 = market ∧ (q.includes market.sourceId && q.navStart.isSome) = true then
        addCarried (acc.1[market]?) (q.carried values market)
      else acc.1[market]? := by
  obtain ⟨hpos, hsum⟩ := cumulative_eq (q := q) hvalues hentry
  unfold TargetQuery.selectMarket
  by_cases hmarket : entry.1 = market
  · subst hmarket
    cases hincludes : q.includes entry.1.sourceId with
    | false =>
      rw [if_neg Bool.false_ne_true, if_neg (by simp)]
    | true =>
      cases hnav : q.navStart.isSome with
      | false => simp
      | true =>
        simp only [if_true, Bool.true_and, and_self]
        unfold addCarried
        by_cases hfirst : 0 < q.firstIndex values entry.1 entry.2
        · rw [hpos.1 hfirst, if_pos (decide_eq_true hfirst), OrdMap.getElem?_upsert, if_pos rfl,
            hsum hfirst, if_neg Bool.false_ne_true]
        · have hempty : (q.carried values entry.1).isEmpty = true := by
            cases hc : (q.carried values entry.1).isEmpty with
            | true => rfl
            | false => exact absurd (hpos.2 hc) hfirst
          rw [if_neg (by simpa using hfirst), if_pos hempty]
  · have hother : ¬(entry.1 = market ∧ (q.includes market.sourceId && q.navStart.isSome) = true) :=
      fun h => hmarket h.1
    rw [if_neg hother]
    by_cases hincludes : q.includes entry.1.sourceId = true
    · rw [if_pos hincludes]
      simp only
      by_cases hcarry : (q.navStart.isSome && decide (0 < q.firstIndex values entry.1 entry.2)) = true
      · rw [if_pos hcarry, OrdMap.getElem?_upsert, if_neg hmarket]
      · rw [if_neg hcarry]
    · rw [if_neg hincludes]

theorem getElem?_foldl_selectMarket_of_ne {q : TargetQuery} {tail : Bool}
    {values : List (VirtualDelta F)} (hvalues : InOrder values) {market : MarketKey}
    {entries : List (MarketKey × MarketDeltaIndex F)}
    (hentries : ∀ entry ∈ entries, marketIndex entry.1 values = some entry.2)
    (hne : ∀ entry ∈ entries, entry.1 ≠ market) (acc : OrdMap MarketKey F × List (Bool × Nat)) :
    ((entries.foldl (q.selectMarket tail values) acc).1)[market]? = acc.1[market]? := by
  induction entries generalizing acc with
  | nil => rfl
  | cons entry entries ih =>
    rw [List.foldl_cons, ih (fun e he => hentries e (List.mem_cons_of_mem _ he))
      (fun e he => hne e (List.mem_cons_of_mem _ he)),
      getElem?_selectMarket hvalues (hentries entry List.mem_cons_self),
      if_neg fun h => hne entry List.mem_cons_self h.1]

/-- One part of the cache: what it carries of a market is added once. -/
theorem getElem?_foldl_selectMarket {q : TargetQuery} {tail : Bool}
    {values : List (VirtualDelta F)} (hvalues : InOrder values)
    {markets : OrdMap MarketKey (MarketDeltaIndex F)} (hindexed : Indexed values markets)
    (acc : OrdMap MarketKey F × List (Bool × Nat)) (market : MarketKey) :
    ((markets.toList.foldl (q.selectMarket tail values) acc).1)[market]? =
      if (q.includes market.sourceId && q.navStart.isSome) = true then
        addCarried (acc.1[market]?) (q.carried values market)
      else acc.1[market]? := by
  have hentry : ∀ entry ∈ markets.toList, marketIndex entry.1 values = some entry.2 := by
    intro entry hmem
    rw [← hindexed entry.1]
    exact OrdMap.mem_toList.1 hmem
  cases hmarket : markets[market]? with
  | none =>
    have hnone : ∀ entry ∈ markets.toList, entry.1 ≠ market := by
      rintro entry hmem rfl
      rw [OrdMap.mem_toList.1 hmem] at hmarket
      cases hmarket
    rw [getElem?_foldl_selectMarket_of_ne hvalues hentry hnone]
    -- without deltas nothing is carried
    have hempty : (q.carried values market).isEmpty = true := by
      rw [hindexed market] at hmarket
      unfold marketIndex at hmarket
      by_cases hnil : (ofMarket market values).isEmpty = true
      · rw [carried_eq, List.isEmpty_iff.1 hnil]
        rfl
      · rw [if_neg hnil] at hmarket
        cases hmarket
    unfold addCarried
    rw [if_pos hempty, ite_self]
  | some index =>
    obtain ⟨front, back, hsplit⟩ := List.append_of_mem (OrdMap.mem_toList.2 hmarket)
    have hkeys := OrdMap.sorted_keys_toList markets
    rw [hsplit] at hkeys hentry
    obtain ⟨-, hback, hcross⟩ := List.pairwise_append.1 hkeys
    rw [hsplit, List.foldl_append, List.foldl_cons,
      getElem?_foldl_selectMarket_of_ne hvalues
        (fun e he => hentry e (List.mem_append_right _ (List.mem_cons_of_mem _ he)))
        (fun e he => (ne_of_lt ((List.pairwise_cons.1 hback).1 e he)).symm),
      getElem?_selectMarket hvalues
        (hentry _ (List.mem_append_right _ List.mem_cons_self)),
      getElem?_foldl_selectMarket_of_ne hvalues
        (fun e he => hentry e (List.mem_append_left _ he))
        (fun e he => ne_of_lt (hcross e he _ List.mem_cons_self))]
    simp only [true_and]

theorem selectPositions_carry {cache : TargetCacheState F} (h : IndexedInOrder cache)
    (q : TargetQuery) (market : MarketKey) :
    (q.selectPositions cache).1[market]? = q.openingQuantity cache market := by
  unfold TargetQuery.selectPositions TargetQuery.openingQuantity
  rw [getElem?_foldl_selectMarket h.recentOrder h.recent,
    getElem?_foldl_selectMarket h.stableOrder h.stable, Std.ExtTreeMap.getElem?_empty]
  by_cases hcarries : (q.includes market.sourceId && q.navStart.isSome) = true
  · rw [if_pos hcarries, if_pos hcarries, if_pos hcarries]
  · rw [if_neg hcarries, if_neg hcarries, if_neg hcarries]

/-- The query is the scan. -/
theorem queryInputs_eq {cache : TargetCacheState F} (h : IndexedInOrder cache) (q : TargetQuery)
    (fees : OrdMap String (TheoreticalFeeRates F)) :
    ∃ carry : OrdMap MarketKey F,
      q.queryInputs fees cache = (do
        let deltas ← ((cache.deltas ++ cache.tailDeltas).filter q.selects).mapM (q.resolve fees)
        return (deltas, carry, cache.revision)) ∧
      ∀ market, carry[market]? =
        (q.openingQuantity cache market).filter fun quantity => !(cleanZero quantity == 0) := by
  refine ⟨(q.selectPositions cache).1.filter fun _ quantity => !(cleanZero quantity == 0), ?_,
    fun market => ?_⟩
  · unfold TargetQuery.queryInputs
    rw [← filter_deltasAt h q]
  · refine Option.ext fun quantity => ?_
    rw [OrdMap.getElem?_filter_eq_some, selectPositions_carry h, Option.filter_eq_some_iff]

end

/-! ## Queries of a run -/

section

variable {F : Type} [DecidableEq F] [F64 F] [Text.Unicode] {config : List TargetSource}
  {w : TargetWorld F}

omit [DecidableEq F] in
theorem TargetInv.indexedInOrder (h : TargetInv config w) (hidle : w.phase = .idle)
    (hready : w.ready = true) : IndexedInOrder w.cache := by
  obtain ⟨folded, hbase⟩ := h.base
  have htail := h.tail hidle hready
  exact ⟨hbase.indexed, htail.indexed, sorted_logDeltas (sorted_messagesOf h.stored _) hbase.deltas,
    htail.sorted⟩

/-- **A query of the cache is a scan of the archive.**  In the runs whose writes and refreshes
succeed, and when nothing was counted since the last refresh, the binary searches over the index
find the deltas that a scan of one fold over all messages up to that refresh selects, in that
order; the inventory of each market is what the scan leaves in front of the window. -/
theorem queryInputs_scan {db : ArchiveDb F} {rows : TargetRows F} (hrows : RowsOf db rows)
    {clock : Int} {actions : List (TargetAction F)}
    (h : Along (TargetWorld.step config) (TargetWorld.Succeeds config) (.start db rows clock)
      actions)
    (hw : w = run (TargetWorld.step config) (.start db rows clock) actions)
    (hidle : w.phase = .idle) (hready : w.ready = true) (hwriting : w.writing = none)
    (hrevision : w.cache.revision = w.archive.targetWrites.revision) (q : TargetQuery)
    (fees : OrdMap String (TheoreticalFeeRates F)) :
    ∃ (full : TargetCacheState F) (carry : OrdMap MarketKey F),
      foldUntil (ingestTarget config) .empty
          (messagesOf w.rows fun key => decide (key.receivedAtUs ≤ w.refreshedAtUs)) =
            (full, .ok ()) ∧
        q.queryInputs fees w.cache = (do
          let deltas ← (full.deltas.filter q.selects).mapM (q.resolve fees)
          return (deltas, carry, w.archive.targetWrites.revision)) ∧
        ∀ market, carry[market]? =
          (q.openingQuantity w.cache market).filter fun quantity => !(cleanZero quantity == 0) := by
  have hinv : TargetInv config w := hw ▸ targetInv_run hrows h
  obtain ⟨full, hfold, hdeltas, -⟩ := hinv.full hidle hready hwriting hrevision
  obtain ⟨carry, hquery, hcarry⟩ := queryInputs_eq (hinv.indexedInOrder hidle hready) q fees
  refine ⟨full, carry, hfold, ?_, hcarry⟩
  rw [hquery, hdeltas, hrevision]

end

section Sample

attribute [local instance] Text.Unicode.ascii

/-- The window opens behind the first delta. -/
def lateQuery : TargetQuery where
  endUs := 1000
  sourceIds := ["main"]
  strategy := some "live"
  navStart := some 250
  receivedStart := none
  models := fun _ => .instantTaker

def lateFees : OrdMap String (TheoreticalFeeRates ℚ) :=
  (∅ : OrdMap String (TheoreticalFeeRates ℚ)).insert "main" ⟨0, ∅, 1, ∅⟩

theorem queryInputs_scan_late :
    ∃ (full : TargetCacheState ℚ) (carry : OrdMap MarketKey ℚ),
      foldUntil (ingestTarget [sampleSource]) .empty
          (messagesOf lateWorld.rows fun key =>
            decide (key.receivedAtUs ≤ lateWorld.refreshedAtUs)) = (full, .ok ()) ∧
        lateQuery.queryInputs lateFees lateWorld.cache = (do
          let deltas ← (full.deltas.filter lateQuery.selects).mapM (lateQuery.resolve lateFees)
          return (deltas, carry, lateWorld.archive.targetWrites.revision)) ∧
        ∀ market, carry[market]? =
          (lateQuery.openingQuantity lateWorld.cache market).filter
            fun quantity => !(cleanZero quantity == 0) :=
  queryInputs_scan rowsOf_empty lateActions_succeed rfl late_idle late_ready late_writing
    late_revision lateQuery lateFees

end Sample

end CtaManager.Theoretical
