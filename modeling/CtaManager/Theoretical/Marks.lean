import CtaManager.Library.OrdMapRange
import CtaManager.Theoretical.SlicePrices

/-!
The marks of the theoretical curve.

A mark is the close of the minute that closed last (`LatestMark`); the binary search of the
source finds it because a scan lists its candles in order.  The carried inventory enters the
window at the marks of the start (`openPositions_spec`).
-/

namespace CtaManager.Theoretical

open Check Candles

section

variable {F : Type}

/-- The close of the candle that ended last at `ts`, less than a minute before. -/
def LatestMark [Text.Unicode] (store : CandleReads F) (start stop : Int) (key : MarketKey) (ts : Int)
    (price : F) : Prop :=
  ∃ symbol bars candle, marketKey key.venue key.symbol = .ok symbol ∧
    store.scan symbol (floorMinute start - MINUTE_US) stop = .ok bars ∧ candle ∈ bars ∧
    candle.endTsUs ≤ ts ∧ ts < candle.endTsUs + MINUTE_US ∧
    (∀ other ∈ bars, other.endTsUs ≤ ts → other.openTsUs ≤ candle.openTsUs) ∧
    price = candle.close

theorem closedMark_latest {bars : List (Kline F)} {ts : Int} {price : F}
    (hsorted : bars.Pairwise fun a b => a.openTsUs < b.openTsUs)
    (h : closedMark bars ts = some price) :
    ∃ candle ∈ bars, candle.endTsUs ≤ ts ∧ ts < candle.endTsUs + MINUTE_US ∧
      (∀ other ∈ bars, other.endTsUs ≤ ts → other.openTsUs ≤ candle.openTsUs) ∧
      price = candle.close := by
  have hpartitioned : PartitionPoint.Partitioned
      (fun candle : Kline F => decide (candle.endTsUs ≤ ts)) bars := by
    refine hsorted.imp fun {a b} hlt hb => ?_
    rw [decide_eq_true_eq] at hb ⊢
    unfold Kline.endTsUs at hb ⊢
    omega
  obtain ⟨-, hin, hout⟩ := PartitionPoint.partitionPoint_spec _ bars hpartitioned
  unfold closedMark at h
  split at h
  · cases h
  · next index hindex =>
    obtain ⟨candle, hcandle, h⟩ := Option.bind_eq_some_iff.1 h
    split at h
    · next hrecent =>
      cases h
      obtain ⟨hlt, rfl⟩ := List.getElem?_eq_some_iff.1 hcandle
      have hended := hin index hlt (by omega)
      rw [decide_eq_true_eq] at hended
      refine ⟨bars[index], List.getElem_mem hlt, hended, by omega, fun other hother hend => ?_, rfl⟩
      obtain ⟨place, hplace, rfl⟩ := List.getElem_of_mem hother
      -- whatever ended by then stands no later than the last one that did
      have hle : place ≤ index := by
        by_contra hlater
        have hopen := hout place hplace (by omega)
        rw [decide_eq_true_eq] at hopen
        exact hopen hend
      rcases hle.eq_or_lt with rfl | hlt'
      · exact le_rfl
      · exact (List.pairwise_iff_getElem.1 hsorted place index hplace hlt hlt').le
    · cases h

theorem scanMarkets_spec {store : CandleReads F} {symbols : OrdSet String} {start stop : Int}
    {markets : Markets F} (h : scanMarkets store symbols start stop = .ok markets)
    {symbol : String} {bars : List (Kline F)} (hbars : markets[symbol]? = some bars) :
    store.scan symbol (floorMinute start - MINUTE_US) stop = .ok bars := by
  unfold scanMarkets at h
  obtain ⟨entries, hentries, h⟩ := bind_eq_ok.1 h
  cases h
  rw [mapM_eq_ok] at hentries
  rcases OrdMap.mem_of_getElem?_foldl_insert hbars with hmem | hnone
  · obtain ⟨name, -, hscan⟩ := exists_left_of_forall₂ hentries hmem
    cases hreply : store.scan name (floorMinute start - MINUTE_US) stop with
    | error e =>
      rw [hreply] at hscan
      cases hscan
    | ok candles =>
      rw [hreply] at hscan
      cases hscan
      exact hreply
  · rw [Std.ExtTreeMap.getElem?_empty] at hnone
    cases hnone

variable [Text.Unicode]

theorem markOf_latest {store : CandleReads F} {symbols : OrdSet String} {start stop : Int}
    {markets : Markets F} (h : scanMarkets store symbols start stop = .ok markets) {key : MarketKey}
    {ts : Int} {price : F} (hmark : markOf markets key ts = .ok (some price)) :
    LatestMark store start stop key ts price := by
  unfold markOf at hmark
  cases hsymbol : marketKey key.venue key.symbol with
  | error e =>
    rw [hsymbol] at hmark
    cases hmark
  | ok symbol =>
    rw [hsymbol] at hmark
    have hbars : markets.mark symbol ts = some price := Except.ok.inj hmark
    obtain ⟨bars, hlookup, hclosed⟩ := Option.bind_eq_some_iff.1 hbars
    have hscan := scanMarkets_spec h hlookup
    obtain ⟨candle, hmem, hend, hrecent, hlatest, hprice⟩ :=
      closedMark_latest (store.sorted _ _ _ _ hscan) hclosed
    exact ⟨symbol, bars, candle, hsymbol, hscan, hmem, hend, hrecent, hlatest, hprice⟩

variable [F64 F]

/-- The mark, zero where there is none. -/
def markAt (markets : Markets F) (ts : Int) (key : MarketKey) : F :=
  (markOf markets key ts).toOption.join.getD 0

theorem markAt_eq {markets : Markets F} {ts : Int} {key : MarketKey} {price : F}
    (h : markOf markets key ts = .ok (some price)) : markAt markets ts key = price := by
  unfold markAt
  rw [h]
  rfl

/-- The position of a carried quantity. -/
def openedPosition (quantity price : F) : SymbolState F × List (FifoLot F) :=
  ({ netQuantity := quantity, realizedPnlBeforeFeeQuote := 0, estimatedTradingFeeQuote := 0
     nextLotSeq := 2 }, [{ seq := 1, quantity, entryPrice := price }])

/-- Unless a mark is missing, every carried quantity has its position. -/
theorem openPositions_spec {markets : Markets F} {start : Int} {entries : List (MarketKey × F)}
    {positions positions' : Positions F} {missing missing' : Nat}
    (h : openPositions markets start entries positions missing = .ok (positions', missing')) :
    missing ≤ missing' ∧ (missing' = missing →
      (∀ entry ∈ entries, ∃ price, markOf markets entry.1 start = .ok (some price)) ∧
      positions' = entries.foldl (fun positions entry =>
        positions.insert entry.1 (openedPosition entry.2 (markAt markets start entry.1)))
        positions) := by
  induction entries generalizing positions missing with
  | nil =>
    cases h
    exact ⟨le_rfl, fun _ => ⟨fun _ hentry => absurd hentry List.not_mem_nil, rfl⟩⟩
  | cons entry entries ih =>
    obtain ⟨key, quantity⟩ := entry
    unfold openPositions at h
    by_cases hpublic : isPublicVenue key.venue = true
    · rw [if_pos hpublic] at h
      obtain ⟨mark, hmark, h⟩ := bind_eq_ok.1 h
      cases mark with
      | none =>
        obtain ⟨hle, -⟩ := ih h
        exact ⟨by omega, fun heq => absurd heq (by omega)⟩
      | some price =>
        obtain ⟨hle, hall⟩ := ih h
        refine ⟨hle, fun heq => ?_⟩
        obtain ⟨hmarks, hpositions⟩ := hall heq
        refine ⟨List.forall_mem_cons.2 ⟨⟨price, hmark⟩, hmarks⟩, ?_⟩
        rw [hpositions, List.foldl_cons]
        dsimp only
        rw [markAt_eq hmark]
        rfl
    · rw [if_neg hpublic] at h
      obtain ⟨hle, -⟩ := ih h
      exact ⟨by omega, fun heq => absurd heq (by omega)⟩

end

end CtaManager.Theoretical
