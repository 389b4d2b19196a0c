import CtaManager.Nav.State

/-!
What a timeline reads off the replay states of its sources (`nav.rs`): totals
by symbol and by strategy, the residual that no strategy ledger explains, and
position values.
-/

namespace CtaManager

variable {F : Type} [F64 F]

/-- `totals.entry(key).or_default().add(amount)`. -/
def addTotals {K : Type} [LinearOrder K] (totals : OrdMap K (NavTotals F)) (key : K)
    (amount : NavTotals F) : OrdMap K (NavTotals F) :=
  OrdMap.upsert totals key fun o => (o.getD NavTotals.zero).add amount

/-- `(String, String)`: a symbol of a strategy. -/
structure StrategySymbol where
  strategy : String
  symbol : String
  deriving DecidableEq, Repr

instance : LinearOrder StrategySymbol :=
  LinearOrder.lift' (fun k => toLex (k.strategy, k.symbol)) (by
    rintro ⟨a, b⟩ ⟨c, d⟩ h
    simpa using h)

namespace TimelineSourceState

/-- The report of an account ledger at the latest mark. -/
def accountReport (runtime : TimelineSourceState F) (market : Market) (state : VenueState F) :
    VenueNavReport F :=
  state.report runtime.latestMarks[market]?

def timelineTotalsBySymbol (runtimes : List (TimelineSourceState F)) :
    OrdMap String (NavTotals F) :=
  runtimes.foldl (fun totals runtime =>
    runtime.states.toList.foldl (fun totals p =>
      addTotals totals p.1.symbol (runtime.accountReport p.1 p.2).totals) totals) ∅

/-- `report.long_position_value_quote.abs() + report.short_position_value_quote.abs()`. -/
def grossValue (report : VenueNavReport F) : F :=
  F64.abs report.longPositionValueQuote + F64.abs report.shortPositionValueQuote

def timelinePositionValues (runtimes : List (TimelineSourceState F))
    (selectedSymbols : List String) : F × F :=
  let values := runtimes.foldl (fun values runtime =>
    runtime.states.toList.foldl (fun (values : F × F) p =>
      if selectedSymbols.contains p.1.symbol then
        let report := runtime.accountReport p.1 p.2
        (values.1 + grossValue report, values.2 + report.netPositionValueQuote)
      else values) values) (0, 0)
  (cleanZero values.1, cleanZero values.2)

def timelinePositionValuesBySymbol (runtimes : List (TimelineSourceState F)) :
    OrdMap String (F × F) :=
  let values : OrdMap String (F × F) := runtimes.foldl (fun values runtime =>
    runtime.states.toList.foldl (fun values p =>
      OrdMap.upsert values p.1.symbol fun o =>
        let report := runtime.accountReport p.1 p.2
        ((o.getD (0, 0)).1 + grossValue report,
          (o.getD (0, 0)).2 + report.netPositionValueQuote)) values) ∅
  values.map fun _ value => (cleanZero value.1, cleanZero value.2)

/-! ## The residual -/

/-- What the strategy ledgers of a market add up to. -/
def attributedTotals (runtime : TimelineSourceState F) : OrdMap Market (NavTotals F) :=
  runtime.strategyStates.toList.foldl (fun attributed p =>
    addTotals attributed p.1.market (runtime.accountReport p.1.market p.2).totals) ∅

/-- The residual of one market. -/
def residualTotals (runtime : TimelineSourceState F) (market : Market) : NavTotals F :=
  let account := (runtime.states[market]?).elim NavTotals.zero fun state =>
    (runtime.accountReport market state).totals
  account.difference ((runtime.attributedTotals[market]?).getD NavTotals.zero)

/-- The markets with an account ledger or a strategy ledger, in order. -/
def ledgerMarkets (runtime : TimelineSourceState F) : OrdSet Market :=
  runtime.strategyStates.toList.foldl (fun keys p => keys.insert p.1.market)
    (runtime.states.toList.foldl (fun keys p => keys.insert p.1) ∅)

def unallocatedSymbolTotals (runtime : TimelineSourceState F) : OrdMap String (NavTotals F) :=
  if !runtime.strategyAllocationActive then ∅
  else
    runtime.ledgerMarkets.toList.foldl (fun totals market =>
      addTotals totals market.symbol (runtime.residualTotals market)) ∅

/-- Residual base quantities by market: the account less the strategies. -/
def unallocatedVenueQuantities (runtime : TimelineSourceState F) (selectedSymbols : List String) :
    OrdMap Market F :=
  if !runtime.strategyAllocationActive then ∅
  else
    let account : OrdMap Market F := runtime.states.toList.foldl (fun quantities p =>
      if selectedSymbols.contains p.1.symbol then
        OrdMap.upsert quantities p.1 fun o => o.getD 0 + (p.2.report none).netQuantity
      else quantities) ∅
    runtime.strategyStates.toList.foldl (fun quantities p =>
      if selectedSymbols.contains p.1.market.symbol then
        OrdMap.upsert quantities p.1.market fun o => o.getD 0 - (p.2.report none).netQuantity
      else quantities) account

/-! ## Strategies -/

def strategySymbolTotals (totals : OrdMap StrategySymbol (NavTotals F))
    (runtime : TimelineSourceState F) : OrdMap StrategySymbol (NavTotals F) :=
  let totals := runtime.strategyStates.toList.foldl (fun totals p =>
    addTotals totals ⟨p.1.strategy, p.1.market.symbol⟩
      (runtime.accountReport p.1.market p.2).totals) totals
  runtime.unallocatedSymbolTotals.toList.foldl (fun totals p =>
    addTotals totals ⟨UNALLOCATED_STRATEGY, p.1⟩ p.2) totals

def timelineTotalsByStrategySymbol (runtimes : List (TimelineSourceState F)) :
    OrdMap StrategySymbol (NavTotals F) :=
  runtimes.foldl strategySymbolTotals ∅

/-- `strategy_totals`: the totals of one strategy of a source. -/
def strategyTotals (runtime : TimelineSourceState F) (strategyName : String) : NavTotals F :=
  if strategyName == UNALLOCATED_STRATEGY then
    (runtime.unallocatedSymbolTotals.toList.foldl (fun totals p => totals.add p.2)
      NavTotals.zero).cleaned
  else
    (runtime.strategyStates.toList.foldl (fun totals p =>
      if p.1.strategy == strategyName then
        totals.add (runtime.accountReport p.1.market p.2).totals
      else totals) NavTotals.zero).cleaned

/-- The symbols with a position, and the gross and net position value. -/
structure PositionValues (F : Type) where
  symbols : OrdSet String
  gross : F
  net : F

/-- The residual quantities of a source, valued at the latest mark or, without
one, at the account's latest fill. -/
def addUnallocatedValues (selectedSymbols : List String) (values : PositionValues F)
    (runtime : TimelineSourceState F) : PositionValues F :=
  (runtime.unallocatedVenueQuantities selectedSymbols).toList.foldl (fun values p =>
    if F64.abs p.2 ≤ F64.eps12 then values
    else
      match (runtime.latestMarks[p.1]?).or
          ((runtime.states[p.1]?).map VenueState.latestFillPrice) with
      | none => values
      | some mark =>
        { symbols := values.symbols.insert p.1.symbol
          gross := values.gross + F64.abs p.2 * mark
          net := values.net + p.2 * mark }) values

/-- Arithmetic dust of a reserved owner is no exposure. -/
def isDust (strategy : String) (report : VenueNavReport F) : Bool :=
  (strategy == INITIAL_POSITION_STRATEGY || isSystemPositionClose strategy) &&
    decide (grossValue report < F64.eps8)

def addStrategyValues (strategy : String) (selectedSymbols : List String)
    (values : PositionValues F) (runtime : TimelineSourceState F) : PositionValues F :=
  runtime.strategyStates.toList.foldl (fun values p =>
    if p.1.strategy == strategy && selectedSymbols.contains p.1.market.symbol then
      let report := runtime.accountReport p.1.market p.2
      if isDust strategy report then values
      else
        { symbols :=
            if F64.eps12 < F64.abs report.longQuantity ∨
                F64.eps12 < F64.abs report.shortQuantity then
              values.symbols.insert p.1.market.symbol
            else values.symbols
          gross := values.gross + grossValue report
          net := values.net + report.netPositionValueQuote }
    else values) values

def timelineStrategyPositionValues (strategy : String) (runtimes : List (TimelineSourceState F))
    (selectedSymbols : List String) : Nat × F × F :=
  let start : PositionValues F := { symbols := ∅, gross := 0, net := 0 }
  let values := runtimes.foldl
    (if strategy == UNALLOCATED_STRATEGY then addUnallocatedValues selectedSymbols
      else addStrategyValues strategy selectedSymbols) start
  (values.symbols.size, cleanZero values.gross, cleanZero values.net)

/-! ## Symbol reports -/

def timelineSymbolReports (runtimes : List (TimelineSourceState F)) :
    List (AggregateSymbolNavReport F) :=
  let aggregate : OrdMap String (AggregateSymbolBuilder F) := runtimes.foldl
    (fun aggregate runtime =>
      (symbolBuilders runtime.states fun market => runtime.latestMarks[market]?).toList.foldl
        (fun aggregate p => OrdMap.upsert aggregate p.1 fun o =>
          (o.getD AggregateSymbolBuilder.empty).push (p.2.finish p.1)) aggregate) ∅
  aggregate.toList.map fun p => p.2.finish p.1

end TimelineSourceState

end CtaManager
