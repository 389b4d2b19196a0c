import CtaManager.Funding.History

/-! The funding ledger has no gap and no duplicate, over every run of polls. -/

namespace CtaManager.Funding

open Check

/-- The polls of a source from empty tables, with the requests they made. -/
def observed (backend : Backend) (polls : List (Poll × Moments)) : Observed :=
  Steps.run (Observed.step backend) ⟨Db.empty, []⟩ polls

theorem observed_exact {exchange : Exchange} {backend : Backend} {polls : List (Poll × Moments)}
    (hans : ∀ p ∈ polls, ∀ symbol,
      (p.1.sync symbol).Answered exchange (p.2 symbol) symbol) :
    Exact exchange (observed backend polls).db (observed backend polls).log := by
  induction polls using List.reverseRecOn with
  | nil => exact Exact.empty
  | append_singleton polls p ih =>
    have hstep : observed backend (polls ++ [p]) =
        (observed backend polls).step backend p := by
      rw [observed, Steps.run_append]
      rfl
    rw [hstep]
    exact poll_exact (ih fun q hq => hans q (List.mem_append_left _ hq))
      (hans p (List.mem_append_right _ (List.mem_singleton_self p)))

/-- The last request that covers a millisecond is there when any does. -/
theorem exists_lastCovering {log : List Request} {r : IncomeRow}
    (h : ∃ q ∈ log, q.symbol = r.symbol ∧ q.Covers r.time) :
    ∃ q, lastCovering log r = some q ∧ q ∈ log ∧ q.symbol = r.symbol ∧ q.Covers r.time := by
  obtain ⟨q, hq, hsymbol, hcovers⟩ := h
  have hmem : q ∈ log.filter fun q => q.symbol == r.symbol && decide (q.Covers r.time) := by
    rw [List.mem_filter, Bool.and_eq_true, beq_iff_eq, decide_eq_true_eq]
    exact ⟨hq, hsymbol, hcovers⟩
  have hlast := List.getLast?_eq_some_getLast (List.ne_nil_of_mem hmem)
  have hin := List.getLast_mem (List.ne_nil_of_mem hmem)
  rw [List.mem_filter, Bool.and_eq_true, beq_iff_eq, decide_eq_true_eq] at hin
  exact ⟨_, hlast, hin⟩

/-- In every state a run of polls reaches: a row between the start and the cursor of its
symbol that was published when its range was last requested stands in the ledger; every
entry of the ledger is that of a published row of a requested range; a cursor only moves
backwards when an earlier start resets it; and a synchronisation that fails changes
nothing, unless only the acknowledgment of its commit was lost. -/
theorem funding_ledger_exact {exchange : Exchange} {backend : Backend}
    {polls : List (Poll × Moments)} (hans : ∀ p ∈ polls, ∀ symbol,
      (p.1.sync symbol).Answered exchange (p.2 symbol) symbol) :
    let o := observed backend polls
    (∀ (row : SymbolRow) (c : Int) (r : IncomeRow), o.db.symbols[r.symbol]? = some row →
      row.syncedThroughTsUs = some c → row.startTsUs ≤ 1000 * r.time → 1000 * r.time ≤ c →
      ∃ q, lastCovering o.log r = some q ∧
        (r ∈ exchange.published q.moment → Booked o.db.income r)) ∧
    (∀ (tranId : String) (entry : IncomeEntry), o.db.income[tranId]? = some entry →
      ∃ q ∈ o.log, ∃ r ∈ exchange.published q.moment, EntryOf r tranId entry ∧
        entry.symbol = q.symbol ∧ q.fromUs ≤ entry.tsUs ∧ entry.tsUs ≤ q.throughUs) ∧
    (∀ (poll : Poll) (symbol : String) (row : SymbolRow), o.db.symbols[symbol]? = some row →
      ∃ row' : SymbolRow, (o.db.poll backend poll).1.symbols[symbol]? = some row' ∧
        row'.startTsUs ≤ row.startTsUs ∧ (row'.startTsUs = row.startTsUs →
          ∀ c, row.syncedThroughTsUs = some c →
            ∃ c', row'.syncedThroughTsUs = some c' ∧ c ≤ c')) ∧
    (∀ (discovered : OrdMap String Int) (symbol : String) (row : SymbolRow),
      o.db.symbols[symbol]? = some row → ∃ row' : SymbolRow,
        (o.db.reconcileOrderHistory discovered).1.symbols[symbol]? = some row' ∧
        (row' = row ∨ row'.startTsUs < row.startTsUs ∧ row'.syncedThroughTsUs = none)) ∧
    ∀ (sync : Sync) (symbol : String) (fromUs throughUs : Int) (e : String),
      (∀ e', sync.outcome ≠ .reported e') →
      (o.db.syncSymbol backend sync symbol fromUs throughUs).2 = .error e →
      (o.db.syncSymbol backend sync symbol fromUs throughUs).1 = o.db := by
  intro o
  have hexact : Exact exchange o.db o.log := observed_exact hans
  refine ⟨fun row c r hrow hc hstart hthrough => ?_, fun tranId entry hentry => ?_,
    fun poll symbol row hrow => poll_row o.db backend poll symbol row hrow,
    fun discovered symbol row hrow => reconcile_row o.db discovered symbol row hrow,
    fun sync symbol fromUs throughUs e hout h =>
      syncSymbol_failed o.db backend sync symbol fromUs throughUs hout e h⟩
  · obtain ⟨q, hlast, hq, hsymbol, hcovers⟩ := exists_lastCovering
      (hexact.covered r.symbol row c r.time hrow hc hstart hthrough)
    exact ⟨q, hlast, fun hr => hexact.booked q hq r hr hsymbol.symm hcovers⟩
  · obtain ⟨q, hq, r, hr, hsymbol, hcovers, hE⟩ := hexact.factual tranId entry hentry
    refine ⟨q, hq, r, hr, hE, ?_⟩
    obtain ⟨-, value, -, rfl⟩ := hE
    exact ⟨hsymbol, by rw [mul_comm]; exact hcovers.1, by rw [mul_comm]; exact hcovers.2⟩

/-! ## Requests that fail -/

/-- A funding payment one second after the first order. -/
def sampleRow : IncomeRow where
  symbol := "BTCUSDT"
  asset := "USDT"
  income := "-0.25"
  time := 1700000001000
  incomeType := "FUNDING_FEE"
  tranId := .number 987

/-- A poll an hour after the first order, or later, of an exchange that lists `visible`. -/
def samplePoll (minute : Int) (visible : List IncomeRow) (outcome : CommitOutcome) : Poll where
  opened := .ok ()
  now := 1700003600000000 + minute * 60000000
  discovered := (∅ : OrdMap String Int).insert "BTCUSDT" 1700000000000000
  reconciled := .ok ()
  connected := .ok ()
  sync := fun symbol => {
    clock := 1700003600000000 + minute * 60000000
    answers := fun startMs endMs _ => .ok (visible.filter fun r =>
      r.symbol == symbol && decide (startMs ≤ r.time ∧ r.time ≤ endMs))
    outcome := outcome }
  reload := fun _ => .ok ()
  finish := .ok ()

/-- The replay of the last day lists a late row but is not stored: the row lies between
start and cursor, was published when its range was last requested, and is missing.  And
when only the acknowledgment of the commit is lost, a failed poll has moved the cursor. -/
theorem failed_replay_misses_row :
    let db := (Db.empty.poll .binance (samplePoll 0 [] .committed)).1
    let replay := samplePoll 1 [sampleRow] (.failed "connection closed")
    let after := (db.poll .binance replay).1
    let window := syncWindow 1700000000000000 (some 1700003540000000) replay.now
    after.symbols["BTCUSDT"]? = some ⟨1700000000000000, some 1700003540000000⟩ ∧
    window.1 ≤ 1000 * sampleRow.time ∧ 1000 * sampleRow.time ≤ window.2 ∧
    ((replay.sync "BTCUSDT").pages window.1 window.2 1).toOption = some [sampleRow] ∧
    after.income["987"]? = none ∧
    let lost := db.poll .binance (samplePoll 1 [sampleRow] (.reported "connection closed"))
    lost.2.isOk = false ∧
      lost.1.symbols["BTCUSDT"]? = some ⟨1700000000000000, some 1700003600000000⟩ := by
  decide +kernel

/-- The exchange publishes the row late. -/
def sampleExchange : Exchange where
  published i := if i = 0 then ∅ else {sampleRow}
  grows i j hij := by
    by_cases hi : i = 0
    · rw [if_pos hi]
      exact Set.empty_subset _
    · rw [if_neg hi, if_neg (by omega)]
  ids i r hr r' hr' _ _ := by
    by_cases hi : i = 0
    · rw [if_pos hi] at hr
      exact absurd hr (Set.notMem_empty r)
    · rw [if_neg hi] at hr hr'
      exact (Set.mem_singleton_iff.1 hr).trans (Set.mem_singleton_iff.1 hr').symm

theorem samplePoll_answered (minute : Int) (outcome : CommitOutcome) (i : Nat)
    (visible : List IncomeRow) (h : ∀ r, r ∈ visible ↔ r ∈ sampleExchange.published i)
    (symbol : String) :
    ((samplePoll minute visible outcome).sync symbol).Answered sampleExchange (fun _ => i)
      symbol := by
  intro fromUs throughUs
  refine ⟨fun _ _ _ => le_refl i, fun page l hl r => ?_⟩
  obtain rfl := (Except.ok.inj hl).symm
  rw [List.mem_filter, Bool.and_eq_true, beq_iff_eq, decide_eq_true_eq, h r]
  rfl

/-- A poll before the row is published, and one after. -/
def samplePolls : List (Poll × Moments) :=
  [(samplePoll 0 [] .committed, fun _ _ => 0), (samplePoll 1 [sampleRow] .committed, fun _ _ => 1)]

/-- The late row is booked by the next poll that succeeds. -/
theorem funding_ledger_exact_sample : Booked (observed .binance samplePolls).db.income sampleRow := by
  have hans : ∀ p ∈ samplePolls, ∀ symbol,
      (p.1.sync symbol).Answered sampleExchange (p.2 symbol) symbol := by
    intro p hp symbol
    rcases List.mem_cons.1 hp with rfl | hp
    · exact samplePoll_answered 0 _ 0 [] (fun r => by simp [sampleExchange]) symbol
    · rw [List.mem_singleton] at hp
      subst hp
      exact samplePoll_answered 1 _ 1 [sampleRow] (fun r => by simp [sampleExchange]) symbol
  obtain ⟨q, hq, hbooked⟩ := (@funding_ledger_exact sampleExchange .binance samplePolls hans).1
    ⟨1700000000000000, some 1700003600000000⟩ 1700003600000000 sampleRow (by decide +kernel)
    rfl (by decide) (by decide)
  have hmoment : (lastCovering (observed .binance samplePolls).log sampleRow).map Request.moment =
      some 1 := by decide +kernel
  rw [hq, Option.map_some, Option.some.injEq] at hmoment
  exact hbooked (by rw [hmoment]; simp [sampleExchange])

end CtaManager.Funding
