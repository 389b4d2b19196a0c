import CtaManager.Funding.Income
import CtaManager.Library.StableSort

/-!
The funding ledger of one source (`funding.rs`).

`Db` holds the rows of the source and venue in the three funding tables.  A poll first
records the start of every symbol, then synchronises each symbol whose window is not
empty, one chunk of at most seven days, and stores the rows of the chunk together with
the new cursor in one transaction.  What a poll meets outside of the database (its
clock, the answers of the exchange, failures) is its `Poll` script.

The in-memory account summary of the hub is not modelled: no query or write of the
ledger reads it.
-/

namespace CtaManager.Funding

open Check

/-! ## Tables -/

/-- A row of `cta_funding_symbols`. -/
structure SymbolRow where
  startTsUs : Int
  syncedThroughTsUs : Option Int
  deriving DecidableEq

/-- A row of `cta_funding_income`. -/
structure IncomeEntry where
  symbol : String
  asset : String
  tsUs : Int
  income : ℚ
  deriving DecidableEq

structure Db where
  accountStart : Option Int
  symbols : OrdMap String SymbolRow
  income : OrdMap String IncomeEntry

def Db.empty : Db := ⟨none, ∅, ∅⟩

def DAY_US : Int := 86400000000

/-! ## The start of a symbol -/

/-- The upsert of one symbol: an earlier start reopens the history. -/
def registerSymbol (start firstOrder : Int) (row : Option SymbolRow) : SymbolRow :=
  let start := max start firstOrder
  match row with
  | none => { startTsUs := start, syncedThroughTsUs := none }
  | some row =>
    if start < row.startTsUs then { startTsUs := start, syncedThroughTsUs := none } else row

/-- The first orders the poll was told, without those at or before 0. -/
def firstOrders (discovered : OrdMap String Int) : List (String × Int) :=
  discovered.toList.filter fun p => decide (0 < p.2)

/-- The account row after its upsert. -/
def earliestStart (accountStart : Option Int) (discovered : OrdMap String Int) : Option Int :=
  match ((firstOrders discovered).map Prod.snd).min? with
  | none => accountStart
  | some requested =>
    match accountStart with
    | none => some requested
    | some start => if requested < start then some requested else some start

/-- `reconcile_order_history`: one transaction. -/
def Db.reconcileOrderHistory (db : Db) (discovered : OrdMap String Int) : Db × Option Int :=
  let start := earliestStart db.accountStart discovered
  match start with
  | none => ({ db with accountStart := start }, none)
  | some s =>
    ({ db with
        accountStart := start
        symbols := (firstOrders discovered).foldl
          (fun m p => m.upsert p.1 (registerSymbol s p.2)) db.symbols }, start)

/-! ## The window of a symbol -/

/-- `sync_window`; the division of `i64` truncates. -/
def syncWindow (start : Int) (cursor : Option Int) (now : Int) : Int × Int :=
  let fromUs := match cursor with
    | none => start
    | some ts => if now - 2 * DAY_US ≤ ts then max start (ts - DAY_US) else ts + 1000
  let fromUs := ((fromUs + 999).tdiv 1000) * 1000
  (fromUs, min (fromUs + 7 * DAY_US - 1000) ((now.tdiv 1000 - 60000) * 1000))

/-! ## Storing a chunk -/

/-- How the transaction of `persist_chunk` ends.  An acknowledgment can be lost after
the commit took effect. -/
inductive CommitOutcome where
  | committed
  | failed (e : String)
  | reported (e : String)
  deriving DecidableEq

/-- `INSERT … ON CONFLICT DO NOTHING`. -/
def insertIncome (symbol : String) (income : OrdMap String IncomeEntry) (item : ValidIncome) :
    Except String (OrdMap String IncomeEntry) := do
  let value ← numeric item.income
  let entry : IncomeEntry :=
    { symbol := symbol, asset := item.asset, tsUs := item.tsUs, income := value }
  return if income.contains item.tranId then income else income.insert item.tranId entry

def advanceCursor (through : Int) (row : SymbolRow) : SymbolRow :=
  { row with syncedThroughTsUs := some (max (row.syncedThroughTsUs.getD 0) through) }

/-- The database the transaction of `persist_chunk` commits. -/
def Db.storeChunk (db : Db) (symbol : String) (through : Int) (records : List ValidIncome) :
    Except String Db := do
  let income ← records.foldlM (insertIncome symbol) db.income
  return { db with
    income := income
    symbols := match db.symbols[symbol]? with
      | none => db.symbols
      | some row => db.symbols.insert symbol (advanceCursor through row) }

def Db.persistChunk (db : Db) (symbol : String) (through : Int) (records : List ValidIncome)
    (outcome : CommitOutcome) : Db × Except String Unit :=
  match db.storeChunk symbol through records with
  | .error e => (db, .error e)
  | .ok db' =>
    match outcome with
    | .committed => (db', .ok ())
    | .failed e => (db, .error e)
    | .reported e => (db', .error e)

/-! ## Synchronising a symbol -/

inductive Backend where
  | binance
  | rapidx (portfolio : Nat)

/-- What one `sync_symbol` meets: its own reading of the clock, what the exchange lists
from one millisecond through another at each page request, and how the transaction
ends. -/
structure Sync where
  clock : Int
  answers : Int → Int → Nat → Except String (List IncomeRow)
  outcome : CommitOutcome

/-- The answers for the range of a chunk. -/
def Sync.pages (sync : Sync) (fromUs throughUs : Int) : Nat → Except String (List IncomeRow) :=
  sync.answers ((fromUs + 999).tdiv 1000) (throughUs.tdiv 1000)

/-- The records the requests of `sync_symbol` collect. -/
def Sync.records (sync : Sync) (backend : Backend) (symbol : String) (fromUs throughUs : Int) :
    Except String (List ValidIncome) :=
  match backend with
  | .binance => do
    ensure (decide (sync.clock - 89 * DAY_US ≤ fromUs))
      ("funding cursor is outside Binance income retention; explicit observation-start " ++
        "maintenance is required")
    collectPages symbol fromUs throughUs (sync.pages fromUs throughUs) 100 1 (∅, [])
  | .rapidx portfolio => do
    ensure (decide (sync.clock - 89 * DAY_US ≤ fromUs))
      "funding cursor is outside RapidX statement retention; cursor retained"
    collectStatements portfolio symbol fromUs throughUs (sync.pages fromUs throughUs) 100 1 none
      (∅, [])

/-- `sync_symbol`. -/
def Db.syncSymbol (db : Db) (backend : Backend) (sync : Sync) (symbol : String)
    (fromUs throughUs : Int) : Db × Except String Unit :=
  match sync.records backend symbol fromUs throughUs with
  | .error e => (db, .error e)
  | .ok records => db.persistChunk symbol throughUs records sync.outcome

/-! ## A poll -/

/-- What one poll meets.  `opened` is the check of the settings, `reconciled` the
transaction of `reconcile_order_history`, `connected` everything before the symbols are
read; `reload symbol` is the reload after the symbol and `finish` the last one. -/
structure Poll where
  opened : Except String Unit
  now : Int
  discovered : OrdMap String Int
  reconciled : Except String Unit
  connected : Except String Unit
  sync : String → Sync
  reload : String → Except String Unit
  finish : Except String Unit

/-- `NULLS FIRST`. -/
def cursorKey (p : String × SymbolRow) : WithBot Int :=
  match p.2.syncedThroughTsUs with
  | none => ⊥
  | some ts => ts

/-- The rows of `cta_funding_symbols`, unsynchronised symbols first. -/
def Db.cursors (db : Db) : List (String × SymbolRow) :=
  StableSort.stableSort cursorKey db.symbols.toList

/-- The loop of `poll`, with the failures so far. -/
def pollSymbols (backend : Backend) (poll : Poll) :
    Db → List String → List (String × SymbolRow) → Db × Except String (List String)
  | db, failures, [] => (db, .ok failures)
  | db, failures, (symbol, row) :: rows =>
    let window := syncWindow row.startTsUs row.syncedThroughTsUs poll.now
    if window.2 < window.1 then pollSymbols backend poll db failures rows
    else
      match db.syncSymbol backend (poll.sync symbol) symbol window.1 window.2 with
      | (db, .error e) => pollSymbols backend poll db (failures ++ [e]) rows
      | (db, .ok _) =>
        match poll.reload symbol with
        | .error e => (db, .error e)
        | .ok _ => pollSymbols backend poll db failures rows

/-- The end of `poll`. -/
def pollResult (poll : Poll) (failures : Except String (List String)) : Except String Unit := do
  let failures ← failures
  poll.finish
  ensure failures.isEmpty ("funding symbol sync failed: " ++ "; ".intercalate failures)

/-- `FundingHub::poll`. -/
def Db.poll (db : Db) (backend : Backend) (poll : Poll) : Db × Except String Unit :=
  match poll.opened >>= fun _ => poll.reconciled with
  | .error e => (db, .error e)
  | .ok _ =>
    match db.reconcileOrderHistory poll.discovered with
    | (db, none) => (db, .ok ())
    | (db, some _) =>
      match poll.connected with
      | .error e => (db, .error e)
      | .ok _ =>
        match pollSymbols backend poll db [] db.cursors with
        | (db, failures) => (db, pollResult poll failures)

end CtaManager.Funding
