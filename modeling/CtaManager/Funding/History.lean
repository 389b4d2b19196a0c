import CtaManager.Funding.Chunks
import CtaManager.Library.Keyed
import CtaManager.Library.Steps

/-!
The funding ledger over any sequence of polls.

A run is observed together with its requests: the chunks whose rows reached the
ledger, in order, each with the moment its last page was requested.  The ledger holds
exactly the rows that were published when their range was last requested so, and the
requests of a symbol cover every millisecond from its start through its cursor
(`funding_ledger_exact`).
-/

namespace CtaManager.Funding

open Check

/-! ## Requests -/

structure Request where
  symbol : String
  fromUs : Int
  throughUs : Int
  moment : Nat

def Request.Covers (q : Request) (time : Int) : Prop :=
  q.fromUs ≤ 1000 * time ∧ 1000 * time ≤ q.throughUs

instance (q : Request) (time : Int) : Decidable (q.Covers time) :=
  inferInstanceAs (Decidable (_ ∧ _))

/-- When the pages of a symbol are requested. -/
abbrev Moments := String → Nat → Nat

/-- The request of a synchronisation, if its chunk reached the ledger. -/
def Sync.request (sync : Sync) (backend : Backend) (moment : Nat → Nat) (symbol : String)
    (fromUs throughUs : Int) : List Request :=
  match sync.records backend symbol fromUs throughUs, sync.outcome with
  | .error _, _ => []
  | .ok _, .failed _ => []
  | .ok _, _ => [⟨symbol, fromUs, throughUs, moment (sync.lastPage backend fromUs throughUs)⟩]

/-- The requests of the loop of a poll. -/
def pollRequests (backend : Backend) (poll : Poll) (moments : Moments) :
    Db → List (String × SymbolRow) → List Request
  | _, [] => []
  | db, (symbol, row) :: rows =>
    let window := syncWindow row.startTsUs row.syncedThroughTsUs poll.now
    if window.2 < window.1 then pollRequests backend poll moments db rows
    else
      let request :=
        (poll.sync symbol).request backend (moments symbol) symbol window.1 window.2
      match db.syncSymbol backend (poll.sync symbol) symbol window.1 window.2 with
      | (db, .error _) => request ++ pollRequests backend poll moments db rows
      | (db, .ok _) =>
        match poll.reload symbol with
        | .error _ => request
        | .ok _ => request ++ pollRequests backend poll moments db rows

/-- The requests of a poll. -/
def Db.requests (db : Db) (backend : Backend) (poll : Poll) (moments : Moments) : List Request :=
  match poll.opened >>= fun _ => poll.reconciled with
  | .error _ => []
  | .ok _ =>
    match db.reconcileOrderHistory poll.discovered with
    | (_, none) => []
    | (db, some _) =>
      match poll.connected with
      | .error _ => []
      | .ok _ => pollRequests backend poll moments db db.cursors

structure Observed where
  db : Db
  log : List Request

def Observed.step (backend : Backend) (o : Observed) (p : Poll × Moments) : Observed where
  db := (o.db.poll backend p.1).1
  log := o.log ++ o.db.requests backend p.1 p.2

/-- The last request for the millisecond of a row. -/
def lastCovering (log : List Request) (r : IncomeRow) : Option Request :=
  (log.filter fun q => q.symbol == r.symbol && decide (q.Covers r.time)).getLast?

/-! ## The invariant -/

structure Exact (exchange : Exchange) (db : Db) (log : List Request) : Prop where
  aligned : ∀ (symbol : String) (row : SymbolRow), db.symbols[symbol]? = some row → Aligned row
  covered : ∀ (symbol : String) (row : SymbolRow) (c m : Int), db.symbols[symbol]? = some row →
    row.syncedThroughTsUs = some c → row.startTsUs ≤ 1000 * m → 1000 * m ≤ c →
    ∃ q ∈ log, q.symbol = symbol ∧ q.Covers m
  booked : ∀ q ∈ log, ∀ r ∈ exchange.published q.moment, r.symbol = q.symbol →
    q.Covers r.time → Booked db.income r
  factual : ∀ (tranId : String) (entry : IncomeEntry), db.income[tranId]? = some entry →
    ∃ q ∈ log, ∃ r ∈ exchange.published q.moment, r.symbol = q.symbol ∧ q.Covers r.time ∧
      EntryOf r tranId entry

variable {exchange : Exchange} {backend : Backend}

theorem Exact.empty : Exact exchange Db.empty [] where
  aligned symbol row h := by simp [Db.empty] at h
  covered symbol row c m h := by simp [Db.empty] at h
  booked q hq := absurd hq List.not_mem_nil
  factual tranId entry h := by simp [Db.empty] at h

/-! ## Registering symbols -/

theorem registerSymbol_cases (start firstOrder : Int) (row : SymbolRow) :
    registerSymbol start firstOrder (some row) = row ∨
      (registerSymbol start firstOrder (some row)).startTsUs < row.startTsUs ∧
      (registerSymbol start firstOrder (some row)).syncedThroughTsUs = none := by
  unfold registerSymbol
  dsimp only
  split
  next h => exact .inr ⟨h, rfl⟩
  next => exact .inl rfl

theorem registerSymbol_aligned {start firstOrder : Int} (h : 0 < firstOrder)
    {row : Option SymbolRow} (hrow : ∀ r, row = some r → Aligned r) :
    Aligned (registerSymbol start firstOrder row) ∧
      ((registerSymbol start firstOrder row).syncedThroughTsUs = none ∨
        row = some (registerSymbol start firstOrder row)) := by
  have hfresh : Aligned { startTsUs := max start firstOrder, syncedThroughTsUs := none } :=
    ⟨lt_of_lt_of_le h (le_max_right _ _), fun c hc => by cases hc⟩
  unfold registerSymbol
  cases row with
  | none => exact ⟨hfresh, .inl rfl⟩
  | some r =>
    dsimp only
    split
    next => exact ⟨hfresh, .inl rfl⟩
    next => exact ⟨hrow r rfl, .inr rfl⟩

/-- The upserts of the discovered symbols: a row is kept, or reopened by an earlier
start. -/
theorem register_fold (start : Int) (l : List (String × Int)) (m : OrdMap String SymbolRow)
    (symbol : String) (row : SymbolRow) (h : m[symbol]? = some row) :
    ∃ row' : SymbolRow, (l.foldl (fun m p => m.upsert p.1 (registerSymbol start p.2)) m)[symbol]? =
      some row' ∧ (row' = row ∨ row'.startTsUs < row.startTsUs ∧ row'.syncedThroughTsUs = none) := by
  induction l generalizing m row with
  | nil => exact ⟨row, h, .inl rfl⟩
  | cons p l ih =>
    rw [List.foldl_cons]
    by_cases hp : p.1 = symbol
    · obtain ⟨row', hrow', hcase'⟩ := ih (m.upsert p.1 (registerSymbol start p.2))
        (registerSymbol start p.2 (some row))
        (by rw [OrdMap.getElem?_upsert, if_pos hp, hp, h])
      refine ⟨row', hrow', ?_⟩
      rcases registerSymbol_cases start p.2 row with heq | ⟨hlt, hnone⟩
      · rw [heq] at hcase'
        exact hcase'
      · rcases hcase' with rfl | ⟨hlt', hnone'⟩
        · exact .inr ⟨hlt, hnone⟩
        · exact .inr ⟨hlt'.trans hlt, hnone'⟩
    · exact ih _ row (by rw [OrdMap.getElem?_upsert, if_neg hp, h])

theorem register_fold_exact (start : Int) {l : List (String × Int)} (hpos : ∀ p ∈ l, 0 < p.2)
    (db : Db) {log : List Request} (h : Exact exchange db log) :
    Exact exchange { db with
      symbols := l.foldl (fun m p => m.upsert p.1 (registerSymbol start p.2)) db.symbols } log := by
  induction l generalizing db with
  | nil => exact h
  | cons p l ih =>
    refine ih (fun q hq => hpos q (List.mem_cons_of_mem _ hq))
      { db with symbols := db.symbols.upsert p.1 (registerSymbol start p.2) }
      ⟨fun symbol row hrow => ?_, fun symbol row c m hrow hc => ?_, h.booked, h.factual⟩
    · rw [OrdMap.getElem?_upsert] at hrow
      split at hrow
      next =>
        rw [← Option.some.inj hrow]
        exact (registerSymbol_aligned (hpos p List.mem_cons_self)
          fun r hr => h.aligned p.1 r hr).1
      next => exact h.aligned symbol row hrow
    · rw [OrdMap.getElem?_upsert] at hrow
      split at hrow
      next heq =>
        rw [← Option.some.inj hrow] at hc ⊢
        rcases (registerSymbol_aligned (hpos p List.mem_cons_self)
          fun r hr => h.aligned p.1 r hr).2 with hnone | hsame
        · rw [hnone] at hc
          cases hc
        · exact h.covered symbol _ c m (heq ▸ hsame) hc
      next => exact h.covered symbol row c m hrow hc

theorem reconcile_exact {db : Db} {log : List Request} (h : Exact exchange db log)
    (discovered : OrdMap String Int) :
    Exact exchange (db.reconcileOrderHistory discovered).1 log := by
  unfold Db.reconcileOrderHistory
  dsimp only
  split
  next => exact ⟨h.aligned, h.covered, h.booked, h.factual⟩
  next start _ =>
    have hpos : ∀ p ∈ firstOrders discovered, 0 < p.2 := fun p hp => by
      simpa using (List.mem_filter.1 hp).2
    have hfold := register_fold_exact start hpos db h
    exact ⟨hfold.aligned, hfold.covered, hfold.booked, hfold.factual⟩

/-- A row of a symbol is kept by `reconcile_order_history`, or reopened. -/
theorem reconcile_row (db : Db) (discovered : OrdMap String Int) (symbol : String)
    (row : SymbolRow) (h : db.symbols[symbol]? = some row) :
    ∃ row' : SymbolRow, (db.reconcileOrderHistory discovered).1.symbols[symbol]? = some row' ∧
      (row' = row ∨ row'.startTsUs < row.startTsUs ∧ row'.syncedThroughTsUs = none) := by
  unfold Db.reconcileOrderHistory
  dsimp only
  split
  · exact ⟨row, h, .inl rfl⟩
  · exact register_fold _ _ _ symbol row h

/-! ## One synchronisation -/

/-- A synchronisation leaves the database alone, or stores its chunk. -/
theorem syncSymbol_cases (db : Db) (backend : Backend) (sync : Sync) (moment : Nat → Nat)
    (symbol : String) (fromUs throughUs : Int) :
    (db.syncSymbol backend sync symbol fromUs throughUs).1 = db ∧
        (sync.request backend moment symbol fromUs throughUs = [] ∨
          ∃ records e, sync.records backend symbol fromUs throughUs = .ok records ∧
            db.storeChunk symbol throughUs records = .error e) ∨
      ∃ records, sync.records backend symbol fromUs throughUs = .ok records ∧
        db.storeChunk symbol throughUs records =
          .ok (db.syncSymbol backend sync symbol fromUs throughUs).1 ∧
        sync.request backend moment symbol fromUs throughUs =
          [⟨symbol, fromUs, throughUs, moment (sync.lastPage backend fromUs throughUs)⟩] := by
  unfold Db.syncSymbol Sync.request
  cases hrecords : sync.records backend symbol fromUs throughUs with
  | error e => exact .inl ⟨rfl, .inl rfl⟩
  | ok records =>
    dsimp only
    unfold Db.persistChunk
    cases hstore : db.storeChunk symbol throughUs records with
    | error e => exact .inl ⟨rfl, .inr ⟨records, e, rfl, hstore⟩⟩
    | ok db' =>
      cases sync.outcome with
      | committed => exact .inr ⟨records, rfl, hstore, rfl⟩
      | failed e => exact .inl ⟨rfl, .inl rfl⟩
      | reported e => exact .inr ⟨records, rfl, hstore, rfl⟩

theorem storeChunk_eq_ok {db db' : Db} {symbol : String} {through : Int}
    {records : List ValidIncome} (h : db.storeChunk symbol through records = .ok db') :
    records.foldlM (insertIncome symbol) db.income = .ok db'.income ∧
      ∀ k : String, db'.symbols[k]? = if symbol = k
        then db.symbols[k]?.map (advanceCursor through) else db.symbols[k]? := by
  obtain ⟨income, hincome, h⟩ := bind_eq_ok.1 h
  cases h
  refine ⟨hincome, fun k => ?_⟩
  cases hrow : db.symbols[symbol]? with
  | none =>
    show db.symbols[k]? = _
    split
    next hk => rw [← hk, hrow]; rfl
    next => rfl
  | some row =>
    show (db.symbols.insert symbol (advanceCursor through row))[k]? = _
    rw [OrdMap.getElem?_insert_of_key]
    split
    next hk => rw [← hk, hrow]; rfl
    next => rfl

theorem Exchange.eq_of_id (exchange : Exchange) {i j : Nat} {r r' : IncomeRow} {tranId : String}
    (hr : r ∈ exchange.published i) (hr' : r' ∈ exchange.published j)
    (hid : r.tranId.id = some tranId) (hid' : r'.tranId.id = some tranId) : r = r' := by
  have hi := exchange.grows i (max i j) (le_max_left _ _) hr
  have hj := exchange.grows j (max i j) (le_max_right _ _) hr'
  exact exchange.ids _ r hi r' hj (hid.trans hid'.symm) (by rw [hid]; rfl)

/-- The chunk of a window, stored. -/
theorem storeChunk_exact {db db' : Db} {log : List Request} (h : Exact exchange db log)
    {symbol : String} {row : SymbolRow} (hrow : db.symbols[symbol]? = some row) {now : Int}
    {fromUs throughUs : Int}
    (hw : syncWindow row.startTsUs row.syncedThroughTsUs now = (fromUs, throughUs))
    (hle : fromUs ≤ throughUs) {moment : Nat} {records : List ValidIncome}
    (hcomplete : Complete exchange moment symbol fromUs throughUs records)
    (hstore : db.storeChunk symbol throughUs records = .ok db') :
    Exact exchange db' (log ++ [⟨symbol, fromUs, throughUs, moment⟩]) := by
  have haligned := h.aligned symbol row hrow
  obtain ⟨hstart, hmod, hmod', hnext⟩ := syncWindow_spec haligned now
  rw [hw] at hstart hmod hmod' hnext
  have hpos : 0 < fromUs := lt_of_lt_of_le haligned.1 hstart
  obtain ⟨hfold, hsymbols⟩ := storeChunk_eq_ok hstore
  obtain ⟨income', hfold', hkeep, hall, hsource⟩ := insertIncome_fold
    (fun record hrecord => by
      obtain ⟨r, -, -, hV⟩ := hcomplete.sound record hrecord
      exact ⟨r, hV⟩) db.income
  obtain rfl : income' = db'.income := Except.ok.inj (hfold'.symm.trans hfold)
  -- an entry of the new ledger is that of an exchange row
  have hfactual : ∀ (tranId : String) (entry : IncomeEntry), db'.income[tranId]? = some entry →
      ∃ q ∈ log ++ [⟨symbol, fromUs, throughUs, moment⟩], ∃ r ∈ exchange.published q.moment,
        r.symbol = q.symbol ∧ q.Covers r.time ∧ EntryOf r tranId entry := by
    intro tranId entry hentry
    rcases hsource tranId entry hentry with hold | ⟨record, hrecord, -, hV⟩
    · obtain ⟨q, hq, r, hr, hrest⟩ := h.factual tranId entry hold
      exact ⟨q, List.mem_append_left _ hq, r, hr, hrest⟩
    · obtain ⟨r, hr, hrange, hvalid⟩ := hcomplete.sound record hrecord
      obtain ⟨hsymbol, hfrom, hthrough⟩ := (inRange_iff hpos hle hmod hmod' r).1 hrange
      exact ⟨_, List.mem_append_right _ (List.mem_singleton_self _), r, hr, hsymbol,
        ⟨hfrom, hthrough⟩, hV r hvalid⟩
  refine ⟨fun k row' hrow' => ?_, fun k row' c m hrow' hc hm hmc => ?_,
    fun q hq r hr hsymbol hcovers => ?_, hfactual⟩
  · rw [hsymbols] at hrow'
    split at hrow'
    next hk =>
      subst hk
      rw [hrow, Option.map_some, Option.some.injEq] at hrow'
      subst hrow'
      refine ⟨haligned.1, fun c hc => ?_⟩
      obtain rfl := Option.some.inj hc
      show row.startTsUs ≤ max _ _ ∧ max _ _ % 1000 = 0
      refine ⟨(hstart.trans hle).trans (le_max_right _ _), ?_⟩
      cases hcursor : row.syncedThroughTsUs with
      | none =>
        show max 0 throughUs % 1000 = 0
        omega
      | some c =>
        have := (haligned.2 c hcursor).2
        show max c throughUs % 1000 = 0
        omega
    next => exact h.aligned k row' hrow'
  · rw [hsymbols] at hrow'
    split at hrow'
    next hk =>
      subst hk
      rw [hrow, Option.map_some, Option.some.injEq] at hrow'
      subst hrow'
      have hc' : max (row.syncedThroughTsUs.getD 0) throughUs = c := Option.some.inj hc
      by_cases hold : ∃ c₀, row.syncedThroughTsUs = some c₀ ∧ 1000 * m ≤ c₀
      · obtain ⟨c₀, hc₀, hmc₀⟩ := hold
        obtain ⟨q, hq, hrest⟩ := h.covered symbol row c₀ m hrow hc₀ hm hmc₀
        exact ⟨q, List.mem_append_left _ hq, hrest⟩
      · -- behind the old cursor: in the new window
        have hafter : ∀ c₀, row.syncedThroughTsUs = some c₀ → c₀ < 1000 * m := by
          intro c₀ hc₀
          by_contra hlt
          exact hold ⟨c₀, hc₀, by omega⟩
        refine ⟨_, List.mem_append_right _ (List.mem_singleton_self _), rfl, hnext m hm hafter, ?_⟩
        show 1000 * m ≤ throughUs
        cases hcursor : row.syncedThroughTsUs with
        | none =>
          rw [hcursor] at hc'
          change max 0 throughUs = c at hc'
          omega
        | some c₀ =>
          have := hafter c₀ hcursor
          rw [hcursor] at hc'
          change max c₀ throughUs = c at hc'
          omega
    next =>
      obtain ⟨q, hq, hrest⟩ := h.covered k row' c m hrow' hc hm hmc
      exact ⟨q, List.mem_append_left _ hq, hrest⟩
  · -- the entry under the id of the row is that of the row itself
    have hbooked : ∀ (tranId : String) (entry : IncomeEntry), r.tranId.id = some tranId →
        db'.income[tranId]? = some entry → Booked db'.income r := by
      intro tranId entry hid hentry
      obtain ⟨q', -, r', hr', -, -, hE⟩ := hfactual tranId entry hentry
      obtain rfl := exchange.eq_of_id hr hr' hid hE.1
      exact ⟨tranId, entry, hE, hentry⟩
    rcases List.mem_append.1 hq with hq | hq
    · obtain ⟨tranId, entry, hE, hentry⟩ := h.booked q hq r hr hsymbol hcovers
      exact hbooked tranId entry hE.1 (hkeep tranId entry hentry)
    · rw [List.mem_singleton] at hq
      subst hq
      obtain ⟨record, hrecord, hV⟩ := hcomplete.complete r hr
        ((inRange_iff hpos hle hmod hmod' r).2 ⟨hsymbol, hcovers.1, hcovers.2⟩)
      obtain ⟨entry, hentry⟩ := hall record hrecord
      obtain ⟨value, -, hE⟩ := valid_entry hV
      exact hbooked record.tranId entry hE.1 hentry

theorem syncSymbol_exact {db : Db} {log : List Request} (h : Exact exchange db log)
    {symbol : String} {row : SymbolRow} (hrow : db.symbols[symbol]? = some row) {now : Int}
    {fromUs throughUs : Int}
    (hw : syncWindow row.startTsUs row.syncedThroughTsUs now = (fromUs, throughUs))
    (hle : fromUs ≤ throughUs) {sync : Sync} {moment : Nat → Nat}
    (hans : sync.Answered exchange moment symbol) :
    Exact exchange (db.syncSymbol backend sync symbol fromUs throughUs).1
      (log ++ sync.request backend moment symbol fromUs throughUs) := by
  rcases syncSymbol_cases db backend sync moment symbol fromUs throughUs with
    ⟨hsame, hnone | ⟨records, e, hrecords, herror⟩⟩ | ⟨records, hrecords, hstore, hrequest⟩
  · rw [hsame, hnone, List.append_nil]
    exact h
  · -- collected records can always be stored
    have hcomplete := records_complete hans hrecords
    obtain ⟨income', hfold, -⟩ := insertIncome_fold
      (fun record hrecord => by
        obtain ⟨r, -, -, hV⟩ := hcomplete.sound record hrecord
        exact ⟨r, hV⟩) db.income
    rw [Db.storeChunk, hfold] at herror
    cases herror
  · rw [hrequest]
    exact storeChunk_exact h hrow hw hle (records_complete hans hrecords) hstore

/-- The row of a symbol after a synchronisation: only its own cursor can move, and not
backwards. -/
theorem syncSymbol_row (db : Db) (backend : Backend) (sync : Sync) (symbol : String)
    (fromUs throughUs : Int) (k : String) :
    let db' := (db.syncSymbol backend sync symbol fromUs throughUs).1
    db'.symbols[k]? = db.symbols[k]? ∨
      symbol = k ∧ db'.symbols[k]? = db.symbols[k]?.map (advanceCursor throughUs) := by
  rcases syncSymbol_cases db backend sync id symbol fromUs throughUs with
    ⟨hsame, -⟩ | ⟨records, -, hstore, -⟩
  · exact .inl (by rw [hsame])
  · have hrow := (storeChunk_eq_ok hstore).2 k
    split at hrow
    next hk => exact .inr ⟨hk, hrow⟩
    next => exact .inl hrow

/-! ## Whole polls -/

theorem pollSymbols_exact {poll : Poll} {moments : Moments}
    (hans : ∀ symbol, (poll.sync symbol).Answered exchange (moments symbol) symbol)
    {rows : List (String × SymbolRow)} {db : Db} {log : List Request} {failures : List String}
    (hnodup : (rows.map Prod.fst).Nodup)
    (hrows : ∀ (symbol : String) (row : SymbolRow), (symbol, row) ∈ rows →
      db.symbols[symbol]? = some row)
    (h : Exact exchange db log) :
    Exact exchange (pollSymbols backend poll db failures rows).1
      (log ++ pollRequests backend poll moments db rows) := by
  induction rows generalizing db log failures with
  | nil =>
    rw [pollRequests, List.append_nil]
    exact h
  | cons p rows ih =>
    obtain ⟨symbol, row⟩ := p
    rw [List.map_cons, List.nodup_cons] at hnodup
    have hrow := hrows symbol row List.mem_cons_self
    have hrest : ∀ db' : Db, (∀ k, k ≠ symbol → db'.symbols[k]? = db.symbols[k]?) →
        ∀ (k : String) (r : SymbolRow), (k, r) ∈ rows → db'.symbols[k]? = some r := by
      intro db' hdb' k r hk
      rw [hdb' k]
      · exact hrows k r (List.mem_cons_of_mem _ hk)
      · rintro rfl
        exact hnodup.1 (List.mem_map.2 ⟨(k, r), hk, rfl⟩)
    unfold pollSymbols pollRequests
    dsimp only
    split
    next => exact ih hnodup.2 (hrest db fun _ _ => rfl) h
    next hle =>
      have hsync : Exact exchange (db.syncSymbol backend (poll.sync symbol) symbol
          (syncWindow row.startTsUs row.syncedThroughTsUs poll.now).1
          (syncWindow row.startTsUs row.syncedThroughTsUs poll.now).2).1
          (log ++ (poll.sync symbol).request backend (moments symbol) symbol
            (syncWindow row.startTsUs row.syncedThroughTsUs poll.now).1
            (syncWindow row.startTsUs row.syncedThroughTsUs poll.now).2) :=
        syncSymbol_exact h hrow rfl (not_lt.1 hle) (hans symbol)
      have hother := hrest (db.syncSymbol backend (poll.sync symbol) symbol
          (syncWindow row.startTsUs row.syncedThroughTsUs poll.now).1
          (syncWindow row.startTsUs row.syncedThroughTsUs poll.now).2).1 fun k hk => by
        rcases syncSymbol_row db backend (poll.sync symbol) symbol _ _ k with hsame | ⟨heq, -⟩
        · exact hsame
        · exact absurd heq.symm hk
      revert hsync hother
      generalize db.syncSymbol backend (poll.sync symbol) symbol
        (syncWindow row.startTsUs row.syncedThroughTsUs poll.now).1
        (syncWindow row.startTsUs row.syncedThroughTsUs poll.now).2 = result
      obtain ⟨db', outcome⟩ := result
      intro hsync hother
      cases outcome with
      | error e =>
        dsimp only
        rw [← List.append_assoc]
        exact ih hnodup.2 hother hsync
      | ok u =>
        dsimp only
        cases poll.reload symbol with
        | error e => exact hsync
        | ok u =>
          dsimp only
          rw [← List.append_assoc]
          exact ih hnodup.2 hother hsync

theorem mem_cursors {db : Db} {symbol : String} {row : SymbolRow} :
    (symbol, row) ∈ db.cursors ↔ db.symbols[symbol]? = some row := by
  rw [Db.cursors, StableSort.mem_stableSort]
  exact OrdMap.mem_toList

theorem nodup_cursors (db : Db) : (db.cursors.map Prod.fst).Nodup :=
  ((StableSort.perm_stableSort _ _).map _).nodup_iff.2 (OrdMap.nodup_keys_toList db.symbols)

theorem poll_exact {db : Db} {log : List Request} (h : Exact exchange db log) {poll : Poll}
    {moments : Moments}
    (hans : ∀ symbol, (poll.sync symbol).Answered exchange (moments symbol) symbol) :
    Exact exchange (db.poll backend poll).1 (log ++ db.requests backend poll moments) := by
  unfold Db.poll Db.requests
  cases hopen : (poll.opened >>= fun _ => poll.reconciled) with
  | error e =>
    dsimp only
    rw [List.append_nil]
    exact h
  | ok u =>
    have hreconcile := reconcile_exact h poll.discovered
    dsimp only
    generalize db.reconcileOrderHistory poll.discovered = reconciled at hreconcile ⊢
    obtain ⟨db', start⟩ := reconciled
    cases start with
    | none =>
      dsimp only
      rw [List.append_nil]
      exact hreconcile
    | some start =>
      dsimp only
      cases poll.connected with
      | error e =>
        dsimp only
        rw [List.append_nil]
        exact hreconcile
      | ok u =>
        exact pollSymbols_exact hans (nodup_cursors db')
          (fun symbol row hmem => mem_cursors.1 hmem) hreconcile

/-- A cursor that is there stays, and does not move backwards, as long as the start of
its symbol stays. -/
def Advances (row row' : SymbolRow) : Prop :=
  row'.startTsUs ≤ row.startTsUs ∧ (row'.startTsUs = row.startTsUs →
    ∀ c, row.syncedThroughTsUs = some c → ∃ c', row'.syncedThroughTsUs = some c' ∧ c ≤ c')

theorem Advances.refl (row : SymbolRow) : Advances row row :=
  ⟨le_refl _, fun _ c hc => ⟨c, hc, le_refl c⟩⟩

theorem Advances.advanceCursor {row row' : SymbolRow} (h : Advances row row') (through : Int) :
    Advances row (advanceCursor through row') := by
  refine ⟨h.1, fun heq c hc => ⟨_, rfl, ?_⟩⟩
  obtain ⟨c', hc', hle⟩ := h.2 heq c hc
  rw [hc']
  exact hle.trans (le_max_left _ _)

theorem pollSymbols_row {poll : Poll} {rows : List (String × SymbolRow)} {db : Db}
    {failures : List String} {row : SymbolRow} (k : String)
    (h : ∃ row' : SymbolRow, db.symbols[k]? = some row' ∧ Advances row row') :
    ∃ row' : SymbolRow, (pollSymbols backend poll db failures rows).1.symbols[k]? = some row' ∧
      Advances row row' := by
  induction rows generalizing db failures with
  | nil => exact h
  | cons p rows ih =>
    obtain ⟨symbol, r⟩ := p
    unfold pollSymbols
    dsimp only
    split
    next => exact ih h
    next =>
      have hstep : ∃ row' : SymbolRow, (db.syncSymbol backend (poll.sync symbol) symbol
          (syncWindow r.startTsUs r.syncedThroughTsUs poll.now).1
          (syncWindow r.startTsUs r.syncedThroughTsUs poll.now).2).1.symbols[k]? = some row' ∧
          Advances row row' := by
        obtain ⟨row', hrow', hadv⟩ := h
        rcases syncSymbol_row db backend (poll.sync symbol) symbol
            (syncWindow r.startTsUs r.syncedThroughTsUs poll.now).1
            (syncWindow r.startTsUs r.syncedThroughTsUs poll.now).2 k with hsame | ⟨-, hmoved⟩
        · exact ⟨row', hsame.trans hrow', hadv⟩
        · rw [hrow'] at hmoved
          exact ⟨_, hmoved, hadv.advanceCursor _⟩
      revert hstep
      generalize db.syncSymbol backend (poll.sync symbol) symbol
        (syncWindow r.startTsUs r.syncedThroughTsUs poll.now).1
        (syncWindow r.startTsUs r.syncedThroughTsUs poll.now).2 = result
      obtain ⟨db', outcome⟩ := result
      intro hstep
      cases outcome with
      | error e => exact ih hstep
      | ok u =>
        dsimp only
        cases poll.reload symbol with
        | error e => exact hstep
        | ok u => exact ih hstep

theorem poll_row (db : Db) (backend : Backend) (poll : Poll) (k : String) (row : SymbolRow)
    (h : db.symbols[k]? = some row) :
    ∃ row' : SymbolRow, (db.poll backend poll).1.symbols[k]? = some row' ∧ Advances row row' := by
  have hself : ∃ row' : SymbolRow, db.symbols[k]? = some row' ∧ Advances row row' :=
    ⟨row, h, Advances.refl row⟩
  unfold Db.poll
  cases hopen : (poll.opened >>= fun _ => poll.reconciled) with
  | error e => exact hself
  | ok u =>
    have hreconcile : ∃ row' : SymbolRow,
        (db.reconcileOrderHistory poll.discovered).1.symbols[k]? = some row' ∧
        Advances row row' := by
      obtain ⟨row', hrow', hcase⟩ := reconcile_row db poll.discovered k row h
      refine ⟨row', hrow', ?_⟩
      rcases hcase with rfl | ⟨hlt, -⟩
      · exact Advances.refl _
      · exact ⟨hlt.le, fun heq => absurd heq hlt.ne⟩
    dsimp only
    generalize db.reconcileOrderHistory poll.discovered = reconciled at hreconcile ⊢
    obtain ⟨db', start⟩ := reconciled
    cases start with
    | none => exact hreconcile
    | some start =>
      dsimp only
      cases poll.connected with
      | error e => exact hreconcile
      | ok u => exact pollSymbols_row k hreconcile

/-- A synchronisation that fails changes nothing, unless only the acknowledgment of its
commit was lost. -/
theorem syncSymbol_failed (db : Db) (backend : Backend) (sync : Sync) (symbol : String)
    (fromUs throughUs : Int) (hout : ∀ e, sync.outcome ≠ .reported e) (e : String)
    (h : (db.syncSymbol backend sync symbol fromUs throughUs).2 = .error e) :
    (db.syncSymbol backend sync symbol fromUs throughUs).1 = db := by
  unfold Db.syncSymbol at h ⊢
  cases hrecords : sync.records backend symbol fromUs throughUs with
  | error e => rfl
  | ok records =>
    rw [hrecords] at h
    dsimp only at h ⊢
    unfold Db.persistChunk at h ⊢
    cases hstore : db.storeChunk symbol throughUs records with
    | error e => rfl
    | ok db' =>
      rw [hstore] at h
      cases houtcome : sync.outcome with
      | committed =>
        rw [houtcome] at h
        cases h
      | failed e => rfl
      | reported e => exact absurd houtcome (hout e)

end CtaManager.Funding
