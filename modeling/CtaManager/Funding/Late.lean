import CtaManager.Funding.Runs

/-!
Funding rows that are published late.

Each synchronisation of a symbol replays the day before its cursor, unless the cursor is
more than two days old.  A row that lags by a day at most is therefore in the range of
the first synchronisation after it is published, if that one replays or if the row is
behind the cursor (`late_row_booked`); an outage of two days loses rows
(`late_rows_missed`).
-/

namespace CtaManager.Funding

open Check

variable {exchange : Exchange} {backend : Backend}

/-! ## What a poll does for one symbol -/

/-- A synchronisation that is answered from the exchange: it fails and leaves everything, or
its chunk reaches the ledger. -/
theorem syncSymbol_answered (db : Db) (backend : Backend) {sync : Sync} {moment : Nat → Nat} {symbol : String}
    (hans : sync.Answered exchange moment symbol) (fromUs throughUs : Int) :
    ((db.syncSymbol backend sync symbol fromUs throughUs).1 = db ∧
        sync.request backend moment symbol fromUs throughUs = [] ∧
        (db.syncSymbol backend sync symbol fromUs throughUs).2 ≠ .ok ()) ∨
      (sync.request backend moment symbol fromUs throughUs =
          [⟨symbol, fromUs, throughUs, moment (sync.lastPage backend fromUs throughUs)⟩] ∧
        ∀ k : String, (db.syncSymbol backend sync symbol fromUs throughUs).1.symbols[k]? =
          if symbol = k then db.symbols[k]?.map (advanceCursor throughUs) else db.symbols[k]?) := by
  unfold Db.syncSymbol Sync.request
  cases hrecords : sync.records backend symbol fromUs throughUs with
  | error e => exact Or.inl ⟨rfl, rfl, fun h => by cases h⟩
  | ok records =>
    have hcomplete := records_complete hans hrecords
    obtain ⟨income', hfold, -⟩ := insertIncome_fold
      (fun record hrecord => by
        obtain ⟨r, -, -, hV⟩ := hcomplete.sound record hrecord
        exact ⟨r, hV⟩) db.income
    dsimp only
    unfold Db.persistChunk
    cases hstore : db.storeChunk symbol throughUs records with
    | error e =>
      rw [Db.storeChunk, hfold] at hstore
      cases hstore
    | ok db' =>
      have hrows := (storeChunk_eq_ok hstore).2
      cases sync.outcome with
      | committed => exact Or.inr ⟨rfl, hrows⟩
      | failed e => exact Or.inl ⟨rfl, rfl, fun h => by cases h⟩
      | reported e => exact Or.inr ⟨rfl, hrows⟩

/-- The symbol is not synchronised by the poll. -/
structure Untouched (db db' : Db) (requests : List Request) (symbol : String) : Prop where
  row : db'.symbols[symbol]? = db.symbols[symbol]?
  requests : ∀ q ∈ requests, q.symbol ≠ symbol

theorem Untouched.trans {db db' db'' : Db} {requests requests' : List Request} {symbol : String}
    (h : Untouched db db' requests symbol) (h' : Untouched db' db'' requests' symbol) :
    Untouched db db'' (requests ++ requests') symbol := by
  refine ⟨h'.row.trans h.row, fun q hq => ?_⟩
  rcases List.mem_append.1 hq with hq | hq
  · exact h.requests q hq
  · exact h'.requests q hq

theorem untouched_refl (db : Db) (symbol : String) : Untouched db db [] symbol :=
  ⟨rfl, fun _ hq => absurd hq List.not_mem_nil⟩

/-- Another symbol is synchronised. -/
theorem syncSymbol_untouched (db : Db) (backend : Backend) {sync : Sync} {moment : Nat → Nat} {symbol k : String}
    (hans : sync.Answered exchange moment symbol) (fromUs throughUs : Int) (hne : symbol ≠ k) :
    Untouched db (db.syncSymbol backend sync symbol fromUs throughUs).1
      (sync.request backend moment symbol fromUs throughUs) k := by
  rcases syncSymbol_answered db backend hans fromUs throughUs with
    ⟨hsame, hnone, -⟩ | ⟨hrequest, hrows⟩
  · rw [hsame, hnone]
    exact untouched_refl db k
  · rw [hrequest]
    refine ⟨(hrows k).trans (if_neg hne), fun q hq => ?_⟩
    rw [List.mem_singleton.1 hq]
    exact hne

theorem pollSymbols_untouched {poll : Poll} {moments : Moments} (backend : Backend)
    (hans : ∀ symbol, (poll.sync symbol).Answered exchange (moments symbol) symbol)
    {rows : List (String × SymbolRow)} (db : Db) (failures : List String) {k : String}
    (h : k ∉ rows.map Prod.fst) :
    Untouched db (pollSymbols backend poll db failures rows).1
      (pollRequests backend poll moments db rows) k := by
  induction rows generalizing db failures with
  | nil => exact untouched_refl db k
  | cons p rows ih =>
    obtain ⟨symbol, row⟩ := p
    rw [List.map_cons, List.mem_cons, not_or] at h
    have hsync := syncSymbol_untouched db backend (hans symbol)
      (syncWindow row.startTsUs row.syncedThroughTsUs poll.now).1
      (syncWindow row.startTsUs row.syncedThroughTsUs poll.now).2 (Ne.symm h.1)
    unfold pollSymbols pollRequests
    dsimp only
    split
    next => exact ih db failures h.2
    next =>
      generalize db.syncSymbol backend (poll.sync symbol) symbol
        (syncWindow row.startTsUs row.syncedThroughTsUs poll.now).1
        (syncWindow row.startTsUs row.syncedThroughTsUs poll.now).2 = result at hsync
      obtain ⟨db', outcome⟩ := result
      cases outcome with
      | error e => exact hsync.trans (ih db' (failures ++ [e]) h.2)
      | ok u =>
        dsimp only
        cases poll.reload symbol with
        | error e => exact hsync
        | ok u => exact hsync.trans (ih db' failures h.2)

/-- Failures stay. -/
theorem pollSymbols_failures {poll : Poll} {rows : List (String × SymbolRow)} {db : Db}
    {failures failures' : List String}
    (h : (pollSymbols backend poll db failures rows).2 = .ok failures') :
    ∃ more, failures' = failures ++ more := by
  induction rows generalizing db failures with
  | nil => exact ⟨[], by rw [List.append_nil]; exact (Except.ok.inj h).symm⟩
  | cons p rows ih =>
    obtain ⟨symbol, row⟩ := p
    unfold pollSymbols at h
    dsimp only at h
    split at h
    next => exact ih h
    next =>
      generalize db.syncSymbol backend (poll.sync symbol) symbol
        (syncWindow row.startTsUs row.syncedThroughTsUs poll.now).1
        (syncWindow row.startTsUs row.syncedThroughTsUs poll.now).2 = result at h
      obtain ⟨db', outcome⟩ := result
      cases outcome with
      | error e =>
        obtain ⟨more, rfl⟩ := ih h
        exact ⟨e :: more, by rw [List.append_assoc]; rfl⟩
      | ok u =>
        dsimp only at h
        cases hreload : poll.reload symbol with
        | error e =>
          rw [hreload] at h
          cases h
        | ok u =>
          rw [hreload] at h
          exact ih h

/-- The window of a row in a poll. -/
def SymbolRow.window (row : SymbolRow) (now : Int) : Int × Int :=
  syncWindow row.startTsUs row.syncedThroughTsUs now

/-- The chunk of a symbol has reached the ledger. -/
structure Synced (moments : Moments) (now : Int) (db' : Db) (requests : List Request)
    (symbol : String) (row : SymbolRow) : Prop where
  window : (row.window now).1 ≤ (row.window now).2
  request : ∃ page,
    ⟨symbol, (row.window now).1, (row.window now).2, moments symbol page⟩ ∈ requests
  row : db'.symbols[symbol]? = some (advanceCursor (row.window now).2 row)

theorem Synced.append {moments : Moments} {now : Int} {db' db'' : Db}
    {requests requests' : List Request} {symbol : String} {row : SymbolRow}
    (h : Synced moments now db' requests symbol row)
    (hrest : Untouched db' db'' requests' symbol) :
    Synced moments now db'' (requests ++ requests') symbol row := by
  obtain ⟨page, hpage⟩ := h.request
  exact ⟨h.window, ⟨page, List.mem_append_left _ hpage⟩, hrest.row.trans h.row⟩

/-- What follows requests for other symbols. -/
theorem Synced.after {moments : Moments} {now : Int} {db db' db'' : Db}
    {requests requests' : List Request} {symbol : String} {row : SymbolRow} {P : Prop}
    (h : Untouched db db' requests symbol)
    (hrest : Synced moments now db'' requests' symbol row ∨
      Untouched db' db'' requests' symbol ∧ P) :
    Synced moments now db'' (requests ++ requests') symbol row ∨
      Untouched db db'' (requests ++ requests') symbol ∧ P := by
  rcases hrest with hsynced | ⟨hrest, hP⟩
  · obtain ⟨page, hpage⟩ := hsynced.request
    exact Or.inl ⟨hsynced.window, ⟨page, List.mem_append_right _ hpage⟩, hsynced.row⟩
  · exact Or.inr ⟨h.trans hrest, hP⟩

/-- A symbol of the poll is synchronised, or nothing of it changes; then the poll fails, or
the window was empty. -/
theorem pollSymbols_symbol {poll : Poll} {moments : Moments} (backend : Backend)
    (hans : ∀ symbol, (poll.sync symbol).Answered exchange (moments symbol) symbol)
    {rows : List (String × SymbolRow)} (db : Db) (failures : List String) {k : String}
    {row : SymbolRow} (hnodup : (rows.map Prod.fst).Nodup) (hmem : (k, row) ∈ rows)
    (hrow : db.symbols[k]? = some row) :
    Synced moments poll.now (pollSymbols backend poll db failures rows).1
        (pollRequests backend poll moments db rows) k row ∨
      (Untouched db (pollSymbols backend poll db failures rows).1
          (pollRequests backend poll moments db rows) k ∧
        ((pollSymbols backend poll db failures rows).2 = .ok [] →
          (row.window poll.now).2 < (row.window poll.now).1)) := by
  induction rows generalizing db failures with
  | nil => exact absurd hmem List.not_mem_nil
  | cons p rows ih =>
    obtain ⟨symbol, r⟩ := p
    rw [List.map_cons, List.nodup_cons] at hnodup
    rcases List.mem_cons.1 hmem with heq | hmem
    · cases heq
      have hrest := fun db' failures' =>
        pollSymbols_untouched backend hans db' failures' hnodup.1
      have hsync := syncSymbol_answered db backend (hans k) (row.window poll.now).1
        (row.window poll.now).2
      unfold pollSymbols pollRequests
      unfold SymbolRow.window at *
      dsimp only
      split
      next hempty => exact Or.inr ⟨hrest db failures, fun _ => hempty⟩
      next hopen =>
        generalize db.syncSymbol backend (poll.sync k) k
          (syncWindow row.startTsUs row.syncedThroughTsUs poll.now).1
          (syncWindow row.startTsUs row.syncedThroughTsUs poll.now).2 = result at hsync
        obtain ⟨db', outcome⟩ := result
        rcases hsync with ⟨hsame, hnone, hfailed⟩ | ⟨hrequest, hrows⟩
        · dsimp only at hsame hfailed
          subst hsame
          cases outcome with
          | ok u => exact absurd rfl hfailed
          | error e =>
            dsimp only
            rw [hnone]
            refine Or.inr ⟨hrest db' (failures ++ [e]), fun hok => ?_⟩
            obtain ⟨more, hmore⟩ := pollSymbols_failures hok
            rw [List.append_assoc] at hmore
            exact absurd hmore.symm (by simp)
        · have hsynced : Synced moments poll.now db' ((poll.sync k).request backend (moments k) k
              (syncWindow row.startTsUs row.syncedThroughTsUs poll.now).1
              (syncWindow row.startTsUs row.syncedThroughTsUs poll.now).2) k row := by
            refine ⟨not_lt.1 hopen, ⟨(poll.sync k).lastPage backend
              (syncWindow row.startTsUs row.syncedThroughTsUs poll.now).1
              (syncWindow row.startTsUs row.syncedThroughTsUs poll.now).2, ?_⟩, ?_⟩
            · rw [hrequest]
              exact List.mem_singleton_self _
            · have hk := hrows k
              rw [if_pos rfl, hrow] at hk
              exact hk
          cases outcome with
          | error e => exact Or.inl (hsynced.append (hrest db' (failures ++ [e])))
          | ok u =>
            dsimp only
            cases poll.reload k with
            | error e => exact Or.inl hsynced
            | ok u => exact Or.inl (hsynced.append (hrest db' failures))
    · -- another symbol first
      have hne : symbol ≠ k := by
        rintro rfl
        exact hnodup.1 (List.mem_map.2 ⟨(symbol, row), hmem, rfl⟩)
      have hsync := syncSymbol_untouched db backend (hans symbol)
        (syncWindow r.startTsUs r.syncedThroughTsUs poll.now).1
        (syncWindow r.startTsUs r.syncedThroughTsUs poll.now).2 hne
      unfold pollSymbols pollRequests
      dsimp only
      split
      next => exact ih db failures hnodup.2 hmem hrow
      next =>
        generalize db.syncSymbol backend (poll.sync symbol) symbol
          (syncWindow r.startTsUs r.syncedThroughTsUs poll.now).1
          (syncWindow r.startTsUs r.syncedThroughTsUs poll.now).2 = result at hsync
        obtain ⟨db', outcome⟩ := result
        have hnext := fun failures' => ih db' failures' hnodup.2 hmem (hsync.row.trans hrow)
        cases outcome with
        | error e => exact Synced.after hsync (hnext (failures ++ [e]))
        | ok u =>
          dsimp only
          cases poll.reload symbol with
          | error e => exact Or.inr ⟨hsync, fun h => by cases h⟩
          | ok u => exact Synced.after hsync (hnext failures)

theorem registerSymbol_cursor {start firstOrder : Int} {row : Option SymbolRow} {c : Int}
    (h : (registerSymbol start firstOrder row).syncedThroughTsUs = some c) :
    row = some (registerSymbol start firstOrder row) := by
  cases row with
  | none => cases h
  | some row =>
    rcases registerSymbol_cases start firstOrder row with hsame | ⟨-, hnone⟩
    · rw [hsame]
    · rw [hnone] at h
      cases h

/-- A cursor that `reconcile_order_history` leaves was there before. -/
theorem reconcile_cursor {db : Db} {discovered : OrdMap String Int} {k : String} {row : SymbolRow}
    {c : Int} (h : (db.reconcileOrderHistory discovered).1.symbols[k]? = some row)
    (hc : row.syncedThroughTsUs = some c) : db.symbols[k]? = some row := by
  have hfold : ∀ (start : Int) (l : List (String × Int)) (m : OrdMap String SymbolRow),
      (l.foldl (fun m p => m.upsert p.1 (registerSymbol start p.2)) m)[k]? = some row →
        m[k]? = some row := by
    intro start l
    induction l with
    | nil => exact fun m h => h
    | cons p l ih =>
      intro m h
      have hp := ih _ h
      rw [OrdMap.getElem?_upsert] at hp
      split at hp
      next hk =>
        rw [Option.some.injEq] at hp
        rw [← hk, ← hp]
        exact registerSymbol_cursor (hp ▸ hc)
      next => exact hp
  unfold Db.reconcileOrderHistory at h
  dsimp only at h
  split at h
  · exact h
  · exact hfold _ _ _ h

theorem syncSymbol_accountStart (db : Db) (backend : Backend) (sync : Sync) (symbol : String)
    (fromUs throughUs : Int) :
    (db.syncSymbol backend sync symbol fromUs throughUs).1.accountStart = db.accountStart := by
  rcases syncSymbol_cases db backend sync id symbol fromUs throughUs with
    ⟨hsame, -⟩ | ⟨records, -, hstore, -⟩
  · rw [hsame]
  · obtain ⟨income, -, h⟩ := bind_eq_ok.1 hstore
    rw [← Except.ok.inj h]

theorem pollSymbols_accountStart (backend : Backend) (poll : Poll) (db : Db)
    (failures : List String) (rows : List (String × SymbolRow)) :
    (pollSymbols backend poll db failures rows).1.accountStart = db.accountStart := by
  induction rows generalizing db failures with
  | nil => rfl
  | cons p rows ih =>
    obtain ⟨symbol, row⟩ := p
    have hsync := syncSymbol_accountStart db backend (poll.sync symbol) symbol
      (syncWindow row.startTsUs row.syncedThroughTsUs poll.now).1
      (syncWindow row.startTsUs row.syncedThroughTsUs poll.now).2
    unfold pollSymbols
    dsimp only
    split
    next => exact ih db failures
    next =>
      generalize db.syncSymbol backend (poll.sync symbol) symbol
        (syncWindow row.startTsUs row.syncedThroughTsUs poll.now).1
        (syncWindow row.startTsUs row.syncedThroughTsUs poll.now).2 = result at hsync
      obtain ⟨db', outcome⟩ := result
      rw [← hsync]
      cases outcome with
      | error e => exact ih db' (failures ++ [e])
      | ok u =>
        dsimp only
        cases poll.reload symbol with
        | error e => rfl
        | ok u => exact ih db' failures

/-- Before its first order, an account has no symbols. -/
def Registered (db : Db) : Prop := db.accountStart = none → ∀ k : String, db.symbols[k]? = none

/-- What one poll does for one symbol. -/
theorem poll_symbol {db : Db} (h : Registered db) (backend : Backend) {poll : Poll}
    {moments : Moments}
    (hans : ∀ symbol, (poll.sync symbol).Answered exchange (moments symbol) symbol) (k : String) :
    Registered (db.poll backend poll).1 ∧
      ((∃ row : SymbolRow,
        (db.reconcileOrderHistory poll.discovered).1.symbols[k]? = some row ∧
        Synced moments poll.now (db.poll backend poll).1 (db.requests backend poll moments) k row) ∨
      (((db.poll backend poll).1.symbols[k]? = db.symbols[k]? ∨
          (db.poll backend poll).1.symbols[k]? =
            (db.reconcileOrderHistory poll.discovered).1.symbols[k]?) ∧
        (∀ q ∈ db.requests backend poll moments, q.symbol ≠ k) ∧
        ((db.poll backend poll).2 = .ok () → ∀ row : SymbolRow,
          (db.poll backend poll).1.symbols[k]? = some row →
            (row.window poll.now).2 < (row.window poll.now).1))) := by
  unfold Db.poll Db.requests
  cases hopen : (poll.opened >>= fun _ => poll.reconciled) with
  | error e => exact ⟨h, Or.inr ⟨Or.inl rfl, fun _ hq => absurd hq List.not_mem_nil, nofun⟩⟩
  | ok u =>
    dsimp only
    have hreconcile : Registered (db.reconcileOrderHistory poll.discovered).1 ∧
        ((db.reconcileOrderHistory poll.discovered).2 = none →
          (db.reconcileOrderHistory poll.discovered).1.symbols[k]? = none) := by
      have hstart : db.accountStart ≠ none →
          earliestStart db.accountStart poll.discovered ≠ none := by
        intro hsome
        unfold earliestStart
        cases ((firstOrders poll.discovered).map Prod.snd).min? with
        | none => exact hsome
        | some requested =>
          cases hstart : db.accountStart with
          | none => exact absurd hstart hsome
          | some start =>
            dsimp only
            split
            · nofun
            · nofun
      unfold Db.reconcileOrderHistory
      cases hearliest : earliestStart db.accountStart poll.discovered with
      | none =>
        have hnone : db.accountStart = none := by
          by_contra hsome
          exact hstart hsome hearliest
        exact ⟨fun _ => h hnone, fun _ => h hnone k⟩
      | some start => exact ⟨nofun, nofun⟩
    generalize db.reconcileOrderHistory poll.discovered = reconciled at hreconcile
    obtain ⟨db₁, start⟩ := reconciled
    obtain ⟨hregistered, hnone⟩ := hreconcile
    cases start with
    | none =>
      refine ⟨hregistered, Or.inr ⟨Or.inr rfl, fun _ hq => absurd hq List.not_mem_nil,
        fun _ row hrow => ?_⟩⟩
      rw [hnone rfl] at hrow
      cases hrow
    | some start =>
      cases poll.connected with
      | error e =>
        exact ⟨hregistered, Or.inr ⟨Or.inr rfl, fun _ hq => absurd hq List.not_mem_nil, nofun⟩⟩
      | ok u =>
        dsimp only
        refine ⟨fun haccount => ?_, ?_⟩
        · rw [pollSymbols_accountStart] at haccount
          intro symbol
          have hmem : symbol ∉ db₁.cursors.map Prod.fst := by
            intro hmem
            obtain ⟨p, hp, rfl⟩ := List.mem_map.1 hmem
            have hrow : db₁.symbols[p.1]? = some p.2 := mem_cursors.1 hp
            rw [hregistered haccount] at hrow
            cases hrow
          exact (pollSymbols_untouched backend hans db₁ [] hmem).row.trans
            (hregistered haccount symbol)
        cases hrow : db₁.symbols[k]? with
        | none =>
          have hmem : k ∉ db₁.cursors.map Prod.fst := by
            intro hmem
            obtain ⟨p, hp, rfl⟩ := List.mem_map.1 hmem
            have hp' : db₁.symbols[p.1]? = some p.2 := mem_cursors.1 hp
            rw [hrow] at hp'
            cases hp'
          have huntouched := pollSymbols_untouched backend hans db₁ [] hmem
          refine Or.inr ⟨Or.inr (huntouched.row.trans hrow), huntouched.requests,
            fun _ row hrow' => ?_⟩
          rw [huntouched.row, hrow] at hrow'
          cases hrow'
        | some row =>
          rcases pollSymbols_symbol backend hans db₁ [] (nodup_cursors db₁)
            (mem_cursors.2 hrow) hrow with hsynced | ⟨huntouched, hempty⟩
          · exact Or.inl ⟨row, rfl, hsynced⟩
          · refine Or.inr ⟨Or.inr (huntouched.row.trans hrow), huntouched.requests,
              fun hok row' hrow' => ?_⟩
            rw [huntouched.row, hrow, Option.some.injEq] at hrow'
            subst hrow'
            refine hempty ?_
            unfold pollResult at hok
            obtain ⟨failures, hfailures, hok⟩ := bind_eq_ok.1 hok
            obtain ⟨_, -, hok⟩ := bind_eq_ok.1 hok
            rw [ensure_eq_ok, List.isEmpty_iff] at hok
            rw [hfailures, hok]

/-! ## Windows -/

/-- The settled end of a poll: a minute before its clock, in whole milliseconds. -/
def settled (now : Int) : Int := (now.tdiv 1000 - 60000) * 1000

theorem settled_mono {a b : Int} (h : a ≤ b) : settled a ≤ settled b := by
  have hdiv : a.tdiv 1000 ≤ b.tdiv 1000 := Int.tdiv_le_tdiv (by decide) h
  unfold settled
  omega

theorem settled_lt (a : Int) : settled a < a := by
  unfold settled
  rcases le_total 0 a with ha | ha
  · rw [Int.tdiv_eq_ediv_of_nonneg ha]
    omega
  · obtain ⟨b, rfl⟩ : ∃ b, a = -b := ⟨-a, (neg_neg a).symm⟩
    rw [Int.neg_tdiv, Int.tdiv_eq_ediv_of_nonneg (by omega)]
    omega

/-- A window that starts behind the settled end of its poll is not empty, and reaches the
cursor. -/
theorem cursor_le_through {row : SymbolRow} (h : Aligned row) {now c : Int}
    (hc : row.syncedThroughTsUs = some c) (hsettled : c ≤ settled now) :
    (row.window now).1 ≤ (row.window now).2 ∧ c ≤ (row.window now).2 := by
  obtain ⟨hstart, hmod⟩ := h.2 c hc
  have hle := (windowStart_spec h now).1
  have hpos : 0 < windowStart row.startTsUs row.syncedThroughTsUs now := lt_of_lt_of_le h.1 hle
  obtain ⟨hceil, hceil'⟩ := ceil_us hpos
  unfold SymbolRow.window
  rw [syncWindow_eq]
  dsimp only
  generalize (windowStart row.startTsUs row.syncedThroughTsUs now + 999).tdiv 1000 = first at *
  have hend : (now.tdiv 1000 - 60000) * 1000 = settled now := rfl
  rw [hend]
  unfold windowStart at hceil hceil'
  rw [hc] at hceil hceil'
  dsimp only at hceil hceil'
  have hnow := settled_lt now
  split at hceil
  next hrecent =>
    rw [if_pos hrecent] at hceil'
    unfold DAY_US at *
    omega
  next hold =>
    rw [if_neg hold] at hceil'
    have hgap : c + 1000 ≤ settled now := by
      have hlow : now - 60001000 ≤ settled now := by
        have hpast : 0 < now := by
          have := h.1
          omega
        unfold settled
        rw [Int.tdiv_eq_ediv_of_nonneg hpast.le]
        omega
      unfold DAY_US at hold
      omega
    unfold DAY_US at *
    omega

/-- A row of the symbol's history that a window leaves out: behind a cursor that is more
than two days old, or a day behind the cursor. -/
theorem before_window {row : SymbolRow} (h : Aligned row) {now time : Int}
    (hstart : row.startTsUs ≤ 1000 * time) (hbefore : 1000 * time < (row.window now).1) :
    ∃ c, row.syncedThroughTsUs = some c ∧
      (1000 * time ≤ c ∧ c < now - 2 * DAY_US ∨ 1000 * time + DAY_US < c) := by
  have hle := (windowStart_spec h now).1
  have hpos : 0 < windowStart row.startTsUs row.syncedThroughTsUs now := lt_of_lt_of_le h.1 hle
  obtain ⟨hceil, hceil'⟩ := ceil_us hpos
  unfold SymbolRow.window at hbefore
  rw [syncWindow_eq] at hbefore
  dsimp only at hbefore
  have hlt : 1000 * time < windowStart row.startTsUs row.syncedThroughTsUs now := by
    generalize (windowStart row.startTsUs row.syncedThroughTsUs now + 999).tdiv 1000 = first at *
    omega
  unfold windowStart at hlt
  cases hc : row.syncedThroughTsUs with
  | none =>
    rw [hc] at hlt
    exact absurd hlt (not_lt.2 hstart)
  | some c =>
    rw [hc] at hlt
    have hmod := (h.2 c hc).2
    dsimp only at hlt
    refine ⟨c, rfl, ?_⟩
    split at hlt
    next =>
      rw [lt_max_iff] at hlt
      omega
    next hold =>
      unfold DAY_US at *
      omega

/-! ## Runs -/

/-- A run with its requests, and the clock of the last poll that synchronised each symbol. -/
structure Watched where
  seen : Observed
  syncedAt : String → Int

def Watched.step (backend : Backend) (w : Watched) (p : Poll × Moments) : Watched where
  seen := w.seen.step backend p
  syncedAt := fun symbol =>
    if (w.seen.db.requests backend p.1 p.2).any fun q => q.symbol == symbol then p.1.now
    else w.syncedAt symbol

def Watched.start : Watched := ⟨⟨Db.empty, []⟩, fun _ => 0⟩

/-- The poll is the first to synchronise the symbol since the row was published, and it
resumes from a cursor that is past the row and more than two days old: it replays nothing. -/
def Skips (backend : Backend) (r : IncomeRow) (publishedAt : Int) (w : Watched)
    (p : Poll × Moments) : Prop :=
  (w.seen.db.requests backend p.1 p.2).any (fun q => q.symbol == r.symbol) = true ∧
    w.syncedAt r.symbol < publishedAt ∧ publishedAt ≤ p.1.now ∧
    ∃ row c, (w.seen.db.reconcileOrderHistory p.1.discovered).1.symbols[r.symbol]? = some row ∧
      row.syncedThroughTsUs = some c ∧ 1000 * r.time ≤ c ∧ c < p.1.now - 2 * DAY_US

/-- What every run keeps, at a clock: the cursor of the symbol of a row was settled when the
symbol was last synchronised; if the row was published by then and is behind the cursor,
it has been requested since. -/
structure Caught (exchange : Exchange) (r : IncomeRow) (publishedAt now : Int) (w : Watched) :
    Prop where
  exact : Exact exchange w.seen.db w.seen.log
  registered : Registered w.seen.db
  cursor : ∀ (row : SymbolRow) c, w.seen.db.symbols[r.symbol]? = some row →
    row.syncedThroughTsUs = some c → c ≤ settled (w.syncedAt r.symbol) ∧ w.syncedAt r.symbol ≤ now
  requested : ∀ (row : SymbolRow) c, w.seen.db.symbols[r.symbol]? = some row →
    row.syncedThroughTsUs = some c → row.startTsUs ≤ 1000 * r.time → 1000 * r.time ≤ c →
    publishedAt ≤ w.syncedAt r.symbol →
      ∃ q ∈ w.seen.log, q.symbol = r.symbol ∧ q.Covers r.time ∧ r ∈ exchange.published q.moment

theorem Caught.start (r : IncomeRow) (publishedAt now : Int) :
    Caught exchange r publishedAt now Watched.start where
  exact := Exact.empty
  registered _ _ := Std.ExtTreeMap.getElem?_empty
  cursor row c hrow := by
    have hrow' : Db.empty.symbols[r.symbol]? = some row := hrow
    rw [Db.empty, Std.ExtTreeMap.getElem?_empty] at hrow'
    cases hrow'
  requested row c hrow := by
    have hrow' : Db.empty.symbols[r.symbol]? = some row := hrow
    rw [Db.empty, Std.ExtTreeMap.getElem?_empty] at hrow'
    cases hrow'

theorem Caught.step {r : IncomeRow} {publishedAt now : Int} {w : Watched}
    (h : Caught exchange r publishedAt now w) {p : Poll × Moments} (hnow : now ≤ p.1.now)
    (hans : ∀ symbol, (p.1.sync symbol).Answered exchange (p.2 symbol) symbol)
    (hpublished : publishedAt ≤ p.1.now → ∀ page, r ∈ exchange.published (p.2 r.symbol page))
    (hlag : publishedAt ≤ 1000 * r.time + DAY_US) (hskips : ¬ Skips backend r publishedAt w p) :
    Caught exchange r publishedAt p.1.now (w.step backend p) := by
  have hexact : Exact exchange (w.seen.db.poll backend p.1).1
      (w.seen.log ++ w.seen.db.requests backend p.1 p.2) := poll_exact h.exact hans
  obtain ⟨hregistered, hpoll⟩ := poll_symbol h.registered backend hans r.symbol
  have hreconciled := reconcile_exact h.exact p.1.discovered
  unfold Skips at hskips
  have hlog : (w.step backend p).seen.log = w.seen.log ++ w.seen.db.requests backend p.1 p.2 := rfl
  have hat : (w.step backend p).syncedAt r.symbol =
      if (w.seen.db.requests backend p.1 p.2).any fun q => q.symbol == r.symbol then p.1.now
      else w.syncedAt r.symbol := rfl
  rcases hpoll with ⟨row, hrow, hsynced⟩ | ⟨hsame, hnone, -⟩
  · obtain ⟨page, hpage⟩ := hsynced.request
    have hany : (w.seen.db.requests backend p.1 p.2).any (fun q => q.symbol == r.symbol) = true :=
      List.any_eq_true.2 ⟨_, hpage, beq_self_eq_true _⟩
    rw [hany, if_pos rfl] at hat
    have haligned := hreconciled.aligned r.symbol row hrow
    -- the cursor ends where the window does
    have hcursor : ∀ c, row.syncedThroughTsUs = some c →
        c ≤ settled (w.syncedAt r.symbol) ∧ w.syncedAt r.symbol ≤ now ∧
          c ≤ (row.window p.1.now).2 := by
      intro c hc
      obtain ⟨hc', hclock⟩ := h.cursor row c (reconcile_cursor hrow hc) hc
      exact ⟨hc', hclock,
        (cursor_le_through haligned hc (hc'.trans (settled_mono (hclock.trans hnow)))).2⟩
    have hend : advanceCursor (row.window p.1.now).2 row =
        { row with syncedThroughTsUs := some (row.window p.1.now).2 } := by
      unfold advanceCursor
      cases hc : row.syncedThroughTsUs with
      | none =>
        have hpos := (syncWindow_spec haligned p.1.now).1
        have hwindow := hsynced.window
        have hstart := haligned.1
        unfold SymbolRow.window at *
        rw [Option.getD_none, max_eq_right (by omega)]
      | some c =>
        rw [Option.getD_some, max_eq_right (hcursor c hc).2.2]
    have hrow' : ∀ row', (w.step backend p).seen.db.symbols[r.symbol]? = some row' →
        row' = { row with syncedThroughTsUs := some (row.window p.1.now).2 } := by
      intro row' hrow'
      have hdb : (w.step backend p).seen.db.symbols[r.symbol]? =
          some (advanceCursor (row.window p.1.now).2 row) := hsynced.row
      rw [hdb, hend, Option.some.injEq] at hrow'
      exact hrow'.symm
    refine ⟨hexact, hregistered, fun row' c hrow₁ hc => ?_, fun row' c hrow₁ hc hstart hle hat' => ?_⟩
    · obtain rfl := hrow' row' hrow₁
      obtain rfl := Option.some.inj hc
      rw [hat]
      exact ⟨min_le_right _ _, le_refl _⟩
    · obtain rfl := hrow' row' hrow₁
      obtain rfl := Option.some.inj hc
      rw [hat] at hat'
      rw [hlog]
      by_cases hfrom : (row.window p.1.now).1 ≤ 1000 * r.time
      · exact ⟨_, List.mem_append_right _ hpage, rfl, ⟨hfrom, hle⟩, hpublished hat' page⟩
      · -- behind the window: requested before
        obtain ⟨c, hc', hcases⟩ := before_window haligned hstart (not_le.1 hfrom)
        obtain ⟨hsettled, hclock, -⟩ := hcursor c hc'
        have hbefore : publishedAt ≤ w.syncedAt r.symbol := by
          have hlt := settled_lt (w.syncedAt r.symbol)
          rcases hcases with ⟨hpast, hold⟩ | hday
          · by_contra hlate
            exact hskips ⟨hany, not_le.1 hlate, hat', row, c, hrow, hc', hpast, hold⟩
          · omega
        have hpast : 1000 * r.time ≤ c := by
          rcases hcases with ⟨hpast, -⟩ | hday
          · exact hpast
          · unfold DAY_US at hday
            omega
        obtain ⟨q, hq, hrest⟩ := h.requested row c (reconcile_cursor hrow hc') hc' hstart hpast hbefore
        exact ⟨q, List.mem_append_left _ hq, hrest⟩
  · have hany : (w.seen.db.requests backend p.1 p.2).any (fun q => q.symbol == r.symbol) = false := by
      rw [List.any_eq_false]
      exact fun q hq => by rw [beq_iff_eq]; exact hnone q hq
    rw [hany, if_neg Bool.false_ne_true] at hat
    have hbefore : ∀ (row : SymbolRow) c,
        (w.step backend p).seen.db.symbols[r.symbol]? = some row →
          row.syncedThroughTsUs = some c → w.seen.db.symbols[r.symbol]? = some row := by
      intro row c hrow hc
      have hdb : (w.seen.db.poll backend p.1).1.symbols[r.symbol]? = some row := hrow
      rcases hsame with hsame | hsame
      · exact hsame.symm.trans hdb
      · exact reconcile_cursor (hsame.symm.trans hdb) hc
    refine ⟨hexact, hregistered, fun row c hrow hc => ?_, fun row c hrow hc hstart hle hat' => ?_⟩
    · rw [hat]
      obtain ⟨hsettled, hclock⟩ := h.cursor row c (hbefore row c hrow hc) hc
      exact ⟨hsettled, hclock.trans hnow⟩
    · rw [hat] at hat'
      obtain ⟨q, hq, hrest⟩ := h.requested row c (hbefore row c hrow hc) hc hstart hle hat'
      exact ⟨q, List.mem_append_left _ hq, hrest⟩

theorem Caught.mono {r : IncomeRow} {publishedAt now now' : Int} {w : Watched}
    (h : Caught exchange r publishedAt now w) (hle : now ≤ now') :
    Caught exchange r publishedAt now' w where
  exact := h.exact
  registered := h.registered
  cursor row c hrow hc := ⟨(h.cursor row c hrow hc).1, (h.cursor row c hrow hc).2.trans hle⟩
  requested := h.requested

theorem seen_run (backend : Backend) (polls : List (Poll × Moments)) :
    (Steps.run (Watched.step backend) Watched.start polls).seen = observed backend polls := by
  induction polls using List.reverseRecOn with
  | nil => rfl
  | append_singleton polls p ih =>
    rw [observed, Steps.run_append, Steps.run_append, ← observed, ← ih]
    rfl

theorem caught_run {r : IncomeRow} {publishedAt : Int} {polls : List (Poll × Moments)}
    (hans : ∀ q ∈ polls, ∀ symbol, (q.1.sync symbol).Answered exchange (q.2 symbol) symbol)
    (hclock : polls.Pairwise fun q q' => q.1.now ≤ q'.1.now)
    (hpublished : ∀ q ∈ polls, publishedAt ≤ q.1.now →
      ∀ page, r ∈ exchange.published (q.2 r.symbol page))
    (hlag : publishedAt ≤ 1000 * r.time + DAY_US)
    (hskips : Steps.Along (Watched.step backend) (fun w q => ¬ Skips backend r publishedAt w q)
      Watched.start polls) {now : Int} (hnow : ∀ q ∈ polls, q.1.now ≤ now) :
    Caught exchange r publishedAt now (Steps.run (Watched.step backend) Watched.start polls) := by
  induction polls using List.reverseRecOn generalizing now with
  | nil => exact Caught.start r publishedAt now
  | append_singleton polls p ih =>
    have hp : p ∈ polls ++ [p] := List.mem_append_right _ (List.mem_singleton_self p)
    have hmem : ∀ q ∈ polls, q ∈ polls ++ [p] := fun q hq => List.mem_append_left _ hq
    obtain ⟨hpairs, -, hlast⟩ := List.pairwise_append.1 hclock
    obtain ⟨hskips, hskip, -⟩ := Steps.along_append.1 hskips
    have hbefore := ih (fun q hq => hans q (hmem q hq)) hpairs
      (fun q hq => hpublished q (hmem q hq)) hskips
      (fun q hq => hlast q hq p (List.mem_singleton_self p))
    rw [Steps.run_append]
    exact (hbefore.step (le_refl _) (hans p hp) (hpublished p hp) hlag hskip).mono (hnow p hp)

/-- A row of a symbol's history, published a day after its own time at the latest, and a
successful poll that starts after that and leaves the cursor of the symbol at its settled
end. -/
structure LateRow (exchange : Exchange) (backend : Backend) (polls : List (Poll × Moments))
    (p : Poll × Moments) (r : IncomeRow) (publishedAt : Int) : Prop where
  answered : ∀ q ∈ polls ++ [p], ∀ symbol,
    (q.1.sync symbol).Answered exchange (q.2 symbol) symbol
  forward : (polls ++ [p]).Pairwise fun q q' => q.1.now ≤ q'.1.now
  published : ∀ q ∈ polls ++ [p], publishedAt ≤ q.1.now →
    ∀ page, r ∈ exchange.published (q.2 r.symbol page)
  lag : publishedAt ≤ 1000 * r.time + DAY_US
  after : publishedAt ≤ p.1.now
  ok : ((observed backend polls).db.poll backend p.1).2 = .ok ()
  cursor : ∃ row : SymbolRow, (observed backend (polls ++ [p])).db.symbols[r.symbol]? = some row ∧
    row.startTsUs ≤ 1000 * r.time ∧ ∃ c, row.syncedThroughTsUs = some c ∧ settled p.1.now ≤ c

/-- The row is in the ledger after the poll, if it is not after the settled end, unless the
first synchronisation since it was published resumed from an old cursor past the row. -/
theorem late_row_booked {exchange : Exchange} {backend : Backend} {polls : List (Poll × Moments)}
    {p : Poll × Moments} {r : IncomeRow} {publishedAt : Int}
    (h : LateRow exchange backend polls p r publishedAt)
    (htime : 1000 * r.time ≤ settled p.1.now)
    (hskips : Steps.Along (Watched.step backend) (fun w q => ¬ Skips backend r publishedAt w q)
      Watched.start (polls ++ [p])) :
    Booked (observed backend (polls ++ [p])).db.income r := by
  obtain ⟨hans, hclock, hpublished, hlag, hafter, hok, row, hrow, hstart, c, hcursor, hsettled⟩ := h
  have hp : p ∈ polls ++ [p] := List.mem_append_right _ (List.mem_singleton_self p)
  have hmem : ∀ q ∈ polls, q ∈ polls ++ [p] := fun q hq => List.mem_append_left _ hq
  obtain ⟨hpairs, -, hlast⟩ := List.pairwise_append.1 hclock
  obtain ⟨hskips', -⟩ := Steps.along_append.1 hskips
  have hbefore := caught_run (fun q hq => hans q (hmem q hq)) hpairs
    (fun q hq => hpublished q (hmem q hq)) hlag hskips'
    (fun q hq => hlast q hq p (List.mem_singleton_self p))
  have hnow : ∀ q ∈ polls ++ [p], q.1.now ≤ p.1.now := by
    intro q hq
    rcases List.mem_append.1 hq with hq | hq
    · exact hlast q hq p (List.mem_singleton_self p)
    · rw [List.mem_singleton.1 hq]
  have hcaught := caught_run hans hclock hpublished hlag hskips hnow
  rw [← seen_run] at hrow hok ⊢
  -- the successful poll has synchronised the symbol
  have hany : ((Steps.run (Watched.step backend) Watched.start polls).seen.db.requests backend
      p.1 p.2).any (fun q => q.symbol == r.symbol) = true := by
    obtain ⟨-, ⟨row₁, -, hsynced⟩ | ⟨hsame, -, hempty⟩⟩ :=
      poll_symbol hbefore.registered backend (hans p hp) r.symbol
    · obtain ⟨page, hpage⟩ := hsynced.request
      exact List.any_eq_true.2 ⟨_, hpage, beq_self_eq_true _⟩
    · have hrow' : ((Steps.run (Watched.step backend) Watched.start polls).seen.db.poll backend
          p.1).1.symbols[r.symbol]? = some row := by
        rw [Steps.run_append] at hrow
        exact hrow
      have hold : (Steps.run (Watched.step backend) Watched.start polls).seen.db.symbols[r.symbol]? =
          some row := by
        rcases hsame with hsame | hsame
        · exact hsame.symm.trans hrow'
        · exact reconcile_cursor (hsame.symm.trans hrow') hcursor
      obtain ⟨hc, hclock'⟩ := hbefore.cursor row c hold hcursor
      have hopen := (cursor_le_through (hbefore.exact.aligned r.symbol row hold) hcursor
        (hc.trans (settled_mono hclock'))).1
      exact absurd (hempty hok row hrow') (not_lt.2 hopen)
  have hat : (Steps.run (Watched.step backend) Watched.start (polls ++ [p])).syncedAt r.symbol =
      p.1.now := by
    rw [Steps.run_append]
    exact if_pos hany
  obtain ⟨q, hq, hsymbol, hcovers, hr⟩ := hcaught.requested row c hrow hcursor hstart
    (htime.trans hsettled) (by rw [hat]; exact hafter)
  exact hcaught.exact.booked q hq r hr hsymbol.symm hcovers

/-! ## An outage -/

theorem sample_answered {minute minute' : Int} {q : Poll × Moments}
    (hq : q ∈ [((samplePoll minute [] .committed, fun _ _ => 0) : Poll × Moments)] ++
      [(samplePoll minute' [sampleRow] .committed, fun _ _ => 1)]) (symbol : String) :
    (q.1.sync symbol).Answered sampleExchange (q.2 symbol) symbol := by
  rcases List.mem_cons.1 hq with rfl | hq
  · exact samplePoll_answered minute _ 0 [] (fun r => by simp [sampleExchange]) symbol
  · obtain rfl := List.mem_singleton.1 hq
    exact samplePoll_answered minute' _ 1 [sampleRow] (fun r => by simp [sampleExchange]) symbol

/-- A poll before the row is published, and one that books or misses it. -/
theorem sample_late {minute minute' : Int} (hlt : minute < minute')
    (hlag : 60000000 * minute < 82800000000)
    (hok : ((observed .binance [(samplePoll minute [] .committed, fun _ _ => 0)]).db.poll .binance
      (samplePoll minute' [sampleRow] .committed)).2 = .ok ())
    (hcursor : (observed .binance ([(samplePoll minute [] .committed, fun _ _ => 0)] ++
      [(samplePoll minute' [sampleRow] .committed, fun _ _ => 1)])).db.symbols["BTCUSDT"]? =
        some ⟨1700000000000000, some (settled (1700003600000000 + minute' * 60000000))⟩) :
    LateRow sampleExchange .binance [(samplePoll minute [] .committed, fun _ _ => 0)]
      (samplePoll minute' [sampleRow] .committed, fun _ _ => 1) sampleRow
      (1700003600000001 + minute * 60000000) where
  answered q hq symbol := sample_answered hq symbol
  forward := by
    refine List.pairwise_pair.2 ?_
    show 1700003600000000 + minute * 60000000 ≤ 1700003600000000 + minute' * 60000000
    omega
  published q hq hle page := by
    rcases List.mem_cons.1 hq with rfl | hq
    · have hle' : 1700003600000001 + minute * 60000000 ≤ 1700003600000000 + minute * 60000000 := hle
      omega
    · obtain rfl := List.mem_singleton.1 hq
      exact Set.mem_singleton _
  lag := by
    show 1700003600000001 + minute * 60000000 ≤ 1000 * 1700000001000 + 86400000000
    omega
  after := by
    show 1700003600000001 + minute * 60000000 ≤ 1700003600000000 + minute' * 60000000
    omega
  ok := hok
  cursor := by
    refine ⟨_, hcursor, ?_, _, rfl, le_refl _⟩
    show (1700000000000000 : Int) ≤ 1000 * 1700000001000
    decide

theorem late_row_booked_sample : Booked (observed .binance
    ([(samplePoll 0 [] .committed, fun _ _ => 0)] ++
      [(samplePoll 1 [sampleRow] .committed, fun _ _ => 1)])).db.income sampleRow := by
  refine late_row_booked (sample_late (by decide) (by decide) (by decide +kernel)
    (by decide +kernel)) (by decide) ⟨fun hskip => absurd hskip.2.2.1 (by decide), fun hskip => ?_,
      trivial⟩
  obtain ⟨-, -, -, row, c, hrow, hc, -, hold⟩ := hskip
  have hrow' : ((Watched.step .binance Watched.start (samplePoll 0 [] .committed,
      fun _ _ => 0)).seen.db.reconcileOrderHistory
        (samplePoll 1 [sampleRow] .committed).discovered).1.symbols["BTCUSDT"]? =
          some ⟨1700000000000000, some 1700003540000000⟩ := by decide +kernel
  have heq := hrow'.symm.trans hrow
  cases heq
  cases hc
  exact absurd hold (by decide)

/-- A row published while the manager is down for three days is behind the cursor, and is not
requested any more; a row of the last minute is not requested yet. -/
theorem late_rows_missed :
    (¬ ∀ (exchange : Exchange) (backend : Backend) (polls : List (Poll × Moments))
      (p : Poll × Moments) (r : IncomeRow) (publishedAt : Int),
      LateRow exchange backend polls p r publishedAt → 1000 * r.time ≤ settled p.1.now →
        Booked (observed backend (polls ++ [p])).db.income r) ∧
    ¬ ∀ (exchange : Exchange) (backend : Backend) (polls : List (Poll × Moments))
      (p : Poll × Moments) (r : IncomeRow) (publishedAt : Int),
      LateRow exchange backend polls p r publishedAt →
        Steps.Along (Watched.step backend) (fun w q => ¬ Skips backend r publishedAt w q)
          Watched.start (polls ++ [p]) →
        Booked (observed backend (polls ++ [p])).db.income r := by
  have hmissing : ∀ income : OrdMap String IncomeEntry, income["987"]? = none →
      ¬ Booked income sampleRow := by
    rintro income hnone ⟨tranId, entry, ⟨hid, -⟩, hentry⟩
    have hid' : some "987" = some tranId := hid
    rw [← Option.some.inj hid', hnone] at hentry
    cases hentry
  constructor
  · intro h
    refine hmissing _ ?_ (h sampleExchange .binance [(samplePoll 0 [] .committed, fun _ _ => 0)]
      (samplePoll 4320 [sampleRow] .committed, fun _ _ => 1) sampleRow _
      (sample_late (by decide) (by decide) (by decide +kernel) (by decide +kernel)) (by decide))
    decide +kernel
  · intro h
    refine hmissing _ ?_ (h sampleExchange .binance [(samplePoll (-60) [] .committed, fun _ _ => 0)]
      (samplePoll (-59) [sampleRow] .committed, fun _ _ => 1) sampleRow _
      (sample_late (by decide) (by decide) (by decide +kernel) (by decide +kernel))
      ⟨fun hskip => absurd hskip.2.2.1 (by decide), fun hskip => ?_, trivial⟩)
    · decide +kernel
    · obtain ⟨-, -, -, row, c, hrow, hc, -, -⟩ := hskip
      have hrow' : ((Watched.step .binance Watched.start (samplePoll (-60) [] .committed,
          fun _ _ => 0)).seen.db.reconcileOrderHistory
            (samplePoll (-59) [sampleRow] .committed).discovered).1.symbols["BTCUSDT"]? =
              some ⟨1700000000000000, none⟩ := by decide +kernel
      have heq := hrow'.symm.trans hrow
      cases heq
      cases hc

end CtaManager.Funding
