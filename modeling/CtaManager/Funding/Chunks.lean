import CtaManager.Funding.Complete

/-!
One chunk of the funding ledger.

`syncWindow` continues at the first millisecond behind the cursor or earlier, so the
windows of a symbol leave no millisecond out; the stored rows of a chunk are exactly the
rows of its window, under their transaction ids and with their exact income.
-/

namespace CtaManager.Funding

open Check

/-! ## The window -/

theorem ceil_us {x : Int} (hx : 0 < x) :
    x ≤ (x + 999).tdiv 1000 * 1000 ∧ (x + 999).tdiv 1000 * 1000 < x + 1000 := by
  rw [Int.tdiv_eq_ediv_of_nonneg (by omega)]
  omega

/-- The cursor of a symbol, as far as `syncWindow` relies on it. -/
def Aligned (row : SymbolRow) : Prop :=
  0 < row.startTsUs ∧ ∀ c, row.syncedThroughTsUs = some c → row.startTsUs ≤ c ∧ c % 1000 = 0

/-- Where a window starts, before it is rounded. -/
def windowStart (start : Int) (cursor : Option Int) (now : Int) : Int :=
  match cursor with
  | none => start
  | some ts => if now - 2 * DAY_US ≤ ts then max start (ts - DAY_US) else ts + 1000

theorem syncWindow_eq (start : Int) (cursor : Option Int) (now : Int) :
    syncWindow start cursor now =
      ((windowStart start cursor now + 999).tdiv 1000 * 1000,
        min ((windowStart start cursor now + 999).tdiv 1000 * 1000 + 7 * DAY_US - 1000)
          ((now.tdiv 1000 - 60000) * 1000)) := rfl

theorem windowStart_spec {row : SymbolRow} (h : Aligned row) (now : Int) :
    row.startTsUs ≤ windowStart row.startTsUs row.syncedThroughTsUs now ∧
      ∀ c, row.syncedThroughTsUs = some c →
        windowStart row.startTsUs row.syncedThroughTsUs now ≤ c + 1000 := by
  unfold windowStart
  cases hc : row.syncedThroughTsUs with
  | none => exact ⟨le_refl _, fun c hc => by cases hc⟩
  | some ts =>
    have hts := (h.2 ts hc).1
    constructor
    · dsimp only
      split
      · exact le_max_left _ _
      · omega
    · intro c hc'
      obtain rfl := Option.some.inj hc'
      dsimp only
      split
      · unfold DAY_US
        omega
      · exact le_refl _

/-- What the window of a symbol leaves out is either before its start or synchronised. -/
theorem syncWindow_spec {row : SymbolRow} (h : Aligned row) (now : Int) :
    let w := syncWindow row.startTsUs row.syncedThroughTsUs now
    row.startTsUs ≤ w.1 ∧ w.1 % 1000 = 0 ∧ w.2 % 1000 = 0 ∧
      ∀ m : Int, row.startTsUs ≤ 1000 * m →
        (∀ c, row.syncedThroughTsUs = some c → c < 1000 * m) → w.1 ≤ 1000 * m := by
  obtain ⟨hstart, hnext⟩ := windowStart_spec h now
  have hpos : 0 < windowStart row.startTsUs row.syncedThroughTsUs now :=
    lt_of_lt_of_le h.1 hstart
  obtain ⟨hceil, hceil'⟩ := ceil_us hpos
  rw [syncWindow_eq]
  refine ⟨hstart.trans hceil, Int.mul_emod_left _ _, ?_, fun m hm hafter => ?_⟩
  · show min _ _ % 1000 = 0
    unfold DAY_US
    omega
  · show _ * 1000 ≤ 1000 * m
    have hlt : windowStart row.startTsUs row.syncedThroughTsUs now < 1000 * m + 1 := by
      cases hc : row.syncedThroughTsUs with
      | none =>
        have : windowStart row.startTsUs none now = row.startTsUs := rfl
        omega
      | some c =>
        have h₁ := hnext c hc
        have h₂ := hafter c hc
        have h₃ := (h.2 c hc).2
        rw [hc] at h₁
        omega
    omega

/-- The range of a query in milliseconds is the window. -/
theorem inRange_iff {symbol : String} {fromUs throughUs : Int} (hfrom : 0 < fromUs)
    (hle : fromUs ≤ throughUs) (halign : fromUs % 1000 = 0) (halign' : throughUs % 1000 = 0)
    (r : IncomeRow) : InRange symbol fromUs throughUs r ↔
      r.symbol = symbol ∧ fromUs ≤ 1000 * r.time ∧ 1000 * r.time ≤ throughUs := by
  unfold InRange
  rw [Int.tdiv_eq_ediv_of_nonneg (by omega), Int.tdiv_eq_ediv_of_nonneg (by omega)]
  refine and_congr_right fun _ => ⟨fun h => ?_, fun h => ?_⟩
  · omega
  · omega

/-! ## The rows of a chunk -/

/-- The ledger row of an exchange row. -/
def EntryOf (r : IncomeRow) (tranId : String) (entry : IncomeEntry) : Prop :=
  r.tranId.id = some tranId ∧ ∃ value, parseDecimal r.income = some (.number value) ∧
    entry = ⟨r.symbol, r.asset, r.time * 1000, value⟩

/-- The exchange row stands in the ledger, under its transaction id. -/
def Booked (income : OrdMap String IncomeEntry) (r : IncomeRow) : Prop :=
  ∃ tranId entry, EntryOf r tranId entry ∧ income[tranId]? = some entry

theorem valid_entry {symbol : String} {fromUs throughUs : Int} {r : IncomeRow}
    {record : ValidIncome} (h : Valid symbol fromUs throughUs r record) :
    ∃ value, numeric record.income = .ok value ∧
      EntryOf r record.tranId ⟨symbol, record.asset, record.tsUs, value⟩ := by
  unfold Valid IncomeRow.validate at h
  cases hp : parseDecimal r.income with
  | none =>
    rw [hp] at h
    cases h
  | some d =>
    rw [hp] at h
    obtain ⟨_, hfinite, h⟩ := bind_eq_ok.1 h
    obtain ⟨_, hsymbol, h⟩ := bind_eq_ok.1 h
    obtain ⟨_, -, h⟩ := bind_eq_ok.1 h
    obtain ⟨_, -, h⟩ := bind_eq_ok.1 h
    obtain ⟨_, -, h⟩ := bind_eq_ok.1 h
    cases hid : r.tranId.id with
    | none =>
      rw [hid] at h
      cases h
    | some tranId =>
      rw [hid] at h
      obtain ⟨_, -, h⟩ := bind_eq_ok.1 h
      cases h
      rw [ensure_eq_ok, Bool.and_eq_true, beq_iff_eq, beq_iff_eq] at hsymbol
      cases d with
      | number value =>
        refine ⟨value, ?_, hid, value, hp, ?_⟩
        · rw [numeric, hp]
        · rw [hsymbol.2]
      | infinite => cases hfinite
      | nan => cases hfinite

/-- The ledger after the rows of a chunk: what was there stays, and every record is
there or was. -/
theorem insertIncome_fold {symbol : String} {fromUs throughUs : Int}
    {records : List ValidIncome}
    (hvalid : ∀ record ∈ records, ∃ r, Valid symbol fromUs throughUs r record)
    (income : OrdMap String IncomeEntry) :
    ∃ income', records.foldlM (insertIncome symbol) income = .ok income' ∧
      (∀ (tranId : String) (entry : IncomeEntry), income[tranId]? = some entry →
        income'[tranId]? = some entry) ∧
      (∀ record ∈ records, ∃ entry : IncomeEntry, income'[record.tranId]? = some entry) ∧
      ∀ (tranId : String) (entry : IncomeEntry), income'[tranId]? = some entry →
        income[tranId]? = some entry ∨ ∃ record ∈ records,
          record.tranId = tranId ∧ ∀ r, Valid symbol fromUs throughUs r record →
            EntryOf r tranId entry := by
  induction records generalizing income with
  | nil =>
    exact ⟨income, rfl, fun _ _ h => h, fun _ h => absurd h List.not_mem_nil,
      fun _ _ h => .inl h⟩
  | cons record records ih =>
    obtain ⟨r, hr⟩ := hvalid record List.mem_cons_self
    obtain ⟨value, hvalue, -⟩ := valid_entry hr
    have hinsert : insertIncome symbol income record =
        .ok (if income.contains record.tranId then income
          else income.insert record.tranId ⟨symbol, record.asset, record.tsUs, value⟩) := by
      rw [insertIncome, hvalue]
      rfl
    obtain ⟨income', hfold, hkeep, hall, hfrom⟩ :=
      ih (fun x hx => hvalid x (List.mem_cons_of_mem _ hx))
        (if income.contains record.tranId then income
          else income.insert record.tranId ⟨symbol, record.asset, record.tsUs, value⟩)
    refine ⟨income', by rw [foldlM_cons, hinsert, ok_bind, hfold], fun tranId entry hin => ?_,
      fun x hx => ?_, fun tranId entry hin => ?_⟩
    · refine hkeep tranId entry ?_
      split
      next => exact hin
      next hnew =>
        rw [OrdMap.getElem?_insert_of_key, if_neg]
        · exact hin
        · rintro rfl
          refine hnew ?_
          rw [Std.ExtTreeMap.contains_eq_isSome_getElem?, hin]
          rfl
    · rcases List.mem_cons.1 hx with rfl | hx
      · by_cases hin : income.contains x.tranId = true
        · rw [Std.ExtTreeMap.contains_eq_isSome_getElem?, Option.isSome_iff_exists] at hin
          obtain ⟨entry, hentry⟩ := hin
          refine ⟨entry, hkeep _ _ ?_⟩
          split
          next => exact hentry
          next hnew =>
            refine absurd ?_ hnew
            rw [Std.ExtTreeMap.contains_eq_isSome_getElem?, hentry]
            rfl
        · refine ⟨_, hkeep _ ⟨symbol, x.asset, x.tsUs, value⟩ ?_⟩
          rw [if_neg hin, OrdMap.getElem?_insert_of_key, if_pos rfl]
      · exact hall x hx
    · rcases hfrom tranId entry hin with h | ⟨x, hx, hid, hx'⟩
      · split at h
        next => exact .inl h
        next =>
          rw [OrdMap.getElem?_insert_of_key] at h
          split at h
          next hid =>
            refine .inr ⟨record, List.mem_cons_self, hid, fun r' hr' => ?_⟩
            obtain ⟨value', hvalue', hentry'⟩ := valid_entry hr'
            obtain rfl : value' = value := Except.ok.inj (hvalue'.symm.trans hvalue)
            rw [← hid, ← Option.some.inj h]
            exact hentry'
          next => exact .inl h
      · exact .inr ⟨x, List.mem_cons_of_mem _ hx, hid, hx'⟩

end CtaManager.Funding
