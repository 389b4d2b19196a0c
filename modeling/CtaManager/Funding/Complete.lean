import CtaManager.Funding.Ledger
import CtaManager.Library.Pages

/-!
What the requests of one symbol collect.

An exchange publishes rows over time and withdraws none; it answers a query with the
rows of the range that are published at that moment, a page at a time.  Whatever is
published between two pages, a synchronisation that succeeds has collected exactly the
rows of the range that were published when its last page was requested
(`records_complete`).
-/

namespace CtaManager.Funding

open Check

/-! ## The exchange -/

/-- The published rows of every moment; a transaction id names one row. -/
structure Exchange where
  published : Nat → Set IncomeRow
  grows : ∀ i j, i ≤ j → published i ⊆ published j
  ids : ∀ i, ∀ r ∈ published i, ∀ r' ∈ published i, r.tranId.id = r'.tranId.id →
    r.tranId.id.isSome = true → r = r'

/-- The row is one the query for this range returns. -/
def InRange (symbol : String) (fromUs throughUs : Int) (r : IncomeRow) : Prop :=
  r.symbol = symbol ∧ (fromUs + 999).tdiv 1000 ≤ r.time ∧ r.time ≤ throughUs.tdiv 1000

/-- Every page request is answered from what is published at its moment. -/
structure Answered (exchange : Exchange) (moment : Nat → Nat)
    (answers : Nat → Except String (List IncomeRow)) (symbol : String) (fromUs throughUs : Int) :
    Prop where
  order : ∀ p q, p ≤ q → moment p ≤ moment q
  exact : ∀ (page : Nat) (visible : List IncomeRow), answers page = .ok visible →
    ∀ r, r ∈ visible ↔ r ∈ exchange.published (moment page) ∧ InRange symbol fromUs throughUs r

/-! ## Distinct records -/

/-- The ids seen are those of the records, and no two are equal. -/
structure Distinct (s : OrdSet String × List ValidIncome) : Prop where
  seen : ∀ id, s.1.contains id = true ↔ id ∈ s.2.map ValidIncome.tranId
  nodup : (s.2.map ValidIncome.tranId).Nodup

theorem Distinct.nil : Distinct (∅, []) := by
  refine ⟨fun id => ?_, List.nodup_nil⟩
  simp

/-- One more record, if its id is new. -/
def Adds (s s' : OrdSet String × List ValidIncome) (record : ValidIncome) : Prop :=
  s.1.contains record.tranId = false ∧ s' = (s.1.insert record.tranId, s.2 ++ [record])

theorem Distinct.adds {s s' : OrdSet String × List ValidIncome} {record : ValidIncome}
    (hs : Distinct s) (h : Adds s s' record) : Distinct s' := by
  obtain ⟨hnew, rfl⟩ := h
  refine ⟨fun id => ?_, ?_⟩
  · show (s.1.insert record.tranId).contains id = true ↔ _
    rw [Std.ExtTreeSet.contains_insert, Bool.or_eq_true, hs.seen, List.map_append,
      List.mem_append, List.map_singleton, List.mem_singleton, beq_iff_eq,
      Std.compare_eq_iff_eq]
    constructor
    · rintro (h | h)
      · exact .inr h.symm
      · exact .inl h
    · rintro (h | h)
      · exact .inr h
      · exact .inl h.symm
  · rw [List.map_append, List.map_singleton]
    refine hs.nodup.append (List.nodup_singleton _) fun id hid hid' => ?_
    rw [List.mem_singleton] at hid'
    rw [hid', ← hs.seen, hnew] at hid
    cases hid

/-- A loop that adds one record for each entry. -/
theorem collect_fold {α : Type} {f : OrdSet String × List ValidIncome → α →
      Except String (OrdSet String × List ValidIncome)} {V : α → ValidIncome → Prop} {l : List α}
    (hstep : ∀ a ∈ l, ∀ s s', f s a = .ok s' → ∃ record, V a record ∧ Adds s s' record)
    {s s' : OrdSet String × List ValidIncome} (hs : Distinct s) (h : l.foldlM f s = .ok s') :
    Distinct s' ∧ ∃ new, List.Forall₂ V l new ∧ s'.2 = s.2 ++ new := by
  induction l generalizing s with
  | nil =>
    cases h
    exact ⟨hs, [], List.Forall₂.nil, (List.append_nil _).symm⟩
  | cons a l ih =>
    obtain ⟨t, ht, h⟩ := bind_eq_ok.1 (foldlM_cons f s a l ▸ h)
    obtain ⟨record, hV, hadds⟩ := hstep a List.mem_cons_self s t ht
    obtain ⟨hdistinct, new, hnew, heq⟩ :=
      ih (fun b hb => hstep b (List.mem_cons_of_mem _ hb)) (hs.adds hadds) h
    refine ⟨hdistinct, record :: new, List.Forall₂.cons hV hnew, ?_⟩
    rw [heq, hadds.2, List.append_assoc]
    rfl

def Valid (symbol : String) (fromUs throughUs : Int) (row : IncomeRow) (record : ValidIncome) :
    Prop :=
  row.validate symbol fromUs throughUs = .ok record

theorem collectRow_eq_ok {symbol : String} {fromUs throughUs : Int}
    {s s' : OrdSet String × List ValidIncome} {row : IncomeRow}
    (h : collectRow symbol fromUs throughUs s row = .ok s') :
    ∃ record, Valid symbol fromUs throughUs row record ∧ Adds s s' record := by
  obtain ⟨record, hrecord, h⟩ := bind_eq_ok.1 h
  obtain ⟨_, hnew, h⟩ := bind_eq_ok.1 h
  cases h
  rw [ensure_eq_ok, Bool.not_eq_true'] at hnew
  exact ⟨record, hrecord, hnew, rfl⟩

/-- Records of distinct ids come from distinct rows. -/
theorem nodup_rows {symbol : String} {fromUs throughUs : Int} {rows : List IncomeRow}
    {records : List ValidIncome} (h : List.Forall₂ (Valid symbol fromUs throughUs) rows records)
    (hnodup : (records.map ValidIncome.tranId).Nodup) : rows.Nodup := by
  induction h with
  | nil => exact List.nodup_nil
  | @cons row record rows records hV hrest ih =>
    rw [List.map_cons, List.nodup_cons] at hnodup
    refine List.nodup_cons.2 ⟨fun hmem => hnodup.1 ?_, ih hnodup.2⟩
    obtain ⟨record', hrecord', hV'⟩ := exists_right_of_forall₂ hrest hmem
    have heq : record' = record := Except.ok.inj (hV'.symm.trans hV)
    exact List.mem_map.2 ⟨record', hrecord', congrArg _ heq⟩

/-! ## The page loops -/

/-- What stands after the pages before `page`. -/
structure Collected (exchange : Exchange) (moment : Nat → Nat) (symbol : String)
    (fromUs throughUs : Int) (page : Nat) (s : OrdSet String × List ValidIncome) : Prop where
  distinct : Distinct s
  rows : ∃ rows : List IncomeRow, List.Forall₂ (Valid symbol fromUs throughUs) rows s.2 ∧
    ∀ r ∈ rows, r ∈ exchange.published (moment page) ∧ InRange symbol fromUs throughUs r

/-- The records are those of the rows of the range published at `moment`. -/
structure Complete (exchange : Exchange) (moment : Nat) (symbol : String) (fromUs throughUs : Int)
    (records : List ValidIncome) : Prop where
  sound : ∀ record ∈ records, ∃ r ∈ exchange.published moment,
    InRange symbol fromUs throughUs r ∧ Valid symbol fromUs throughUs r record
  complete : ∀ r ∈ exchange.published moment, InRange symbol fromUs throughUs r →
    ∃ record ∈ records, Valid symbol fromUs throughUs r record
  nodup : (records.map ValidIncome.tranId).Nodup

variable {exchange : Exchange} {moment : Nat → Nat}
  {answers : Nat → Except String (List IncomeRow)} {symbol : String} {fromUs throughUs : Int}

theorem mem_of_mem_exchangePage {visible : List IncomeRow} {page : Nat} {r : IncomeRow}
    (h : r ∈ exchangePage visible page) : r ∈ visible :=
  List.mem_of_mem_drop (List.mem_of_mem_take h)

/-- One more page. -/
theorem Collected.append {page : Nat} {s s' : OrdSet String × List ValidIncome}
    (hans : Answered exchange moment answers symbol fromUs throughUs)
    (hs : Collected exchange moment symbol fromUs throughUs page s)
    {visible : List IncomeRow} (hvisible : answers page = .ok visible)
    {new : List ValidIncome} (hdistinct : Distinct s') (hnew : s'.2 = s.2 ++ new)
    (hvalid : List.Forall₂ (Valid symbol fromUs throughUs) (exchangePage visible page) new) :
    Collected exchange moment symbol fromUs throughUs page s' := by
  obtain ⟨rows, hrows, hmem⟩ := hs.rows
  refine ⟨hdistinct, rows ++ exchangePage visible page, ?_, fun r hr => ?_⟩
  · rw [hnew]
    exact List.rel_append hrows hvalid
  · rcases List.mem_append.1 hr with hr | hr
    · exact hmem r hr
    · exact (hans.exact page visible hvisible r).1 (mem_of_mem_exchangePage hr)

theorem Collected.later {page page' : Nat} {s : OrdSet String × List ValidIncome}
    (hans : Answered exchange moment answers symbol fromUs throughUs) (h : page ≤ page')
    (hs : Collected exchange moment symbol fromUs throughUs page s) :
    Collected exchange moment symbol fromUs throughUs page' s := by
  obtain ⟨rows, hrows, hmem⟩ := hs.rows
  exact ⟨hs.distinct, rows, hrows, fun r hr =>
    ⟨exchange.grows _ _ (hans.order page page' h) (hmem r hr).1, (hmem r hr).2⟩⟩

/-- Distinct rows that are the visible ones, in some order, are complete. -/
theorem complete_of_perm {page : Nat} {visible rows : List IncomeRow}
    {records : List ValidIncome}
    (hans : Answered exchange moment answers symbol fromUs throughUs)
    (hvisible : answers page = .ok visible)
    (hrows : List.Forall₂ (Valid symbol fromUs throughUs) rows records)
    (hnodup : (records.map ValidIncome.tranId).Nodup) (hperm : rows.Perm visible) :
    Complete exchange (moment page) symbol fromUs throughUs records := by
  refine ⟨fun record hrecord => ?_, fun r hr hrange => ?_, hnodup⟩
  · obtain ⟨r, hr, hV⟩ := exists_left_of_forall₂ hrows hrecord
    have := (hans.exact page visible hvisible r).1 (hperm.subset hr)
    exact ⟨r, this.1, this.2, hV⟩
  · exact exists_right_of_forall₂ hrows
      (hperm.symm.subset ((hans.exact page visible hvisible r).2 ⟨hr, hrange⟩))

/-- The last page a loop requests, where `ends` says which page ends it. -/
def lastPage (ends : List IncomeRow → Nat → Bool) (answers : Nat → Except String (List IncomeRow)) :
    Nat → Nat → Nat
  | 0, page => page
  | rounds + 1, page =>
    match answers page with
    | .ok visible => if ends visible page then page else lastPage ends answers rounds (page + 1)
    | .error _ => page

/-- A page of Binance that is not full. -/
def shortPage (visible : List IncomeRow) (page : Nat) : Bool :=
  decide ((exchangePage visible page).length < 1000)

/-- The last of the pages RapidX reports. -/
def countedPage (visible : List IncomeRow) (page : Nat) : Bool :=
  decide ((visible.length + 999) / 1000 ≤ page)

/-- The page loop of Binance. -/
theorem collectPages_complete (hans : Answered exchange moment answers symbol fromUs throughUs)
    {rounds page : Nat} {s : OrdSet String × List ValidIncome} (hpage : 1 ≤ page)
    (hs : Collected exchange moment symbol fromUs throughUs page s)
    (hlength : s.2.length = 1000 * (page - 1)) {records : List ValidIncome}
    (h : collectPages symbol fromUs throughUs answers rounds page s = .ok records) :
    Complete exchange (moment (lastPage shortPage answers rounds page)) symbol fromUs
      throughUs records := by
  induction rounds generalizing page s with
  | zero => cases h
  | succ rounds ih =>
    obtain ⟨visible, hvisible, h⟩ := bind_eq_ok.1 h
    obtain ⟨_, -, h⟩ := bind_eq_ok.1 h
    obtain ⟨s', hs', h⟩ := bind_eq_ok.1 h
    obtain ⟨hdistinct, new, hvalid, hnew⟩ :=
      collect_fold (fun a _ s s' hstep => collectRow_eq_ok hstep) hs.distinct hs'
    have hcollected := hs.append hans hvisible hdistinct hnew hvalid
    have hnewlen := hvalid.length_eq
    rw [lastPage, hvisible]
    show Complete exchange (moment (if shortPage visible page = true then page else _)) _ _ _ _
    split at h
    next hshort =>
      cases h
      rw [if_pos (show shortPage visible page = true from decide_eq_true hshort)]
      obtain ⟨rows, hrows, hmem⟩ := hs.rows
      have hall : List.Forall₂ (Valid symbol fromUs throughUs)
          (rows ++ exchangePage visible page) s'.2 := hnew ▸ List.rel_append hrows hvalid
      refine complete_of_perm hans hvisible hall hdistinct.nodup ?_
      refine Pages.perm_of_short_page (hrows.length_eq.trans hlength) (fun r hr => ?_)
        (nodup_rows hall hdistinct.nodup) hshort
      exact (hans.exact page visible hvisible r).2 (hmem r hr)
    next hfull =>
      rw [if_neg (by rw [shortPage, decide_eq_true_eq]; exact hfull)]
      refine ih (Nat.le_add_left 1 page) (hcollected.later hans (Nat.le_succ page)) ?_ h
      have hpagelen : (exchangePage visible page).length ≤ 1000 := List.length_take_le _ _
      rw [hnew, List.length_append, hlength, ← hnewlen]
      omega

@[simp] theorem required_some {α : Type} (a : α) (e : String) : required (some a) e = .ok a := rfl

theorem parseStatement_eq_ok {portfolio : String} {sym : String} {row : IncomeRow} {p : Nat}
    (hsymbol : row.symbol = symbol) {s s' : OrdSet String × List ValidIncome}
    (h : parseStatement portfolio sym symbol fromUs throughUs s {
      portfolioId := some p
      exchangeType := some "BINANCE"
      businessType := some "PERP"
      sym := some sym
      coin := some row.asset
      deltaAmount := some row.income
      createAt := some row.time
      statementType := some row.incomeType
      statementId := row.tranId.id } = .ok s') :
    ∃ record, Valid symbol fromUs throughUs row record ∧ Adds s s' record := by
  unfold parseStatement at h
  obtain ⟨_, -, h⟩ := bind_eq_ok.1 h
  simp only [required_some, ok_bind] at h
  obtain ⟨tranId, hid, h⟩ := bind_eq_ok.1 h
  obtain ⟨record, hrecord, h⟩ := bind_eq_ok.1 h
  obtain ⟨_, hnew, h⟩ := bind_eq_ok.1 h
  cases h
  rw [ensure_eq_ok, Bool.not_eq_true'] at hnew
  refine ⟨record, ?_, hnew, rfl⟩
  have hid' : row.tranId.id = some tranId := by
    revert hid
    cases row.tranId.id with
    | none => exact fun h => by cases h
    | some i => exact fun h => by rw [Except.ok.inj h]
  unfold Valid IncomeRow.validate
  unfold IncomeRow.validate at hrecord
  rw [hid', hsymbol]
  exact hrecord

theorem collectRecord_eq_ok {s s' : OrdSet String × List ValidIncome} {record : ValidIncome}
    (h : collectRecord s record = .ok s') : ∃ record', record = record' ∧ Adds s s' record' := by
  obtain ⟨_, hnew, h⟩ := bind_eq_ok.1 h
  cases h
  rw [ensure_eq_ok, Bool.not_eq_true'] at hnew
  exact ⟨record, rfl, hnew, rfl⟩

/-- A page of statements, parsed. -/
theorem parsePage_eq_ok {visible : List IncomeRow} {portfolio : Nat} {sym : String}
    {env : Option String} {page pages total : Nat} {previous : Option (Nat × Nat)}
    {records : List ValidIncome} (hsymbol : ∀ r ∈ visible, r.symbol = symbol)
    (hsym : rapidxSym symbol = .ok sym)
    (h : parsePage (statementPage visible portfolio sym page) env symbol fromUs throughUs page
      previous = .ok (pages, total, records)) :
    pages = (visible.length + 999) / 1000 ∧ total = visible.length ∧
      List.Forall₂ (Valid symbol fromUs throughUs) (exchangePage visible page) records := by
  unfold parsePage at h
  obtain ⟨_, -, h⟩ := bind_eq_ok.1 h
  obtain ⟨pages', hpages, h⟩ := bind_eq_ok.1 h
  obtain ⟨total', htotal, h⟩ := bind_eq_ok.1 h
  obtain ⟨_, -, h⟩ := bind_eq_ok.1 h
  obtain ⟨_, -, h⟩ := bind_eq_ok.1 h
  obtain ⟨_, -, h⟩ := bind_eq_ok.1 h
  obtain ⟨_, -, h⟩ := bind_eq_ok.1 h
  obtain ⟨_, -, h⟩ := bind_eq_ok.1 h
  obtain ⟨rows, hrows, h⟩ := bind_eq_ok.1 h
  obtain ⟨_, -, h⟩ := bind_eq_ok.1 h
  obtain ⟨portfolio', -, h⟩ := bind_eq_ok.1 h
  obtain ⟨_, -, h⟩ := bind_eq_ok.1 h
  obtain ⟨sym', hsym', h⟩ := bind_eq_ok.1 h
  obtain ⟨_, -, h⟩ := bind_eq_ok.1 h
  obtain ⟨s, hs, h⟩ := bind_eq_ok.1 h
  cases h
  obtain rfl : sym' = sym := Except.ok.inj (hsym'.symm.trans hsym)
  cases hpages
  cases htotal
  cases hrows
  refine ⟨rfl, rfl, ?_⟩
  rw [List.foldlM_map] at hs
  obtain ⟨-, new, hvalid, hnew⟩ := collect_fold (V := Valid symbol fromUs throughUs)
    (fun r hr s s' hstep =>
      parseStatement_eq_ok (hsymbol r (mem_of_mem_exchangePage hr)) hstep) Distinct.nil hs
  rw [hnew]
  exact hvalid

/-- The page loop of RapidX. -/
theorem collectStatements_complete {portfolio : Nat}
    (hans : Answered exchange moment answers symbol fromUs throughUs)
    {rounds page : Nat} {previous : Option (Nat × Nat)} {s : OrdSet String × List ValidIncome}
    (hs : Collected exchange moment symbol fromUs throughUs page s) {records : List ValidIncome}
    (h : collectStatements portfolio symbol fromUs throughUs answers rounds page previous s =
      .ok records) :
    Complete exchange (moment (lastPage countedPage answers rounds page)) symbol fromUs
      throughUs records := by
  induction rounds generalizing page previous s with
  | zero => cases h
  | succ rounds ih =>
    obtain ⟨sym, hsym, h⟩ := bind_eq_ok.1 h
    obtain ⟨_, -, h⟩ := bind_eq_ok.1 h
    obtain ⟨visible, hvisible, h⟩ := bind_eq_ok.1 h
    obtain ⟨⟨pages, total, new⟩, hparse, h⟩ := bind_eq_ok.1 h
    obtain ⟨s', hs', h⟩ := bind_eq_ok.1 h
    obtain ⟨hpages, htotal, hvalid⟩ := parsePage_eq_ok
      (fun r hr => ((hans.exact page visible hvisible r).1 hr).2.1) hsym hparse
    obtain ⟨hdistinct, new', hsame, hnew⟩ :=
      collect_fold (fun a _ s s' hstep => collectRecord_eq_ok hstep) hs.distinct hs'
    obtain rfl : new = new' := List.forall₂_eq_eq_eq ▸ hsame
    have hcollected := hs.append hans hvisible hdistinct hnew hvalid
    rw [lastPage, hvisible]
    show Complete exchange (moment (if countedPage visible page = true then page else _)) _ _ _ _
    split at h
    next hlast =>
      obtain ⟨_, hcount, h⟩ := bind_eq_ok.1 h
      cases h
      rw [if_pos (show countedPage visible page = true from decide_eq_true (hpages ▸ hlast))]
      obtain ⟨rows, hrows, hmem⟩ := hcollected.rows
      refine complete_of_perm hans hvisible hrows hdistinct.nodup ?_
      -- as many distinct visible rows as there are
      rw [ensure_eq_ok, beq_iff_eq, htotal] at hcount
      refine ((nodup_rows hrows hdistinct.nodup).subperm fun r hr => ?_).perm_of_length_le ?_
      · exact (hans.exact page visible hvisible r).2 (hmem r hr)
      · rw [hrows.length_eq, hcount]
    next hmore =>
      rw [if_neg (by rw [countedPage, decide_eq_true_eq, ← hpages]; exact hmore)]
      exact ih (hcollected.later hans (Nat.le_succ page)) h

/-! ## A synchronisation -/

/-- The last page a synchronisation requests. -/
def Sync.lastPage (sync : Sync) (backend : Backend) (fromUs throughUs : Int) : Nat :=
  match backend with
  | .binance => Funding.lastPage shortPage (sync.pages fromUs throughUs) 100 1
  | .rapidx _ => Funding.lastPage countedPage (sync.pages fromUs throughUs) 100 1

/-- The exchange answers the queries of this synchronisation. -/
def Sync.Answered (exchange : Exchange) (moment : Nat → Nat) (sync : Sync) (symbol : String) :
    Prop :=
  ∀ fromUs throughUs,
    Funding.Answered exchange moment (sync.pages fromUs throughUs) symbol fromUs throughUs

/-- What a synchronisation collects is complete. -/
theorem records_complete {sync : Sync} {backend : Backend} {records : List ValidIncome}
    (hans : sync.Answered exchange moment symbol)
    (h : sync.records backend symbol fromUs throughUs = .ok records) :
    Complete exchange (moment (sync.lastPage backend fromUs throughUs)) symbol fromUs throughUs
      records := by
  have hnil : Collected exchange moment symbol fromUs throughUs 1 (∅, []) :=
    ⟨Distinct.nil, [], List.Forall₂.nil, fun r hr => absurd hr List.not_mem_nil⟩
  have hans := hans fromUs throughUs
  cases backend with
  | binance =>
    obtain ⟨_, -, h⟩ := bind_eq_ok.1 h
    exact collectPages_complete hans (le_refl 1) hnil rfl h
  | rapidx portfolio =>
    obtain ⟨_, -, h⟩ := bind_eq_ok.1 h
    exact collectStatements_complete hans hnil h

end CtaManager.Funding
