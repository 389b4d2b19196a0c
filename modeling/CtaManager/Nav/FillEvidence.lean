import CtaManager.Exec.Routing
import CtaManager.Library.NestedMap
import CtaManager.Library.OrdMapRange
import CtaManager.Nav.FillConserved
import CtaManager.Nav.LiquidityJournal

/-!
The executions that are the evidence (`decode_fills_with_roles` and `resolve` of
`nav/fill_recovery.rs`).

A trade has up to two stored records, one of the stream and one of the REST interface.  They count
once (`decodeFills_getElem?`), in whatever order they are read (`decodeFills_perm`).
-/

namespace CtaManager.FillRecovery

open Check StableSort

structure StoredExecution where
  portfolio : String
  exchange : String
  execution : Execution
  deriving DecidableEq

structure RawRocksRecord where
  key : List UInt8
  value : List UInt8
  deriving DecidableEq

inductive EvidenceError
  | invalidJson
  | symbolScope
  | market
  | cashQuote
  | storageIdentity
  | invalidNumber
  | notPositive
  | emptyIdentity
  | invalidTimestamp
  | invalidSide
  | role (error : JournalError)
  | conflicting (transactionId : String)
  deriving DecidableEq

/-- The readers of a record and the hash of its key. -/
structure EvidenceReader extends JournalReader where
  /-- `serde_json::from_slice` of a `StoredExecution` -/
  decodeStored : List UInt8 → Option StoredExecution
  sha256 : List UInt8 → List UInt8

variable (reader : EvidenceReader)

/-- `u64::to_be_bytes`. -/
def beBytes (n : Nat) : List UInt8 :=
  (List.range 8).reverse.map fun i => UInt8.ofNat (n / 256 ^ i % 256)

/-- The key a record is stored under. -/
def storageKey (portfolio exchange transactionId : String) (rest : Bool) : List UInt8 :=
  let part (s : String) := beBytes s.utf8ByteSize ++ s.toUTF8.toList
  reader.sha256 ("mkt_signal/rapidx_execution/stable_key".toUTF8.toList ++ part portfolio ++
    part exchange ++ part transactionId ++ [if rest then 1 else 0])

def executionVenue (exchange market : String) : Option Int :=
  if exchange = "BINANCE" ∧ (market = "SPOT" ∨ market = "MARGIN") then some 0
  else if exchange = "BINANCE" ∧ market = "PERP" then some 1
  else if exchange = "OKX" ∧ (market = "SPOT" ∨ market = "MARGIN") then some 2
  else if exchange = "OKX" ∧ market = "PERP" then some 3
  else none

/-- The market of an execution, from its `{exchange}_{market}_{base}_{quote}`. -/
def executionMarket (exchange symbol : String) : Except EvidenceError Market :=
  match (symbol.toList.splitOn '_').map String.ofList with
  | [scope, market, base, quote] => do
    ensure (scope == exchange && (quote == "USDT" || quote == "USDC") && !base.isEmpty) .symbolScope
    match executionVenue exchange market with
    | none => throw .market
    | some venueCode =>
      if venueCode = 0 ∨ venueCode = 2 then do
        ensure (quote == "USDT") .cashQuote
        return ⟨base, venueCode⟩
      else return ⟨base ++ quote, venueCode⟩
  | _ => .error .symbolScope

def positiveNumber (text : String) : Except EvidenceError ℚ :=
  match reader.parseF64 text with
  | none => .error .invalidNumber
  | some value => .ok value

def sideCode (side : String) : Except EvidenceError Int :=
  if side = "BUY" then .ok 1 else if side = "SELL" then .ok 2 else .error .invalidSide

/-- The role that the journal has for an execution. -/
def journalLiquidity (roles : Roles) (e : Execution) :
    Except EvidenceError (Option FillLiquidity) :=
  match roles[e.transactionId]? with
  | none => .ok none
  | some role => ((role.validate reader.toJournalReader e).map some).mapError .role

/-- The fill of one execution. -/
def executionFill (roles : Roles) (e : Execution) (clientOrderId : Int) :
    Except EvidenceError (Fill ℚ) := do
  let quantity ← positiveNumber reader e.quantity
  let price ← positiveNumber reader e.price
  ensure (decide (0 < quantity) && decide (0 < price)) .notPositive
  ensure (!e.transactionId.isEmpty && !e.orderId.isEmpty && decide (0 < clientOrderId))
    .emptyIdentity
  let timestampUs := e.timestampMs * 1000
  ensure (decide (0 < timestampUs) && decide (timestampUs ≤ 9223372036854775807))
    .invalidTimestamp
  let side ← sideCode e.side
  let liquidity ← journalLiquidity reader roles e
  return {
    transactionId := e.transactionId, orderId := e.orderId, sideCode := side, quantity, price
    timestampUs, liquidity }

/-- One record: the order and the fill, where the order is a wanted one. -/
def decodeRecord (portfolio exchange : String) (wanted : OrdSet LiquidityOrderKey) (roles : Roles)
    (record : RawRocksRecord) : Except EvidenceError (Option (LiquidityOrderKey × Fill ℚ)) :=
  match reader.decodeStored record.value with
  | none => .error .invalidJson
  | some stored =>
    if stored.portfolio ≠ portfolio ∨ stored.exchange ≠ exchange then .ok none
    else
      match parseI64 stored.execution.clientOrderId with
      | none => .ok none
      | some clientOrderId =>
        if !wanted.toList.any fun key => key.clientOrderId == clientOrderId then .ok none
        else do
          let market ← executionMarket exchange stored.execution.symbol
          let key : LiquidityOrderKey := ⟨market, clientOrderId⟩
          if !wanted.contains key then return none
          else do
            ensure (record.key == storageKey reader portfolio exchange
              stored.execution.transactionId stored.execution.rest) .storageIdentity
            let fill ← executionFill reader roles stored.execution clientOrderId
            return some (key, fill)

abbrev Fills := OrdMap LiquidityOrderKey (OrderFills ℚ)

def insertFill (fills : Fills) (key : LiquidityOrderKey) (fill : Fill ℚ) :
    Except EvidenceError Fills :=
  match OrdMap.atPath fills key fill.transactionId with
  | some old => do
    ensure (old == fill) (.conflicting fill.transactionId)
    return fills
  | none => .ok (OrdMap.putPath fills key fill.transactionId fill)

def decodeStep (portfolio exchange : String) (wanted : OrdSet LiquidityOrderKey) (roles : Roles)
    (fills : Fills) (record : RawRocksRecord) : Except EvidenceError Fills := do
  match ← decodeRecord reader portfolio exchange wanted roles record with
  | none => return fills
  | some (key, fill) => insertFill fills key fill

/-- `decode_fills_with_roles`. -/
def decodeFills (records : List RawRocksRecord) (portfolio exchange : String)
    (wanted : OrdSet LiquidityOrderKey) (roles : Roles) : Except EvidenceError Fills :=
  records.foldlM (decodeStep reader portfolio exchange wanted roles) ∅

/-! ## The recovery of a source -/

inductive ResolveError
  | values (error : String)
  | noEvidence
  | noOrder
  | missingPortfolio
  | invalidPortfolio
  | unsupportedVenue
  | records
  | waiting
  | roles (error : JournalError)
  | evidence (error : EvidenceError)
  | recovery (error : RecoveryError)
  deriving DecidableEq

/-- The orders of the source at the exchange. -/
def wantedOrders (events : List (NavEvent ℚ)) : OrdSet LiquidityOrderKey :=
  (events.filter fun event => event.orderTypeCode != INTERNAL_CROSS_ORDER_TYPE_CODE &&
    decide (0 < event.clientOrderId)).foldl (fun s event => s.insert event.orderKey) ∅

def executionExchange (venue : String) : Except ResolveError String :=
  if venue = "binance-futures" ∨ venue = "binance-margin" then .ok "BINANCE"
  else if venue = "okex-futures" ∨ venue = "okex-margin" then .ok "OKX"
  else .error .unsupportedVenue

/-- `resolve`, with the stored executions if their column family is there, and the roles of the
journal. -/
def resolve (source : Exec.SourceConfig) (events : List (NavEvent ℚ))
    (records : Except ResolveError (Option (List RawRocksRecord))) (roles : Except JournalError Roles) :
    Except ResolveError (Option (List (NavEvent ℚ))) :=
  if events.isEmpty then .ok none
  else
    let unpriced := events.any needsPrice
    match source.sourceValues with
    | .error e => if !unpriced then .ok none else .error (.values e)
    | .ok values =>
      if Exec.executionBackend source.venue values ≠ .ok .ltp then do
        ensure (!unpriced) .noEvidence
        return none
      else
        let wanted := wantedOrders events
        if wanted.isEmpty then do
          ensure (!unpriced) .noOrder
          return none
        else
          match values["LTP_PORTFOLIO_ID"]? with
          | none => .error .missingPortfolio
          | some portfolio => do
            ensure (!portfolio.isEmpty && portfolio.toList.all Text.isAsciiDigit) .invalidPortfolio
            let exchange ← executionExchange source.venue
            match ← records with
            | none => do
              ensure (!unpriced) .waiting
              return none
            | some records => do
              let roles ← roles.mapError .roles
              let fills ←
                (decodeFills reader records portfolio exchange wanted roles).mapError .evidence
              let resolved ← (replaceOrders events wanted fills).mapError .recovery
              return if resolved = events then none else some resolved

/-! ## The executions of an order -/

theorem toOption_insertFill (fills : Fills) (key : LiquidityOrderKey) (fill : Fill ℚ) :
    (insertFill fills key fill).toOption = OrdMap.insertOnce fills (key, fill.transactionId, fill) := by
  unfold insertFill OrdMap.insertOnce
  dsimp only
  cases hat : OrdMap.atPath fills key fill.transactionId with
  | none => rfl
  | some old =>
    dsimp only
    by_cases hsame : old = fill
    · subst hsame
      rw [beq_self_eq_true, ensure_true, OrdMap.putPath_of_atPath hat, if_pos (by simp)]
      rfl
    · rw [beq_eq_false_iff_ne.2 hsame, if_neg (by simpa using hsame)]
      rfl

section

variable (portfolio exchange : String) (wanted : OrdSet LiquidityOrderKey) (roles : Roles)

theorem toOption_decodeStep (fills : Fills) (record : RawRocksRecord) :
    (decodeStep reader portfolio exchange wanted roles fills record).toOption =
      (decodeRecord reader portfolio exchange wanted roles record).toOption.bind fun decoded =>
        match decoded with
        | none => some fills
        | some (key, fill) => OrdMap.insertOnce fills (key, fill.transactionId, fill) := by
  unfold decodeStep
  cases decodeRecord reader portfolio exchange wanted roles record with
  | error e => rfl
  | ok decoded =>
    cases decoded with
    | none => rfl
    | some p => exact toOption_insertFill fills p.1 p.2

/-- Two records in either order. -/
theorem decodeStep_commutes : Commute.Commutes fun (fills : Fills) record =>
    (decodeStep reader portfolio exchange wanted roles fills record).toOption := by
  intro fills record record'
  simp only [toOption_decodeStep]
  cases (decodeRecord reader portfolio exchange wanted roles record).toOption with
  | none =>
    simp only [Option.bind_none]
    exact (Option.bind_fun_none _).symm
  | some decoded =>
    cases (decodeRecord reader portfolio exchange wanted roles record').toOption with
    | none =>
      simp only [Option.bind_none]
      exact Option.bind_fun_none _
    | some decoded' =>
      simp only [Option.bind_some]
      cases decoded with
      | none =>
        cases decoded' with
        | none => rfl
        | some p => exact (Option.bind_some _ _).trans (Option.bind_fun_some _).symm
      | some p =>
        cases decoded' with
        | none => exact (Option.bind_fun_some _).trans (Option.bind_some _ _).symm
        | some p' => exact OrdMap.insertOnce_commutes fills _ _

end

/-- The evidence does not depend on the order of the records. -/
theorem decodeFills_perm {records records' : List RawRocksRecord} (h : records.Perm records')
    (portfolio exchange : String) (wanted : OrdSet LiquidityOrderKey) (roles : Roles) :
    (decodeFills reader records portfolio exchange wanted roles).toOption =
      (decodeFills reader records' portfolio exchange wanted roles).toOption := by
  have hview : ∀ l : List RawRocksRecord,
      (decodeFills reader l portfolio exchange wanted roles).toOption =
        l.foldlM (fun (fills : Fills) record =>
          (decodeStep reader portfolio exchange wanted roles fills record).toOption) ∅ := by
    intro l
    have hfold : (l.foldlM (decodeStep reader portfolio exchange wanted roles) ∅).toOption.map id =
        (l.map id).foldlM (fun (fills : Fills) record =>
          (decodeStep reader portfolio exchange wanted roles fills record).toOption) (id ∅) :=
      Commute.toOption_foldlM (fun fills record => Option.map_id_apply) l ∅
    rw [Option.map_id_apply, List.map_id] at hfold
    exact hfold
  rw [hview, hview]
  exact Commute.foldlM_perm (decodeStep_commutes reader portfolio exchange wanted roles) h ∅

section

variable {portfolio exchange : String} {wanted : OrdSet LiquidityOrderKey} {roles : Roles}
  {reader}

theorem decodeStep_eq_ok {fills fills' : Fills} {record : RawRocksRecord}
    (h : decodeStep reader portfolio exchange wanted roles fills record = .ok fills') :
    (decodeRecord reader portfolio exchange wanted roles record = .ok none ∧ fills' = fills) ∨
      ∃ key fill, decodeRecord reader portfolio exchange wanted roles record =
          .ok (some (key, fill)) ∧
        (∀ old, OrdMap.atPath fills key fill.transactionId = some old → old = fill) ∧
        fills' = OrdMap.putPath fills key fill.transactionId fill := by
  obtain ⟨decoded, hdecoded, h⟩ := bind_eq_ok.1 h
  cases decoded with
  | none =>
    cases h
    exact Or.inl ⟨hdecoded, rfl⟩
  | some p =>
    have hput : OrdMap.insertOnce fills (p.1, p.2.transactionId, p.2) = some fills' := by
      rw [← toOption_insertFill]
      exact congrArg Except.toOption h
    obtain ⟨hold, rfl⟩ := OrdMap.insertOnce_eq_some.1 hput
    exact Or.inr ⟨p.1, p.2, hdecoded, hold, rfl⟩

/-- The evidence has one fill for each trade, whichever records it has. -/
theorem decodeFills_atPath {records : List RawRocksRecord} {fills : Fills}
    (h : decodeFills reader records portfolio exchange wanted roles = .ok fills)
    (key : LiquidityOrderKey) (transactionId : String) (fill : Fill ℚ) :
    OrdMap.atPath fills key transactionId = some fill ↔
      fill.transactionId = transactionId ∧ ∃ record ∈ records,
        decodeRecord reader portfolio exchange wanted roles record = .ok (some (key, fill)) := by
  have hrun : ∀ (l : List RawRocksRecord) (s t : Fills),
      l.foldlM (decodeStep reader portfolio exchange wanted roles) s = .ok t →
        (OrdMap.atPath t key transactionId = some fill ↔
          OrdMap.atPath s key transactionId = some fill ∨ fill.transactionId = transactionId ∧
            ∃ record ∈ l, decodeRecord reader portfolio exchange wanted roles record =
              .ok (some (key, fill))) := by
    intro l
    induction l with
    | nil =>
      intro s t ht
      cases ht
      simp
    | cons record l ih =>
      intro s t ht
      rw [foldlM_cons] at ht
      obtain ⟨mid, hmid, ht⟩ := bind_eq_ok.1 ht
      rw [ih mid t ht, List.exists_mem_cons_iff]
      rcases decodeStep_eq_ok hmid with ⟨hnone, rfl⟩ | ⟨key', fill', hsome, hold, rfl⟩
      · rw [hnone]
        simp
      · rw [hsome, OrdMap.atPath_putPath]
        by_cases hpath : key' = key ∧ fill'.transactionId = transactionId
        · obtain ⟨rfl, rfl⟩ := hpath
          rw [if_pos ⟨rfl, rfl⟩]
          constructor
          · rintro (hfill | hrest)
            · obtain rfl := Option.some.inj hfill
              exact Or.inr ⟨rfl, Or.inl rfl⟩
            · exact Or.inr ⟨hrest.1, Or.inr hrest.2⟩
          · rintro (hfill | ⟨hid, hfirst | hrest⟩)
            · rw [hold fill hfill]
              exact Or.inl rfl
            · cases hfirst
              exact Or.inl rfl
            · exact Or.inr ⟨hid, hrest⟩
        · rw [if_neg hpath]
          constructor
          · exact Or.imp_right fun hrest => ⟨hrest.1, Or.inr hrest.2⟩
          · rintro (hfill | ⟨hid, hfirst | hrest⟩)
            · exact Or.inl hfill
            · cases hfirst
              exact absurd ⟨rfl, hid⟩ hpath
            · exact Or.inr ⟨hid, hrest⟩
  have hempty : OrdMap.atPath (∅ : Fills) key transactionId = none := by
    unfold OrdMap.atPath
    rw [Std.ExtTreeMap.getElem?_empty]
    rfl
  rw [hrun records ∅ fills h, hempty]
  simp

theorem executionFill_positive {e : Execution} {clientOrderId : Int} {fill : Fill ℚ}
    (h : executionFill reader roles e clientOrderId = .ok fill) :
    0 < fill.quantity ∧ 0 < fill.price := by
  obtain ⟨quantity, -, h⟩ := bind_eq_ok.1 h
  obtain ⟨price, -, h⟩ := bind_eq_ok.1 h
  obtain ⟨_, hpositive, h⟩ := bind_eq_ok.1 h
  obtain ⟨_, -, h⟩ := bind_eq_ok.1 h
  obtain ⟨_, -, h⟩ := bind_eq_ok.1 h
  obtain ⟨_, -, h⟩ := bind_eq_ok.1 h
  obtain ⟨_, -, h⟩ := bind_eq_ok.1 h
  cases h
  rw [ensure_eq_ok, Bool.and_eq_true, decide_eq_true_eq, decide_eq_true_eq] at hpositive
  exact hpositive

theorem decodeRecord_positive {record : RawRocksRecord} {key : LiquidityOrderKey} {fill : Fill ℚ}
    (h : decodeRecord reader portfolio exchange wanted roles record = .ok (some (key, fill))) :
    0 < fill.quantity ∧ 0 < fill.price := by
  unfold decodeRecord at h
  split at h
  · cases h
  · split at h
    · cases h
    · split at h
      · cases h
      · split at h
        · cases h
        · obtain ⟨market, -, h⟩ := bind_eq_ok.1 h
          dsimp only at h
          split at h
          · cases h
          · obtain ⟨_, -, h⟩ := bind_eq_ok.1 h
            obtain ⟨fill', hfill, h⟩ := bind_eq_ok.1 h
            cases h
            exact executionFill_positive hfill

/-- The evidence is the trades of the records, each once, whatever the order of the records. -/
theorem decodeFills_once {records : List RawRocksRecord} {fills : Fills}
    (h : decodeFills reader records portfolio exchange wanted roles = .ok fills) :
    (∀ records', records.Perm records' →
        decodeFills reader records' portfolio exchange wanted roles = .ok fills) ∧
      ∀ key transactionId fill, OrdMap.atPath fills key transactionId = some fill ↔
        fill.transactionId = transactionId ∧ ∃ record ∈ records,
          decodeRecord reader portfolio exchange wanted roles record = .ok (some (key, fill)) := by
  refine ⟨fun records' hperm => ?_, decodeFills_atPath h⟩
  have hsame := decodeFills_perm reader hperm portfolio exchange wanted roles
  rw [h] at hsame
  exact toOption_eq_some.1 hsame.symm

/-- What is decoded is evidence. -/
theorem decodeFills_evidence {records : List RawRocksRecord} {fills : Fills}
    (h : decodeFills reader records portfolio exchange wanted roles = .ok fills) :
    ∃ evidence : Evidence ℚ, evidence.fills = fills := by
  have hentry : ∀ order ∈ fills.toList, ∀ entry ∈ order.2.toList,
      OrdMap.atPath fills order.1 entry.1 = some entry.2 := by
    intro order horder entry hentry
    unfold OrdMap.atPath
    rw [OrdMap.mem_toList.1 (show (order.1, order.2) ∈ _ from horder)]
    exact OrdMap.mem_toList.1 (show (entry.1, entry.2) ∈ _ from hentry)
  refine ⟨⟨fills, fun order horder entry hmem => ?_, fun order horder entry hmem => ?_⟩, rfl⟩
  · exact ((decodeFills_atPath h _ _ _).1 (hentry order horder entry hmem)).1
  · obtain ⟨-, record, -, hrecord⟩ :=
      (decodeFills_atPath h _ _ _).1 (hentry order horder entry hmem)
    rw [Exact.isPositive_iff, Exact.isPositive_iff]
    exact decodeRecord_positive hrecord

end

/-! ## What a recovery conserves -/

variable {reader} {source : Exec.SourceConfig} {events : List (NavEvent ℚ)}
  {records : Except ResolveError (Option (List RawRocksRecord))} {roles : Except JournalError Roles}
  {r : Option (List (NavEvent ℚ))}

/-- The executions are those of another source, or none are stored yet, or no order is wanted. -/
def WithoutExecutions (source : Exec.SourceConfig) (events : List (NavEvent ℚ))
    (records : Except ResolveError (Option (List RawRocksRecord))) : Prop :=
  (∀ key, (wantedOrders events).contains key = false) ∨
    (∀ values, source.sourceValues = .ok values →
      Exec.executionBackend source.venue values ≠ .ok .ltp) ∨
    records = .ok none

/-- What the executions of the source are stored under. -/
def Scoped (source : Exec.SourceConfig) (portfolio exchange : String) : Prop :=
  (∃ values, source.sourceValues = .ok values ∧ values["LTP_PORTFOLIO_ID"]? = some portfolio) ∧
    executionExchange source.venue = .ok exchange

/-- The events stay as they are and have their prices, or the wanted orders are recovered. -/
theorem resolve_cases (h : resolve reader source events records roles = .ok r) :
    (r = none ∧ events.any needsPrice = false ∧ WithoutExecutions source events records) ∨
      ∃ portfolio exchange records' roles' fills resolved, Scoped source portfolio exchange ∧
        records = .ok (some records') ∧ roles = .ok roles' ∧
        decodeFills reader records' portfolio exchange (wantedOrders events) roles' = .ok fills ∧
        replaceOrders events (wantedOrders events) fills = .ok resolved ∧ r.getD events = resolved := by
  unfold resolve at h
  split at h
  · next hempty =>
    cases h
    rw [List.isEmpty_iff] at hempty
    subst hempty
    exact Or.inl ⟨rfl, rfl, Or.inl fun key => rfl⟩
  dsimp only at h
  have hpriced : ∀ {e : ResolveError}, WithoutExecutions source events records → (do
      ensure (!events.any needsPrice) e
      return none : Except ResolveError (Option (List (NavEvent ℚ)))) = .ok r →
        r = none ∧ events.any needsPrice = false ∧ WithoutExecutions source events records := by
    intro e hnone hensure
    obtain ⟨_, hpriced, hensure⟩ := bind_eq_ok.1 hensure
    cases hensure
    rw [ensure_eq_ok, Bool.not_eq_true'] at hpriced
    exact ⟨rfl, hpriced, hnone⟩
  cases hvalues : source.sourceValues with
  | error e =>
    rw [hvalues] at h
    dsimp only at h
    split at h
    · next hpriced' =>
      cases h
      refine Or.inl ⟨rfl, by simpa using hpriced', Or.inr (Or.inl fun values hok => ?_)⟩
      rw [hvalues] at hok
      cases hok
    · cases h
  | ok values =>
    rw [hvalues] at h
    dsimp only at h
    split at h
    · next hother =>
      refine Or.inl (hpriced (Or.inr (Or.inl fun values' hok => ?_)) h)
      rw [hvalues] at hok
      cases hok
      exact hother
    · split at h
      · next hempty =>
        refine Or.inl (hpriced (Or.inl fun key => ?_) h)
        rw [Std.ExtTreeSet.isEmpty_iff.1 hempty, Std.ExtTreeSet.contains_empty]
      · split at h
        · cases h
        · next portfolio hportfolio =>
          obtain ⟨_, -, h⟩ := bind_eq_ok.1 h
          obtain ⟨exchange, hexchange, h⟩ := bind_eq_ok.1 h
          obtain ⟨stored, hstored, h⟩ := bind_eq_ok.1 h
          cases stored with
          | none => exact Or.inl (hpriced (Or.inr (Or.inr hstored)) h)
          | some records' =>
            obtain ⟨roles', hroles, h⟩ := bind_eq_ok.1 h
            obtain ⟨fills, hfills, h⟩ := bind_eq_ok.1 h
            obtain ⟨resolved, hresolved, h⟩ := bind_eq_ok.1 h
            rw [mapError_eq_ok] at hroles hfills hresolved
            refine Or.inr ⟨portfolio, exchange, records', roles', fills, resolved,
              ⟨⟨values, hvalues, hportfolio⟩, hexchange⟩, hstored, hroles, hfills, hresolved, ?_⟩
            cases h
            split
            · next hsame => exact hsame.symm
            · rfl

theorem mem_wantedOrders {key : LiquidityOrderKey} (h : (wantedOrders events).contains key = true) :
    ∃ event ∈ events, event.orderKey = key := by
  rw [Std.ExtTreeSet.contains_iff_mem] at h
  rcases (OrdMap.mem_foldl_insert _).1 h with ⟨event, hevent, hkey⟩ | hempty
  · exact ⟨event, (List.mem_filter.1 hevent).1, hkey⟩
  · exact absurd hempty Std.ExtTreeSet.not_mem_empty

/-- The events that a source is seen with after its recovery: the other events are unchanged, the
fills of the wanted orders have prices, and where the source has executions each wanted order is
recovered from those that were decoded. -/
theorem resolve_conserves (h : resolve reader source events records roles = .ok r) :
    ((r.getD events).filter fun event => !(wantedOrders events).contains event.orderKey).Perm
        (events.filter fun event => !(wantedOrders events).contains event.orderKey) ∧
      (∀ event ∈ r.getD events, (wantedOrders events).contains event.orderKey = true →
        needsPrice event = false) ∧
      ((r = none ∧ WithoutExecutions source events records) ∨
        ∃ portfolio exchange records' roles' fills, Scoped source portfolio exchange ∧
          records = .ok (some records') ∧ roles = .ok roles' ∧
          decodeFills reader records' portfolio exchange (wantedOrders events) roles' = .ok fills ∧
          ∀ key, (wantedOrders events).contains key = true →
            OrderRecovered (events.filter fun event => event.orderKey = key)
              (evidenceOf fills[key]?)
              ((r.getD events).filter fun event => event.orderKey = key)) := by
  rcases resolve_cases h with ⟨rfl, hpriced, hnone⟩ | ⟨portfolio, exchange, records', roles', fills,
    resolved, hscope, hrecords, hroles, hfills, hresolved, hresult⟩
  · rw [any_needsPrice_eq_false] at hpriced
    exact ⟨List.Perm.refl _, fun event hevent _ => hpriced event hevent, Or.inl ⟨rfl, hnone⟩⟩
  · rw [hresult]
    obtain ⟨evidence, rfl⟩ := decodeFills_evidence hfills
    obtain ⟨hother, hwanted⟩ := replaceOrders_filter hresolved
    have hrecovered : ∀ key, (wantedOrders events).contains key = true →
        OrderRecovered (events.filter fun event => event.orderKey = key)
          (evidenceOf evidence.fills[key]?)
          (resolved.filter fun event => event.orderKey = key) := by
      intro key hkey
      obtain ⟨event, hevent, heq⟩ := mem_wantedOrders hkey
      have hne : (events.filter fun event => event.orderKey = key) ≠ [] :=
        List.ne_nil_of_mem (List.mem_filter.2 ⟨hevent, decide_eq_true heq⟩)
      obtain ⟨rows, hrows, hperm⟩ := hwanted key hkey hne
      exact (recoverOrder_recovered evidence hne hrows).perm hperm.symm
    refine ⟨hother ▸ perm_stableSort _ _, fun event hevent hkey => ?_, Or.inr ?_⟩
    · exact (hrecovered event.orderKey hkey).priced event
        (List.mem_filter.2 ⟨hevent, decide_eq_true rfl⟩)
    · exact ⟨portfolio, exchange, records', roles', evidence.fills, hscope, hrecords, hroles,
        hfills, hrecovered⟩

section Sample

def sampleExecution (rest : Bool) : Execution where
  transactionId := "a"
  orderId := "88"
  clientOrderId := "7"
  symbol := "BINANCE_MARGIN_FIL_USDT"
  side := "SELL"
  quantity := "2.00"
  price := "100.0"
  timestampMs := 100
  rest := rest

def sampleText (rest : Bool) : List UInt8 :=
  ("\x7b\"portfolio\":\"123\",\"exchange\":\"BINANCE\",\"execution\":\x7b" ++
    "\"transaction_id\":\"a\",\"order_id\":\"88\",\"client_order_id\":\"7\"," ++
    "\"symbol\":\"BINANCE_MARGIN_FIL_USDT\",\"side\":\"SELL\",\"quantity\":\"2.00\"," ++
    "\"price\":\"100.0\",\"timestamp_ms\":100,\"rest\":" ++ (if rest then "true" else "false") ++
    "\x7d\x7d").toUTF8.toList

/-- The key of the record of the stream, and of the one of the REST interface. -/
def sampleKey (rest : Bool) : List UInt8 :=
  if rest then
    [182, 224, 91, 226, 232, 176, 85, 202, 18, 92, 71, 107, 75, 212, 40, 150,
      14, 151, 35, 122, 79, 203, 102, 76, 76, 125, 246, 3, 81, 247, 42, 20]
  else
    [75, 30, 173, 41, 79, 200, 206, 166, 142, 123, 225, 63, 12, 31, 196, 38,
      55, 175, 39, 37, 129, 2, 66, 93, 7, 86, 26, 151, 220, 191, 0, 46]

def sampleEvidenceReader : EvidenceReader where
  fromSlice := fun _ => none
  parseF64 := fun s => if s = "2.00" then some 2 else if s = "100.0" then some 100 else none
  decodeStored := fun value =>
    if value = sampleText true then some ⟨"123", "BINANCE", sampleExecution true⟩
    else if value = sampleText false then some ⟨"123", "BINANCE", sampleExecution false⟩
    else none
  -- the two inputs differ in their last byte
  sha256 := fun input => sampleKey (input.getLast? == some 1)

def sampleSource : Exec.SourceConfig where
  id := "main"
  venue := "binance-margin"
  sourceValues := .ok ((∅ : OrdMap String String).insert "TRADE_ENGINE_EXEC_BACKEND" "ltp"
    |>.insert "LTP_PORTFOLIO_ID" "123")

/-- A fill that was recorded without its price. -/
def sampleEvent : NavEvent ℚ where
  recordKey := "00000000000000090000"
  eventTsUs := 90000
  createTsUs := 1
  updateTsUs := 90000
  signalTsUs := 1
  symbol := "FIL"
  clientOrderId := 7
  venueCode := 0
  venue := "BinanceMargin"
  orderTypeCode := 3
  sideCode := 2
  price := 0
  amountUpdate := 2
  fromKeyText := "batch_exec:alpha"
  fillLiquidity := some .unknown

/-- Both records of the trade. -/
def sampleRecords : List RawRocksRecord :=
  [⟨sampleKey true, sampleText true⟩, ⟨sampleKey false, sampleText false⟩]

def sampleResolved : NavEvent ℚ :=
  { sampleEvent with
    recordKey := "00000000000000090000:execution:a"
    updateTsUs := 100000
    price := 100 }

theorem resolve_sample : resolve sampleEvidenceReader sampleSource [sampleEvent]
    (.ok (some sampleRecords)) (.ok ∅) = .ok (some [sampleResolved]) := by
  decide +kernel

/-- The fill has its price, and as the order was not priced its quantity is that of the trade. -/
theorem resolve_conserves_sample :
    (wantedOrders [sampleEvent]).contains sampleResolved.orderKey = true ∧
      needsPrice sampleResolved = false ∧
      ∃ fills : Fills, decodeFills sampleEvidenceReader sampleRecords "123" "BINANCE"
          (wantedOrders [sampleEvent]) ∅ = .ok fills ∧
        OrderRecovered [sampleEvent] (evidenceOf fills[sampleEvent.orderKey]?) [sampleResolved] := by
  have hwanted : (wantedOrders [sampleEvent]).contains sampleResolved.orderKey = true := by
    decide +kernel
  obtain ⟨-, hpriced, ⟨hnone, -⟩ | ⟨portfolio, exchange, records, roles, fills, hscope, hrecords,
    hroles, hfills, hrecovered⟩⟩ := resolve_conserves resolve_sample
  · cases hnone
  · cases hrecords
    cases hroles
    obtain ⟨⟨values, hvalues, hportfolio⟩, hexchange⟩ := hscope
    cases hvalues
    cases hexchange
    obtain rfl : portfolio = "123" :=
      Option.some.inj (hportfolio.symm.trans (by decide +kernel))
    refine ⟨hwanted, hpriced _ (List.mem_singleton_self _) hwanted, fills, hfills, ?_⟩
    exact hrecovered sampleEvent.orderKey hwanted

theorem decodeFills_once_sample :
    decodeFills sampleEvidenceReader sampleRecords.reverse "123" "BINANCE"
        (wantedOrders [sampleEvent]) ∅ =
      decodeFills sampleEvidenceReader sampleRecords "123" "BINANCE" (wantedOrders [sampleEvent]) ∅ := by
  cases h : decodeFills sampleEvidenceReader sampleRecords "123" "BINANCE"
    (wantedOrders [sampleEvent]) ∅ with
  | error e =>
    have hok : (decodeFills sampleEvidenceReader sampleRecords "123" "BINANCE"
        (wantedOrders [sampleEvent]) ∅).toOption.isSome = true := by decide +kernel
    rw [h] at hok
    cases hok
  | ok fills => exact (decodeFills_once h).1 _ (List.reverse_perm _).symm

end Sample

end CtaManager.FillRecovery
