import CtaManager.Accounts.LiveRuns

/-!
What the live state of an account reads.

`Reading` says it of the payloads alone, in no order: the newest account total, else the sum of
the newest wallet rows; the newest initial margin and margin ratio, none where that event has
none.  Every feed of these payloads comes to the one state that reads so
(`liveState_order_free`), and a payload that is not for the account changes nothing.
-/

namespace CtaManager.Accounts

open Check Model Newest OrdMap

/-! ## Addressed payloads -/

/-- A number of the header. -/
def headerAt (payload : List UInt8) (place : Nat) : Nat :=
  LittleEndian.leNat ((payload.drop place).take 4)

def IsRiskEvent (scope : Nat) (payload : List UInt8) : Prop :=
  EVENT_HEADER_LEN + 76 ≤ payload.length ∧ headerAt payload 0 = ACCOUNT_RISK_TYPE ∧
    headerAt payload 4 = scope ∧ headerAt payload 8 = 76

def IsWalletRow (payload : List UInt8) : Prop :=
  EVENT_HEADER_LEN + headerAt payload 8 ≤ payload.length ∧
    headerAt payload 0 = WALLET_SNAPSHOT_TYPE ∧ headerAt payload 4 = BINANCE_STD_UM_SCOPE

/-- A payload of a type, scope and length that the account reads. -/
def Addressed (venue service : String) (payload : List UInt8) : Prop :=
  (∃ scope label, accountScope venue service = some (scope, label) ∧ IsRiskEvent scope payload) ∨
    IsStandard venue service ∧ IsWalletRow payload

theorem u32At_eq_ok {l : List UInt8} {place n : Nat} (h : u32At l place = .ok n) :
    headerAt l place = n := by
  unfold u32At at h
  obtain ⟨bytes, hrange, h⟩ := bind_eq_ok.1 h
  obtain ⟨bytes', harray, h⟩ := bind_eq_ok.1 h
  cases h
  have hbytes : bytes = bytes' := by
    unfold toArray at harray
    split at harray
    · exact Except.ok.inj harray
    · cases harray
  have hslice : bytes = (l.drop place).take 4 := by
    unfold range getRange at hrange
    by_cases hin : place ≤ place + 4 ∧ place + 4 ≤ l.length
    · rw [if_pos hin, Nat.add_sub_cancel_left] at hrange
      exact (Except.ok.inj hrange).symm
    · rw [if_neg hin] at hrange
      cases hrange
  unfold headerAt
  rw [← hslice, hbytes]

theorem isRiskEvent_of_body {payload body : List UInt8} {scope : Nat}
    (h : accountRiskBody payload scope = .ok body) : IsRiskEvent scope payload := by
  unfold accountRiskBody at h
  obtain ⟨_, -, h⟩ := bind_eq_ok.1 h
  obtain ⟨eventType, htype, h⟩ := bind_eq_ok.1 h
  obtain ⟨scope', hscope, h⟩ := bind_eq_ok.1 h
  obtain ⟨_, hheader, h⟩ := bind_eq_ok.1 h
  obtain ⟨bodyLen, hlen, h⟩ := bind_eq_ok.1 h
  obtain ⟨_, hbody, -⟩ := bind_eq_ok.1 h
  obtain ⟨hkind, hsame⟩ := Bool.and_eq_true_iff.1 (require_eq_ok.1 hheader)
  obtain ⟨htail, hsize⟩ := Bool.and_eq_true_iff.1 (require_eq_ok.1 hbody)
  have htail := of_decide_eq_true htail
  have hsize : bodyLen = 76 := beq_iff_eq.1 hsize
  refine ⟨by omega, ?_, ?_, ?_⟩
  · rw [u32At_eq_ok htype]
    exact beq_iff_eq.1 hkind
  · rw [u32At_eq_ok hscope]
    exact beq_iff_eq.1 hsame
  · rw [u32At_eq_ok hlen]
    exact hsize

theorem isWalletRow_of_parse {payload : List UInt8} {row : WalletAssetSnapshot}
    (h : parseWalletAsset payload = .ok row) : IsWalletRow payload := by
  unfold parseWalletAsset at h
  obtain ⟨_, -, h⟩ := bind_eq_ok.1 h
  obtain ⟨eventType, htype, h⟩ := bind_eq_ok.1 h
  obtain ⟨_, hkind, h⟩ := bind_eq_ok.1 h
  obtain ⟨scope, hscope, h⟩ := bind_eq_ok.1 h
  obtain ⟨_, hsame, h⟩ := bind_eq_ok.1 h
  obtain ⟨bodyLen, hlen, h⟩ := bind_eq_ok.1 h
  obtain ⟨_, htail, -⟩ := bind_eq_ok.1 h
  refine ⟨?_, ?_, ?_⟩
  · rw [u32At_eq_ok hlen]
    exact of_decide_eq_true (require_eq_ok.1 htail)
  · rw [u32At_eq_ok htype]
    exact beq_iff_eq.1 (require_eq_ok.1 hkind)
  · rw [u32At_eq_ok hscope]
    exact beq_iff_eq.1 (require_eq_ok.1 hsame)

/-- Every reading of a risk event needs its body. -/
theorem toOption_bind_body {α : Type} {payload : List UInt8} {scope : Nat}
    {f : List UInt8 → Parse α} (h : ¬ IsRiskEvent scope payload) :
    (accountRiskBody payload scope >>= f).toOption = none := by
  cases hbody : accountRiskBody payload scope with
  | ok body => exact absurd (isRiskEvent_of_body hbody) h
  | error e => rfl

theorem messageOf_unaddressed {venue service : String} {payload : List UInt8}
    (h : ¬ Addressed venue service payload) :
    messageOf venue service payload = ⟨none, none, none, none⟩ := by
  have hrow : (messageOf venue service payload).row = none := by
    unfold messageOf
    dsimp only
    split
    · next hstandard =>
      cases hparse : parseWalletAsset payload with
      | ok row => exact absurd (Or.inr ⟨hstandard, isWalletRow_of_parse hparse⟩) h
      | error e => rfl
    · rfl
  have hrisk {α : Type} (parse : Nat × String → List UInt8 → Parse α) :
      ((accountScope venue service).bind fun s =>
        (accountRiskBody payload s.1 >>= parse s).toOption) = none := by
    cases haccount : accountScope venue service with
    | none => rfl
    | some account =>
      rw [Option.bind_some]
      exact toOption_bind_body fun hevent => h (Or.inl ⟨account.1, account.2, haccount, hevent⟩)
  have hequity : (messageOf venue service payload).equity = none := hrisk _
  have hmargin : (messageOf venue service payload).margin = none := by
    unfold messageOf
    dsimp only
    split
    · rfl
    · exact hrisk _
  have hratio : (messageOf venue service payload).ratio = none := by
    unfold messageOf
    dsimp only
    split
    · exact hrisk _
    · rfl
  calc messageOf venue service payload =
      ⟨(messageOf venue service payload).row, (messageOf venue service payload).equity,
        (messageOf venue service payload).margin, (messageOf venue service payload).ratio⟩ := rfl
    _ = ⟨none, none, none, none⟩ := by rw [hrow, hequity, hmargin, hratio]

theorem applyAccountMessage_unaddressed {venue service : String} {payload : List UInt8}
    (h : ¬ Addressed venue service payload) (state : SourceLiveState)
    (wallets : WalletAssetAccumulator) :
    applyAccountMessage state wallets venue service payload = .ok (state, wallets) := by
  have heq := applyAccountMessage_eq venue service payload (state, wallets)
  rw [messageOf_unaddressed h] at heq
  exact heq

/-! ## Payloads without conflicts -/

/-- The messages of payloads, in their order. -/
def messagesOf (venue service : String) (payloads : List (List UInt8)) : List Message :=
  payloads.map (messageOf venue service)

/-- No two values of one kind and one time, and every BFUSD row with a USDT row. -/
structure Coherent (l : List Message) : Prop where
  rows : RowsAgree l
  equities : ∀ a ∈ equitiesOf l, ∀ b ∈ equitiesOf l, a.tsMs = b.tsMs → a = b
  margins : ∀ a ∈ marginsOf l, ∀ b ∈ marginsOf l, a.1 = b.1 → a = b
  ratios : ∀ a ∈ ratiosOf l, ∀ b ∈ ratiosOf l, a.1 = b.1 → a = b
  complete : ∀ a ∈ rowsOf l, a.asset = "BFUSD" →
    ∃ b ∈ rowsOf l, b.asset = "USDT" ∧ b.tsMs = a.tsMs

/-- What a state says of messages, in whatever order they came. -/
structure Reading (l : List Message) (state : SourceLiveState) : Prop where
  total : ∀ snapshot ∈ equitiesOf l, (∀ other ∈ equitiesOf l, other.tsMs ≤ snapshot.tsMs) →
    state.equity = some snapshot
  wallets : equitiesOf l = [] → ∀ row ∈ rowsOf l, (∀ other ∈ rowsOf l, other.tsMs ≤ row.tsMs) →
    state.equity = some (WalletAssetAccumulator.snapshotOf
      ((rowsOf l).filter fun other => decide (other.tsMs = row.tsMs)).dedup row.tsMs)
  noEquity : equitiesOf l = [] → rowsOf l = [] → state.equity = none
  margin : ∀ m ∈ marginsOf l, (∀ other ∈ marginsOf l, other.1 ≤ m.1) →
    state.initialMarginUsd = m.2
  noMargin : marginsOf l = [] → state.initialMarginUsd = none
  ratio : ∀ r ∈ ratiosOf l, (∀ other ∈ ratiosOf l, other.1 ≤ r.1) → state.uniMmr = r.2
  noRatio : ratiosOf l = [] → state.uniMmr = none

/-- Only the two stable assets have rows. -/
theorem asset_of_parse {payload : List UInt8} {row : WalletAssetSnapshot}
    (h : parseWalletAsset payload = .ok row) : row.asset = "USDT" ∨ row.asset = "BFUSD" := by
  unfold parseWalletAsset at h
  obtain ⟨_, -, h⟩ := bind_eq_ok.1 h
  obtain ⟨_, -, h⟩ := bind_eq_ok.1 h
  obtain ⟨_, -, h⟩ := bind_eq_ok.1 h
  obtain ⟨_, -, h⟩ := bind_eq_ok.1 h
  obtain ⟨_, -, h⟩ := bind_eq_ok.1 h
  obtain ⟨_, -, h⟩ := bind_eq_ok.1 h
  obtain ⟨_, -, h⟩ := bind_eq_ok.1 h
  obtain ⟨data, -, h⟩ := bind_eq_ok.1 h
  unfold parseWalletSnapshot at h
  obtain ⟨_, -, h⟩ := bind_eq_ok.1 h
  obtain ⟨_, -, h⟩ := bind_eq_ok.1 h
  obtain ⟨_, -, h⟩ := bind_eq_ok.1 h
  obtain ⟨_, -, h⟩ := bind_eq_ok.1 h
  obtain ⟨_, -, h⟩ := bind_eq_ok.1 h
  obtain ⟨_, -, h⟩ := bind_eq_ok.1 h
  obtain ⟨assetBytes, -, h⟩ := bind_eq_ok.1 h
  cases htext : Utf8.decode? assetBytes with
  | none =>
    rw [htext] at h
    cases h
  | some text =>
    rw [htext] at h
    obtain ⟨_, hasset, h⟩ := bind_eq_ok.1 h
    obtain ⟨wallet, -, h⟩ := bind_eq_ok.1 h
    obtain ⟨pnl, -, h⟩ := bind_eq_ok.1 h
    obtain ⟨available, -, h⟩ := bind_eq_ok.1 h
    have hmem : Text.toAsciiUppercase text ∈ ["USDT", "BFUSD"] :=
      List.contains_iff_mem.1 (require_eq_ok.1 hasset)
    split at h
    · cases h
      simpa using hmem
    · cases h

theorem asset_of_mem {venue service : String} {payloads : List (List UInt8)}
    {row : WalletAssetSnapshot} (h : row ∈ rowsOf (messagesOf venue service payloads)) :
    row.asset = "USDT" ∨ row.asset = "BFUSD" := by
  obtain ⟨message, hmessage, hrow⟩ := List.mem_filterMap.1 h
  obtain ⟨payload, -, rfl⟩ := List.mem_map.1 hmessage
  unfold messageOf at hrow
  dsimp only at hrow
  split at hrow
  · exact asset_of_parse (toOption_eq_some.1 hrow)
  · cases hrow

/-! ## One state -/

section

variable {l l' : List Message} {s s' : SourceLiveState × WalletAssetAccumulator}

/-- The USDT row of the newest snapshot is there. -/
def UsdtComplete (l : List Message) : Prop :=
  ∀ a ∈ rowsOf l, ∃ b ∈ rowsOf l, b.asset = "USDT" ∧ b.tsMs = a.tsMs

theorem Holds.group (h : Holds l s) (hcomplete : UsdtComplete l) {tsMs : Int}
    (hts : s.2.tsMs = some tsMs) :
    s.2.group = some (WalletAssetAccumulator.snapshotOf (s.2.assets.toList.map Prod.snd) tsMs) := by
  have hnewest := h.rows.newest
  rw [hts] at hnewest
  obtain ⟨row, hrow, heq⟩ := List.mem_map.1 hnewest.mem
  obtain ⟨usdt, husdt, hasset, hsame⟩ := hcomplete row hrow
  have hheld : s.2.assets["USDT"]? = some usdt :=
    (h.rows.assets "USDT" usdt).2 ⟨husdt, hasset, by rw [hts, hsame, heq]⟩
  have hcontains : s.2.assets.contains "USDT" = true := by
    rw [Std.ExtTreeMap.contains_eq_isSome_getElem?, hheld]
    rfl
  unfold WalletAssetAccumulator.group
  rw [hts, Option.bind_some, if_pos hcontains]

/-- Without an account total, the equity is that of the rows. -/
theorem Holds.walletEquity (h : Holds l s) (hcomplete : UsdtComplete l) (hnone : equitiesOf l = []) :
    s.1.equity = s.2.tsMs.map fun tsMs =>
      WalletAssetAccumulator.snapshotOf (s.2.assets.toList.map Prod.snd) tsMs := by
  obtain ⟨total, hnewest, -, -, hwallet⟩ := h.equity
  have htotal : total = none := by
    cases total with
    | none => rfl
    | some snapshot =>
      have hmem := hnewest.mem
      rw [hnone] at hmem
      exact absurd hmem List.not_mem_nil
  have hwallet := hwallet htotal
  cases hts : s.2.tsMs with
  | none => exact hwallet.empty hts
  | some tsMs => exact hwallet.group _ (h.group hcomplete hts)

/-- Two runs over the same messages leave one state. -/
theorem Holds.unique (hcoherent : Coherent l) (hcomplete : UsdtComplete l)
    (hsame : ∀ m, m ∈ l ↔ m ∈ l') (h : Holds l s) (h' : Holds l' s') : s = s' := by
  have hvalues {α : Type} (f : Message → Option α) (a : α) :
      a ∈ l.filterMap f ↔ a ∈ l'.filterMap f := by
    rw [List.mem_filterMap, List.mem_filterMap]
    exact exists_congr fun m => and_congr_left fun _ => hsame m
  have hcomplete' : UsdtComplete l' := by
    intro a ha
    obtain ⟨b, hb, hrest⟩ := hcomplete a ((hvalues _ a).2 ha)
    exact ⟨b, (hvalues _ b).1 hb, hrest⟩
  have hrows : s.2 = s'.2 := Accumulated.unique (hvalues _) h.rows h'.rows
  obtain ⟨total, hnewest, hrisk, htotal, -⟩ := h.equity
  obtain ⟨total', hnewest', hrisk', htotal', -⟩ := h'.equity
  have heqTotal : total = total' :=
    IsNewest.unique hcoherent.equities (hvalues _) hnewest hnewest'
  obtain ⟨margin, hmargin, husd, hmarginTs⟩ := h.margin
  obtain ⟨margin', hmargin', husd', hmarginTs'⟩ := h'.margin
  have heqMargin : margin = margin' :=
    IsNewest.unique hcoherent.margins (hvalues _) hmargin hmargin'
  obtain ⟨ratio, hratio, hunified, hmmr, hratioTs⟩ := h.ratio
  obtain ⟨ratio', hratio', hunified', hmmr', hratioTs'⟩ := h'.ratio
  have heqRatio : ratio = ratio' :=
    IsNewest.unique hcoherent.ratios (hvalues _) hratio hratio'
  have hequity : s.1.equity = s'.1.equity := by
    cases total with
    | some snapshot => rw [htotal rfl, htotal' (by rw [← heqTotal]; rfl), heqTotal]
    | none =>
      have hnone : equitiesOf l = [] := hnewest
      have hnone' : equitiesOf l' = [] := by
        rw [← heqTotal] at hnewest'
        exact hnewest'
      rw [h.walletEquity hcomplete hnone, h'.walletEquity hcomplete' hnone', hrows]
  refine Prod.ext ?_ hrows
  calc s.1 = ⟨s.1.equity, s.1.accountRiskEquity, s.1.unifiedAccount, s.1.uniMmr, s.1.uniMmrTsMs,
        s.1.initialMarginUsd, s.1.initialMarginTsMs⟩ := rfl
    _ = ⟨s'.1.equity, s'.1.accountRiskEquity, s'.1.unifiedAccount, s'.1.uniMmr, s'.1.uniMmrTsMs,
        s'.1.initialMarginUsd, s'.1.initialMarginTsMs⟩ := by
      rw [hequity, hrisk, hrisk', heqTotal, hunified, hunified', hmmr, hmmr', hratioTs, hratioTs',
        heqRatio, husd, husd', hmarginTs, hmarginTs', heqMargin]
    _ = s'.1 := rfl

/-! ## What it reads -/

theorem snapshotOf_perm {rows rows' : List WalletAssetSnapshot} (h : rows.Perm rows') (tsMs : Int) :
    WalletAssetAccumulator.snapshotOf rows tsMs = WalletAssetAccumulator.snapshotOf rows' tsMs := by
  unfold WalletAssetAccumulator.snapshotOf
  rw [(h.map _).sum_eq, (h.map _).sum_eq, (h.map _).sum_eq]

/-- The rows that are held are those of the newest time, each once. -/
theorem Accumulated.perm {rows : List WalletAssetSnapshot} {acc : WalletAssetAccumulator}
    (h : Accumulated rows acc) {tsMs : Int} (hts : acc.tsMs = some tsMs) :
    (acc.assets.toList.map Prod.snd).Perm
      (rows.filter fun row => decide (row.tsMs = tsMs)).dedup := by
  have hkey : ∀ entry ∈ acc.assets.toList, entry.2.asset = entry.1 := by
    intro entry hentry
    exact ((h.assets entry.1 entry.2).1 (mem_toList.1 hentry)).2.1
  refine (List.perm_ext_iff_of_nodup ?_ (List.nodup_dedup _)).2 fun row => ?_
  · refine (nodup_toList acc.assets).map_on fun a ha b hb heq => ?_
    refine Prod.ext ?_ heq
    rw [← hkey a ha, ← hkey b hb, heq]
  · rw [List.mem_map, List.mem_dedup, List.mem_filter, decide_eq_true_eq]
    constructor
    · rintro ⟨entry, hentry, rfl⟩
      obtain ⟨hmem, -, hsame⟩ := (h.assets entry.1 entry.2).1 (mem_toList.1 hentry)
      rw [hts] at hsame
      exact ⟨hmem, (Option.some.inj hsame).symm⟩
    · rintro ⟨hmem, hsame⟩
      refine ⟨(row.asset, row), mem_toList.2 ((h.assets row.asset row).2 ⟨hmem, rfl, ?_⟩), rfl⟩
      rw [hts, hsame]

/-- The newest value is the only one of its time. -/
theorem eq_of_newest {α : Type} {ts : α → Int} {l : List α} {x : Option α}
    (hnewest : IsNewest ts l x) (hinj : ∀ a ∈ l, ∀ b ∈ l, ts a = ts b → a = b) {a : α}
    (ha : a ∈ l) (hmax : ∀ b ∈ l, ts b ≤ ts a) : x = some a := by
  have hnewest' : IsNewest ts l (some a) := ⟨ha, hmax⟩
  exact hnewest.unique hinj (fun _ => Iff.rfl) hnewest'

theorem Holds.reading (h : Holds l s) (hcoherent : Coherent l) (hcomplete : UsdtComplete l) :
    Reading l s.1 where
  total := by
    intro snapshot hmem hmax
    obtain ⟨total, hnewest, -, htotal, -⟩ := h.equity
    rw [eq_of_newest hnewest hcoherent.equities hmem hmax] at htotal
    exact htotal rfl
  wallets := by
    intro hnone row hrow hmax
    have hts : s.2.tsMs = some row.tsMs := by
      refine eq_of_newest h.rows.newest (fun _ _ _ _ heq => heq) (List.mem_map_of_mem hrow) ?_
      intro tsMs htsMs
      obtain ⟨other, hother, rfl⟩ := List.mem_map.1 htsMs
      exact hmax other hother
    rw [h.walletEquity hcomplete hnone, hts, Option.map_some, snapshotOf_perm (h.rows.perm hts)]
  noEquity := by
    intro hnone hrows
    have hts : s.2.tsMs = none := by
      cases hts : s.2.tsMs with
      | none => rfl
      | some tsMs =>
        have hnewest := h.rows.newest
        rw [hts, hrows] at hnewest
        exact absurd hnewest.mem List.not_mem_nil
    rw [h.walletEquity hcomplete hnone, hts]
    rfl
  margin := by
    intro m hm hmax
    obtain ⟨margin, hnewest, husd, -⟩ := h.margin
    rw [husd, eq_of_newest hnewest hcoherent.margins hm hmax]
    rfl
  noMargin := by
    intro hnone
    obtain ⟨margin, hnewest, husd, -⟩ := h.margin
    cases margin with
    | none => exact husd
    | some m =>
      rw [hnone] at hnewest
      exact absurd hnewest.mem List.not_mem_nil
  ratio := by
    intro r hr hmax
    obtain ⟨ratio, hnewest, -, hmmr, -⟩ := h.ratio
    rw [hmmr, eq_of_newest hnewest hcoherent.ratios hr hmax]
    rfl
  noRatio := by
    intro hnone
    obtain ⟨ratio, hnewest, -, hmmr, -⟩ := h.ratio
    cases ratio with
    | none => exact hmmr
    | some r =>
      rw [hnone] at hnewest
      exact absurd hnewest.mem List.not_mem_nil

end

/-- Every feed of the same payloads, in any order and with any repetitions, comes to one state,
which reads what the payloads say; a payload that is not for the account says nothing. -/
theorem liveState_order_free (venue service : String) (payloads : List (List UInt8))
    (hcoherent : Coherent (messagesOf venue service payloads)) :
    (∃ state, Reading (messagesOf venue service payloads) state ∧
      ∀ feed : List (List UInt8), (∀ payload, payload ∈ feed ↔ payload ∈ payloads) →
        ∃ wallets, applyMessages venue service feed = .ok (state, wallets)) ∧
    ∀ payload, ¬ Addressed venue service payload → ∀ state wallets,
      applyAccountMessage state wallets venue service payload = .ok (state, wallets) := by
  refine ⟨?_, fun payload h state wallets => applyAccountMessage_unaddressed h state wallets⟩
  have hcomplete : UsdtComplete (messagesOf venue service payloads) := by
    intro row hrow
    rcases asset_of_mem hrow with husdt | hbfusd
    · exact ⟨row, hrow, husdt, rfl⟩
    · exact hcoherent.complete row hrow hbfusd
  obtain ⟨s, hrun, hs⟩ := applyMessages_holds venue service payloads hcoherent.rows
  refine ⟨s.1, hs.reading hcoherent hcomplete, fun feed hfeed => ?_⟩
  have hsame : ∀ m, m ∈ messagesOf venue service payloads ↔ m ∈ messagesOf venue service feed := by
    intro m
    unfold messagesOf
    rw [List.mem_map, List.mem_map]
    exact exists_congr fun payload => and_congr_left fun _ => (hfeed payload).symm
  have hagree : RowsAgree (messagesOf venue service feed) := by
    intro a ha b hb
    have hmem : ∀ row ∈ rowsOf (messagesOf venue service feed),
        row ∈ rowsOf (messagesOf venue service payloads) := by
      intro row hrow
      obtain ⟨m, hm, hrow⟩ := List.mem_filterMap.1 hrow
      exact List.mem_filterMap.2 ⟨m, (hsame m).2 hm, hrow⟩
    exact hcoherent.rows a (hmem a ha) b (hmem b hb)
  obtain ⟨s', hrun', hs'⟩ := applyMessages_holds venue service feed hagree
  refine ⟨s'.2, ?_⟩
  rw [hrun', hs.unique hcoherent hcomplete hsame hs']

/-! ## Samples -/

/-- A header and its body. -/
def wrapped (eventType scope : Nat) (body : List UInt8) : List UInt8 :=
  LittleEndian.leBytes 4 eventType ++ LittleEndian.leBytes 4 scope ++
    LittleEndian.leBytes 4 body.length ++ body

/-- A risk event with the bits of its equity, initial margin and margin ratio. -/
def riskEvent (scope tsMs : Nat) (equity margin ratio : Nat) : List UInt8 :=
  wrapped ACCOUNT_RISK_TYPE scope (LittleEndian.leBytes 4 ACCOUNT_RISK_TYPE ++
    LittleEndian.leBytes 8 tsMs ++
    [0, equity, 0, margin, ratio, 0, 0, 0].flatMap (LittleEndian.leBytes 8))

/-- A wallet row with the bits of its balance, open profit and available balance. -/
def walletRow (tsMs : Nat) (asset : List UInt8) (balance pnl available : Nat) : List UInt8 :=
  wrapped WALLET_SNAPSHOT_TYPE BINANCE_STD_UM_SCOPE (LittleEndian.leBytes 4 WALLET_SNAPSHOT_TYPE ++
    LittleEndian.leBytes 8 tsMs ++ LittleEndian.leBytes 8 0 ++
    LittleEndian.leBytes 4 asset.length ++ LittleEndian.leBytes 4 0 ++ asset ++
    [0, balance, pnl, available, 0].flatMap (LittleEndian.leBytes 8))

/-- The margin ratio of a standard Binance account is in its events, and not read. -/
theorem standard_ratio_unread :
    parseUnifiedRisk (riskEvent 3 10 0 0 0x4008000000000000) BINANCE_STD_UM_SCOPE =
        .ok (10, some 3) ∧
      accountScope "binance-futures" "account_pubs/binance_pm" =
        some (BINANCE_STD_UM_SCOPE, "binance_std_um_account_risk") ∧
      (applyMessages "binance-futures" "account_pubs/binance_pm"
        [riskEvent 3 10 0 0 0x4008000000000000]).map (fun s => (s.1.equity.isSome, s.1.uniMmr)) =
          .ok (true, none) := by
  refine ⟨?_, ?_, ?_⟩ <;> decide +kernel

/-- One snapshot of two rows, and an older total of the account. -/
def samplePayloads : List (List UInt8) :=
  [walletRow 30 "USDT".toUTF8.toList 0x4008000000000000 0 0,
    walletRow 30 "BFUSD".toUTF8.toList 0x3FF0000000000000 0 0,
    riskEvent 3 20 0x4014000000000000 0 0]

/-- The total stays, in whatever order the rows come. -/
theorem samplePayloads_order_free :
    ∃ state, Reading (messagesOf "binance-futures" "account_pubs/binance_pm" samplePayloads) state ∧
      ∀ feed : List (List UInt8), (∀ payload, payload ∈ feed ↔ payload ∈ samplePayloads) →
        ∃ wallets, applyMessages "binance-futures" "account_pubs/binance_pm" feed =
          .ok (state, wallets) := by
  refine (liveState_order_free "binance-futures" "account_pubs/binance_pm" samplePayloads
    ⟨?_, ?_, ?_, ?_, ?_⟩).1
  · unfold RowsAgree
    decide +kernel
  · decide +kernel
  · decide +kernel
  · decide +kernel
  · decide +kernel

end CtaManager.Accounts
