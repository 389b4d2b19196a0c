import CtaManager.Accounts.AccountIpc
import CtaManager.Library.Check

/-!
What a payload says to the live state of an account.

No payload is read out of range, whatever its bytes are (`Safe`), so a payload is what its
four readings are: a wallet row, an equity, an initial margin and a margin ratio, each in
the scope of the account (`messageOf`), and the state is a function of the messages
(`applyAccountMessage_eq`).
-/

namespace CtaManager.Accounts

open Check Model

/-! ## Reading within range -/

/-- A parse that stays within range. -/
def Safe {α : Type} (p : Parse α) : Prop := p ≠ .error .panic

theorem Safe.bind {α β : Type} {p : Parse α} {f : α → Parse β} (hp : Safe p)
    (hf : ∀ a, p = .ok a → Safe (f a)) : Safe (p >>= f) := by
  cases p with
  | error e =>
    intro h
    exact hp (congrArg Except.error (Except.error.inj h))
  | ok a => exact hf a rfl

theorem safe_ok {α : Type} (a : α) : Safe (.ok a : Parse α) := by
  intro h
  cases h

theorem safe_absent {α : Type} : Safe (.error .absent : Parse α) := by
  intro h
  cases h

theorem require_eq_ok {c : Bool} {u : Unit} : require c = .ok u ↔ c = true := by
  unfold require
  cases c with
  | false => simp
  | true => simp

theorem safe_require (c : Bool) : Safe (require c) := by
  unfold require
  split
  · exact safe_ok _
  · exact safe_absent

theorem safe_toArray (width : Nat) (l : List UInt8) : Safe (toArray width l) := by
  unfold toArray
  split
  · exact safe_ok _
  · exact safe_absent

theorem safe_getSome (l : List UInt8) (a b : Nat) : Safe (getSome l a b) := by
  unfold getSome
  split
  · exact safe_ok _
  · exact safe_absent

theorem range_eq_ok {l : List UInt8} {a b : Nat} (hab : a ≤ b) (hb : b ≤ l.length) :
    range l a b = .ok ((l.drop a).take (b - a)) := by
  have hboth := And.intro hab hb
  unfold range getRange
  rw [if_pos hboth]

theorem safe_range {l : List UInt8} {a b : Nat} (hab : a ≤ b) (hb : b ≤ l.length) :
    Safe (range l a b) := by
  rw [range_eq_ok hab hb]
  exact safe_ok _

theorem safe_u32At {l : List UInt8} {a : Nat} (h : a + 4 ≤ l.length) : Safe (u32At l a) :=
  (safe_range (Nat.le_add_right a 4) h).bind fun _ _ =>
    (safe_toArray _ _).bind fun _ _ => safe_ok _

theorem safe_i64At {l : List UInt8} {a : Nat} (h : a + 8 ≤ l.length) : Safe (i64At l a) :=
  (safe_range (Nat.le_add_right a 8) h).bind fun _ _ =>
    (safe_toArray _ _).bind fun _ _ => safe_ok _

theorem safe_f64At {l : List UInt8} {a : Nat} (h : a + 8 ≤ l.length) : Safe (f64At l a) :=
  (safe_range (Nat.le_add_right a 8) h).bind fun _ _ =>
    (safe_toArray _ _).bind fun _ _ => safe_ok _

theorem safe_finiteAt {l : List UInt8} {a : Nat} (h : a + 8 ≤ l.length) : Safe (finiteAt l a) := by
  unfold finiteAt
  rw [map_eq_pure_bind]
  exact (safe_f64At h).bind fun _ _ => safe_ok _

theorem accountRiskBody_safe (payload : List UInt8) (scope : Nat) :
    Safe (accountRiskBody payload scope) := by
  refine (safe_require _).bind fun _ hheader => ?_
  have hlength : EVENT_HEADER_LEN ≤ payload.length := of_decide_eq_true (require_eq_ok.1 hheader)
  unfold EVENT_HEADER_LEN at hlength
  refine (safe_u32At (by omega)).bind fun _ _ => (safe_u32At (by omega)).bind fun _ _ => ?_
  refine (safe_require _).bind fun _ _ => (safe_u32At (by omega)).bind fun bodyLen _ => ?_
  refine (safe_require _).bind fun _ hbody => ?_
  obtain ⟨htail, hlen⟩ := Bool.and_eq_true_iff.1 (require_eq_ok.1 hbody)
  have htail := of_decide_eq_true htail
  have hlen := beq_iff_eq.1 hlen
  refine (safe_range (Nat.le_add_right _ _) htail).bind fun body hrange => ?_
  rw [range_eq_ok (Nat.le_add_right _ _) htail] at hrange
  have hbodyLength : body.length = 76 := by
    rw [← Except.ok.inj hrange, List.length_take, List.length_drop]
    omega
  refine (safe_u32At (by omega)).bind fun _ _ => (safe_require _).bind fun _ _ => safe_ok _

theorem accountRiskBody_length {payload body : List UInt8} {scope : Nat}
    (h : accountRiskBody payload scope = .ok body) : body.length = 76 := by
  unfold accountRiskBody at h
  obtain ⟨_, -, h⟩ := bind_eq_ok.1 h
  obtain ⟨_, -, h⟩ := bind_eq_ok.1 h
  obtain ⟨_, -, h⟩ := bind_eq_ok.1 h
  obtain ⟨_, -, h⟩ := bind_eq_ok.1 h
  obtain ⟨bodyLen, -, h⟩ := bind_eq_ok.1 h
  obtain ⟨_, hbody, h⟩ := bind_eq_ok.1 h
  obtain ⟨htail, hlen⟩ := Bool.and_eq_true_iff.1 (require_eq_ok.1 hbody)
  have htail := of_decide_eq_true htail
  have hlen := beq_iff_eq.1 hlen
  obtain ⟨body', hrange, h⟩ := bind_eq_ok.1 h
  obtain ⟨_, -, h⟩ := bind_eq_ok.1 h
  obtain ⟨_, -, h⟩ := bind_eq_ok.1 h
  rw [range_eq_ok (Nat.le_add_right _ _) htail] at hrange
  rw [← Except.ok.inj h, ← Except.ok.inj hrange, List.length_take, List.length_drop]
  omega

theorem parseInitialMargin_safe (payload : List UInt8) (scope : Nat) :
    Safe (parseInitialMargin payload scope) := by
  refine (accountRiskBody_safe _ _).bind fun body _ => ?_
  refine ((safe_getSome _ _ _).bind fun _ _ => safe_toArray _ _).bind fun _ _ => ?_
  refine (safe_require _).bind fun _ _ => ?_
  exact ((safe_getSome _ _ _).bind fun _ _ => safe_toArray _ _).bind fun _ _ => safe_ok _

theorem parseUnifiedRisk_safe (payload : List UInt8) (scope : Nat) :
    Safe (parseUnifiedRisk payload scope) := by
  refine (accountRiskBody_safe _ _).bind fun body hbody => ?_
  have hlength := accountRiskBody_length hbody
  refine (safe_require _).bind fun _ _ => (safe_i64At (by omega)).bind fun _ _ => ?_
  have hratio : ACCOUNT_RISK_MARGIN_RATIO_OFFSET + 8 ≤ body.length := by
    unfold ACCOUNT_RISK_MARGIN_RATIO_OFFSET
    omega
  exact (safe_f64At hratio).bind fun _ _ => (safe_require _).bind fun _ _ => safe_ok _

theorem parseAccountEquity_safe (payload : List UInt8) (scope : Nat) (source : String) :
    Safe (parseAccountEquity payload scope source) := by
  refine (accountRiskBody_safe _ _).bind fun body hbody => ?_
  have hlength := accountRiskBody_length hbody
  refine (safe_require _).bind fun _ _ => (safe_i64At (by omega)).bind fun _ _ => ?_
  have hequity : ACCOUNT_RISK_ACTUAL_EQUITY_OFFSET + 8 ≤ body.length := by
    unfold ACCOUNT_RISK_ACTUAL_EQUITY_OFFSET
    omega
  refine (safe_f64At hequity).bind fun equity _ => (safe_require _).bind fun _ _ => ?_
  split
  · exact safe_absent
  · exact safe_ok _

theorem parseWalletSnapshot_safe (data : List UInt8) : Safe (parseWalletSnapshot data) := by
  refine (safe_require _).bind fun _ hsize => ?_
  have hsize := of_decide_eq_true (require_eq_ok.1 hsize)
  refine (safe_u32At (by omega)).bind fun _ _ => (safe_require _).bind fun _ _ => ?_
  refine (safe_i64At (by omega)).bind fun _ _ => (safe_u32At (by omega)).bind fun assetLen _ => ?_
  refine (safe_require _).bind fun _ hnumbers => ?_
  have hnumbers := of_decide_eq_true (require_eq_ok.1 hnumbers)
  refine (safe_range (Nat.le_add_right _ _) (by omega)).bind fun _ _ => ?_
  split
  · exact safe_absent
  · refine (safe_require _).bind fun _ _ => (safe_finiteAt (by omega)).bind fun _ _ => ?_
    refine (safe_finiteAt (by omega)).bind fun _ _ => (safe_finiteAt (by omega)).bind fun _ _ => ?_
    split
    · exact safe_ok _
    · exact safe_absent

theorem parseWalletAsset_safe (payload : List UInt8) : Safe (parseWalletAsset payload) := by
  refine (safe_require _).bind fun _ hheader => ?_
  have hlength : EVENT_HEADER_LEN ≤ payload.length := of_decide_eq_true (require_eq_ok.1 hheader)
  unfold EVENT_HEADER_LEN at hlength
  refine (safe_u32At (by omega)).bind fun _ _ => (safe_require _).bind fun _ _ => ?_
  refine (safe_u32At (by omega)).bind fun _ _ => (safe_require _).bind fun _ _ => ?_
  refine (safe_u32At (by omega)).bind fun bodyLen _ => (safe_require _).bind fun _ htail => ?_
  have htail := of_decide_eq_true (require_eq_ok.1 htail)
  exact (safe_range (Nat.le_add_right _ _) htail).bind fun _ _ => parseWalletSnapshot_safe _

theorem parsed_eq {α : Type} {p : Parse α} (h : Safe p) : parsed p = .ok p.toOption := by
  cases p with
  | ok a => rfl
  | error e =>
    cases e with
    | absent => rfl
    | panic => exact absurd rfl h

/-! ## Messages -/

/-- The scope of the account's risk events, and how its equity is labelled. -/
def accountScope (venue service : String) : Option (Nat × String) :=
  match rapidxAccountScope service with
  | some scope => if rapidxScopeOf venue = some scope then some (scope, "rapidx_account_risk") else none
  | none =>
    (unifiedScope venue).or
      (if venue = "binance-futures" ∨ venue = "binance-coin-futures" then
        some (BINANCE_STD_UM_SCOPE, "binance_std_um_account_risk")
      else none)

/-- The standard Binance accounts, whose wallet rows are read. -/
def IsStandard (venue service : String) : Prop :=
  rapidxAccountScope service = none ∧
    (venue = "binance-futures" ∨ venue = "binance-coin-futures")

instance (venue service : String) : Decidable (IsStandard venue service) := by
  unfold IsStandard
  infer_instance

/-- What a payload says to an account. -/
structure Message where
  row : Option WalletAssetSnapshot
  equity : Option LiveEquitySnapshot
  margin : Option (Int × Option ℚ)
  ratio : Option (Int × Option ℚ)
  deriving DecidableEq

def messageOf (venue service : String) (payload : List UInt8) : Message where
  row := if IsStandard venue service then (parseWalletAsset payload).toOption else none
  equity := (accountScope venue service).bind fun s =>
    (parseAccountEquity payload s.1 s.2).toOption
  -- COIN-M accounts have no initial margin
  margin :=
    if venue = "binance-coin-futures" then none
    else (accountScope venue service).bind fun s => (parseInitialMargin payload s.1).toOption
  -- only unified accounts have a margin ratio
  ratio :=
    if (unifiedScope venue).isSome then
      (accountScope venue service).bind fun s => (parseUnifiedRisk payload s.1).toOption
    else none

/-- The state and the wallet rows after a message. -/
def applyMessage (s : SourceLiveState × WalletAssetAccumulator) (m : Message) :
    SourceLiveState × WalletAssetAccumulator :=
  let updated := m.row.elim (s.2, none) s.2.update
  let state := updated.2.elim s.1 s.1.applyWalletEquity
  let state := m.equity.elim state state.applyAccountEquity
  let state := m.margin.elim state fun margin => state.applyInitialMargin margin.1 margin.2
  (m.ratio.elim state fun ratio => state.applyUnifiedRisk ratio.1 ratio.2, updated.1)

theorem unifiedScope_coin : unifiedScope "binance-coin-futures" = none := by decide

theorem rapidxScopeOf_eq_some {venue : String} {scope : Nat} (h : rapidxScopeOf venue = some scope) :
    venue = "binance-futures" ∧ scope = BINANCE_UNIFIED_SCOPE ∨
      venue = "okex-futures" ∧ scope = OKEX_UNIFIED_SCOPE := by
  unfold rapidxScopeOf at h
  split at h
  · next hvenue => exact Or.inl ⟨hvenue, (Option.some.inj h).symm⟩
  · split at h
    · next hvenue => exact Or.inr ⟨hvenue, (Option.some.inj h).symm⟩
    · cases h

theorem parsedAt_eq {α : Type} {parse : Nat → Parse α} (h : ∀ scope, Safe (parse scope))
    (scope : Option Nat) : parsedAt scope parse = .ok (scope.bind fun s => (parse s).toOption) := by
  cases scope with
  | none => rfl
  | some s => exact parsed_eq (h s)

/-- The part of a message behind the equity. -/
theorem applied_eq {venue service : String} {payload : List UInt8}
    {s : SourceLiveState × WalletAssetAccumulator} (state : SourceLiveState)
    (wallets : WalletAssetAccumulator)
    (happlied : applyEquity s.1 s.2 venue service payload = .ok (some (state, wallets)))
    (hmargin : (riskScope venue service).bind (fun scope => (parseInitialMargin payload scope).toOption) =
      (messageOf venue service payload).margin)
    (hratio : ((unifiedScope venue).map Prod.fst).bind
      (fun scope => (parseUnifiedRisk payload scope).toOption) =
        (messageOf venue service payload).ratio)
    (hstate : (messageOf venue service payload).equity.elim
        (((messageOf venue service payload).row.elim (s.2, none) s.2.update).2.elim s.1
          s.1.applyWalletEquity)
        (((messageOf venue service payload).row.elim (s.2, none) s.2.update).2.elim s.1
          s.1.applyWalletEquity).applyAccountEquity = state)
    (hwallets : ((messageOf venue service payload).row.elim (s.2, none) s.2.update).1 = wallets) :
    applyAccountMessage s.1 s.2 venue service payload =
      .ok (applyMessage s (messageOf venue service payload)) := by
  unfold applyAccountMessage applyMessage
  rw [happlied, ok_bind]
  dsimp only
  rw [parsedAt_eq (parseInitialMargin_safe payload), ok_bind,
    parsedAt_eq (parseUnifiedRisk_safe payload), ok_bind, hmargin, hratio, hstate, hwallets]
  rfl

/-- A payload does what its message says. -/
theorem applyAccountMessage_eq (venue service : String) (payload : List UInt8)
    (s : SourceLiveState × WalletAssetAccumulator) :
    applyAccountMessage s.1 s.2 venue service payload =
      .ok (applyMessage s (messageOf venue service payload)) := by
  cases hrapidx : rapidxAccountScope service with
  | some scope =>
    have hrow : (messageOf venue service payload).row = none :=
      if_neg fun h => absurd (hrapidx.symm.trans h.1) (by simp)
    by_cases hscope : rapidxScopeOf venue = some scope
    · have haccount : accountScope venue service = some (scope, "rapidx_account_risk") := by
        unfold accountScope
        rw [hrapidx]
        exact if_pos hscope
      have hequity : (messageOf venue service payload).equity =
          (parseAccountEquity payload scope "rapidx_account_risk").toOption := by
        unfold messageOf
        rw [haccount]
        rfl
      have hrisk : riskScope venue service = some scope := by
        unfold riskScope
        rw [hrapidx, Option.filter_some, if_pos (beq_iff_eq.2 hscope)]
        rfl
      have hcoin : venue ≠ "binance-coin-futures" := by
        rintro rfl
        cases hscope
      refine applied_eq ((messageOf venue service payload).equity.elim s.1
        s.1.applyAccountEquity) s.2 ?_ ?_ ?_ ?_ ?_
      · unfold applyEquity
        rw [hrapidx]
        dsimp only
        rw [if_neg (by simpa using hscope), parsed_eq (parseAccountEquity_safe _ _ _), ok_bind, hequity]
        rfl
      · unfold messageOf
        rw [hrisk, if_neg hcoin, haccount]
        rfl
      · unfold messageOf
        rw [haccount]
        rcases rapidxScopeOf_eq_some hscope with ⟨rfl, rfl⟩ | ⟨rfl, rfl⟩
        · rfl
        · rfl
      · rw [hrow]
        rfl
      · rw [hrow]
        rfl
    · have haccount : accountScope venue service = none := by
        unfold accountScope
        rw [hrapidx]
        exact if_neg hscope
      have hmessage : messageOf venue service payload = ⟨none, none, none, none⟩ := by
        show Message.mk (messageOf venue service payload).row _ _ _ = _
        rw [hrow, haccount]
        simp only [Option.bind_none, ite_self]
      rw [hmessage]
      unfold applyAccountMessage applyEquity
      rw [hrapidx]
      dsimp only
      rw [if_pos (by simpa using hscope)]
      rfl
  | none =>
    cases hunified : unifiedScope venue with
    | some label =>
      obtain ⟨scope, label⟩ := label
      have hcoin : venue ≠ "binance-coin-futures" := by
        rintro rfl
        cases unifiedScope_coin.symm.trans hunified
      have hfutures : venue ≠ "binance-futures" := by
        rintro rfl
        cases hunified
      have hrow : (messageOf venue service payload).row = none :=
        if_neg fun h => h.2.elim hfutures hcoin
      have haccount : accountScope venue service = some (scope, label) := by
        unfold accountScope
        rw [hrapidx, hunified]
        rfl
      have hequity : (messageOf venue service payload).equity =
          (parseAccountEquity payload scope label).toOption := by
        unfold messageOf
        rw [haccount]
        rfl
      refine applied_eq ((messageOf venue service payload).equity.elim s.1
        s.1.applyAccountEquity) s.2 ?_ ?_ ?_ ?_ ?_
      · unfold applyEquity
        rw [hrapidx]
        dsimp only
        rw [hunified]
        dsimp only
        rw [parsed_eq (parseAccountEquity_safe _ _ _), ok_bind, hequity]
        rfl
      · unfold messageOf riskScope
        rw [hrapidx, hunified, haccount, if_neg hcoin]
        rfl
      · unfold messageOf
        rw [hunified, haccount]
        rfl
      · rw [hrow]
        rfl
      · rw [hrow]
        rfl
    | none =>
      by_cases hvenue : venue = "binance-futures" ∨ venue = "binance-coin-futures"
      · have hstandard : IsStandard venue service := ⟨hrapidx, hvenue⟩
        have hrow : (messageOf venue service payload).row = (parseWalletAsset payload).toOption :=
          if_pos hstandard
        have haccount : accountScope venue service =
            some (BINANCE_STD_UM_SCOPE, "binance_std_um_account_risk") := by
          unfold accountScope
          rw [hrapidx, hunified]
          exact if_pos hvenue
        have hequity : (messageOf venue service payload).equity =
            (parseBinanceStdUmEquity payload).toOption := by
          unfold messageOf
          rw [haccount]
          rfl
        refine applied_eq ((messageOf venue service payload).equity.elim
          (((messageOf venue service payload).row.elim (s.2, none) s.2.update).2.elim s.1
            s.1.applyWalletEquity)
          (((messageOf venue service payload).row.elim (s.2, none) s.2.update).2.elim s.1
            s.1.applyWalletEquity).applyAccountEquity)
          ((messageOf venue service payload).row.elim (s.2, none) s.2.update).1
          ?_ ?_ ?_ rfl rfl
        · have hequitySafe : Safe (parseBinanceStdUmEquity payload) :=
            parseAccountEquity_safe _ _ _
          unfold applyEquity
          rw [hrapidx]
          dsimp only
          rw [hunified]
          dsimp only
          rw [if_pos hvenue, parsed_eq (parseWalletAsset_safe _), ok_bind, parsed_eq hequitySafe,
            ok_bind, hrow, hequity]
          rfl
        · unfold messageOf riskScope
          rw [hrapidx, hunified, haccount]
          rcases hvenue with rfl | rfl
          · rfl
          · rfl
        · unfold messageOf
          rw [hunified]
          rfl
      · have hrow : (messageOf venue service payload).row = none := if_neg fun h => hvenue h.2
        have haccount : accountScope venue service = none := by
          unfold accountScope
          rw [hrapidx, hunified]
          exact if_neg hvenue
        have hmessage : messageOf venue service payload = ⟨none, none, none, none⟩ := by
          show Message.mk (messageOf venue service payload).row _ _ _ = _
          rw [hrow, haccount]
          simp only [Option.bind_none, ite_self]
        have hrisk : riskScope venue service = none := by
          unfold riskScope
          rw [hrapidx, hunified, if_neg fun h => hvenue (Or.inl h)]
          rfl
        rw [hmessage]
        unfold applyAccountMessage applyEquity
        rw [hrapidx]
        dsimp only
        rw [hunified]
        dsimp only
        rw [if_neg hvenue, hrisk]
        rfl

end CtaManager.Accounts
