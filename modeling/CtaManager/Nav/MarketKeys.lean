import CtaManager.Candles.Market
import CtaManager.Exec.Projection
import CtaManager.Nav.Types
import CtaManager.Theoretical.Delta

/-!
The keys under which public prices are stored (`market_data.rs`).

A fill names its market by symbol and venue code.  A cash fill against USDT becomes its bare
asset (`targetSymbol`), and the two Binance markets share the keys without a venue: what reads
such a key tells them apart by the quote at its end.  `marketKeys_separate` says for which
markets that is enough.
-/

namespace CtaManager

open Check Catalog Candles
open Exec (isSpotTarget splitOnce_colon splitOnce_eq_some not_mem_colon_of_validateExecSymbol)

section

variable [Text.Unicode]

/-- `cache_symbol`. -/
def cacheSymbol (symbol : String) (venue : Int) : Except String String := do
  validateExecSymbol symbol
  match venue with
  | 0 | 1 => return symbol
  | 2 => return "okex-margin:" ++ symbol
  | 3 => return "okex-futures:" ++ symbol
  | _ => .error ("unsupported public market code: " ++ toString venue)

/-- The key of a market: `cache_symbol` of its `target_symbol`. -/
def Market.cacheKey (market : Market) : Except String String :=
  cacheSymbol (targetSymbol market.symbol market.venueCode) market.venueCode

/-- The theoretical positions use the same keys. -/
theorem marketKey_eq (venue symbol : String) :
    Theoretical.marketKey venue symbol = venueCode venue >>= cacheSymbol symbol := by
  unfold Theoretical.marketKey cacheSymbol
  cases hcode : venueCode venue with
  | error e => rfl
  | ok code =>
    unfold venueCode at hcode
    split at hcode <;> cases hcode <;> rfl

/-! ## Fill markets -/

/-- A base asset, then the quote it trades against. -/
def IsCashPair (symbol : String) : Prop :=
  ∃ base quote, base ≠ "" ∧ quote ∈ ["USDT", "USDC", "USD"] ∧ symbol = base ++ quote

/-- The markets of order events: cash pairs and linear perpetuals. -/
structure FillMarket extends Market where
  accepted : validateExecSymbol symbol = .ok ()
  kind : (venueCode = 0 ∨ venueCode = 2) ∧ IsCashPair symbol ∨
    (venueCode = 1 ∨ venueCode = 3) ∧
      (Text.endsWith symbol "USDT" = true ∨ Text.endsWith symbol "USDC" = true)

/-- The key leads back to the market. -/
def ReadsBack (market : Market) : Prop :=
  ∃ key venue, market.cacheKey = .ok key ∧ venueCode venue = .ok market.venueCode ∧
    splitCacheSymbol key = .ok (venue, targetSymbol market.symbol market.venueCode)

/-- Both keys lead back to their markets, and they are one key for one market only. -/
def KeysSeparate (left right : Market) : Prop :=
  ReadsBack left ∧ ReadsBack right ∧ (left.cacheKey = right.cacheKey → left = right)

/-! ## When they do -/

/-- What a cash market must be for its key to lead back: the asset of a pair against USDT is a
symbol of its own, and on Binance every pair is against USDT, its asset without a quote. -/
structure BareCash (market : Market) : Prop where
  asset : market.venueCode = 0 ∨ market.venueCode = 2 →
    ∀ base, market.symbol = base ++ "USDT" → validateExecSymbol base = .ok ()
  quote : market.venueCode = 0 →
    ∃ base, market.symbol = base ++ "USDT" ∧ isSpotTarget base = true

/-- On OKX, a pair and the pair of all its letters against USDT. -/
def Doubled (left right : Market) : Prop :=
  left.venueCode = 2 ∧ right.venueCode = 2 ∧ Text.endsWith left.symbol "USDT" = false ∧
    right.symbol = left.symbol ++ "USDT"

/-! ## Target symbols -/

omit [Text.Unicode] in
theorem targetSymbol_of_append {base : String} {venue : Int} (hvenue : venue = 0 ∨ venue = 2) :
    targetSymbol (base ++ "USDT") venue = base := by
  rw [targetSymbol, if_pos hvenue, Text.stripSuffix_append]
  rfl

omit [Text.Unicode] in
theorem targetSymbol_of_not {symbol : String} {venue : Int}
    (h : (venue = 0 ∨ venue = 2) → Text.endsWith symbol "USDT" = false) :
    targetSymbol symbol venue = symbol := by
  unfold targetSymbol
  split
  · next hvenue =>
    rw [Text.stripSuffix_eq_none (h hvenue)]
    rfl
  · rfl

omit [Text.Unicode] in
/-- What ends in a quote is not a bare asset. -/
theorem not_isSpotTarget {symbol quote : String} (hquote : quote ∈ ["USDT", "USDC", "USD"])
    (h : Text.endsWith symbol quote = true) : isSpotTarget symbol = false := by
  unfold isSpotTarget
  simp only [List.mem_cons, List.not_mem_nil, or_false] at hquote
  rcases hquote with rfl | rfl | rfl
  · rw [h]
    rfl
  · rw [h, Bool.not_true, Bool.and_false, Bool.false_and]
  · rw [h, Bool.not_true, Bool.and_false]

theorem FillMarket.venue_cases (market : FillMarket) :
    market.venueCode = 0 ∨ market.venueCode = 1 ∨ market.venueCode = 2 ∨ market.venueCode = 3 := by
  have := market.kind
  omega

/-! ## Reading a key -/

omit [Text.Unicode] in
theorem venueCode_eq_ok {venue : String} {code : Int} :
    venueCode venue = .ok code ↔
      venue = "binance-margin" ∧ code = 0 ∨ venue = "binance-futures" ∧ code = 1 ∨
        venue = "okex-margin" ∧ code = 2 ∨ venue = "okex-futures" ∧ code = 3 := by
  constructor
  · intro h
    unfold venueCode at h
    split at h <;> cases h <;> simp
  · rintro (⟨rfl, rfl⟩ | ⟨rfl, rfl⟩ | ⟨rfl, rfl⟩ | ⟨rfl, rfl⟩) <;> rfl

theorem cacheSymbol_eq_ok {symbol key : String} {venue : Int} :
    cacheSymbol symbol venue = .ok key ↔ validateExecSymbol symbol = .ok () ∧
      ((venue = 0 ∨ venue = 1) ∧ key = symbol ∨ venue = 2 ∧ key = "okex-margin:" ++ symbol ∨
        venue = 3 ∧ key = "okex-futures:" ++ symbol) := by
  unfold cacheSymbol
  rw [bind_eq_ok]
  constructor
  · rintro ⟨⟨⟩, hvalid, h⟩
    refine ⟨hvalid, ?_⟩
    split at h <;> cases h <;> simp
  · rintro ⟨hvalid, h⟩
    refine ⟨(), hvalid, ?_⟩
    rcases h with ⟨rfl | rfl, rfl⟩ | ⟨rfl, rfl⟩ | ⟨rfl, rfl⟩ <;> rfl

theorem ne_empty_of_validateExecSymbol {symbol : String}
    (h : validateExecSymbol symbol = .ok ()) : (symbol != "") = true := by
  unfold validateExecSymbol at h
  obtain ⟨_, -, h⟩ := bind_eq_ok.1 h
  rw [ensure_eq_ok, Bool.and_eq_true] at h
  exact h.1

theorem splitCacheSymbol_of_split {key venue symbol : String} {code : Int}
    (hsplit : (Text.splitOnce key ':').getD
      (if isSpotTarget key then "binance-margin" else "binance-futures", key) = (venue, symbol))
    (hvenue : venueCode venue = .ok code) (hvalid : validateExecSymbol symbol = .ok ()) :
    splitCacheSymbol key = .ok (venue, symbol) := by
  unfold splitCacheSymbol
  rw [hsplit]
  refine bind_eq_ok.2 ⟨code, hvenue, bind_eq_ok.2 ⟨(), hvalid, bind_eq_ok.2 ⟨(), ?_, rfl⟩⟩⟩
  exact (ensure_eq_ok _ _ _).2 (ne_empty_of_validateExecSymbol hvalid)

/-- A key without a venue is one of Binance. -/
theorem splitCacheSymbol_plain {symbol : String} (hvalid : validateExecSymbol symbol = .ok ()) :
    splitCacheSymbol symbol =
      .ok (if isSpotTarget symbol then "binance-margin" else "binance-futures", symbol) := by
  have hnone : Text.splitOnce symbol ':' = none := by
    cases hsplit : Text.splitOnce symbol ':' with
    | none => rfl
    | some parts =>
      have hmem : ':' ∈ symbol.toList := by
        rw [(splitOnce_eq_some hsplit).1]
        exact List.mem_append_right _ List.mem_cons_self
      exact absurd hmem (not_mem_colon_of_validateExecSymbol hvalid)
  by_cases hspot : isSpotTarget symbol = true
  · refine splitCacheSymbol_of_split ?_ (venueCode_eq_ok.2 (.inl ⟨?_, rfl⟩)) hvalid
    · rw [hnone]
      rfl
    · rw [if_pos hspot]
  · refine splitCacheSymbol_of_split ?_ (venueCode_eq_ok.2 (.inr (.inl ⟨?_, rfl⟩))) hvalid
    · rw [hnone]
      rfl
    · rw [if_neg hspot]

theorem splitCacheSymbol_okex {venue symbol : String}
    (hvenue : venue = "okex-margin" ∨ venue = "okex-futures")
    (hvalid : validateExecSymbol symbol = .ok ()) :
    splitCacheSymbol (venue ++ ":" ++ symbol) = .ok (venue, symbol) := by
  have hcolon : ':' ∉ venue.toList := by
    rcases hvenue with rfl | rfl <;> decide
  have hcode : ∃ code, venueCode venue = .ok code := by
    rcases hvenue with rfl | rfl
    · exact ⟨2, rfl⟩
    · exact ⟨3, rfl⟩
  obtain ⟨code, hcode⟩ := hcode
  refine splitCacheSymbol_of_split ?_ hcode hvalid
  rw [splitOnce_colon hcolon]
  rfl

/-! ## One market -/

/-- A market reads back where its target symbol is accepted and, in the keys without a venue,
looks like a bare asset for a cash market only. -/
theorem readsBack_iff_target (market : FillMarket) :
    ReadsBack market.toMarket ↔
      validateExecSymbol (targetSymbol market.symbol market.venueCode) = .ok () ∧
        (market.venueCode = 0 → isSpotTarget (targetSymbol market.symbol market.venueCode) = true) ∧
        (market.venueCode = 1 →
          isSpotTarget (targetSymbol market.symbol market.venueCode) = false) := by
  unfold ReadsBack Market.cacheKey
  generalize targetSymbol market.symbol market.venueCode = target
  constructor
  · rintro ⟨key, venue, hkey, hvenue, hsplit⟩
    obtain ⟨hvalid, hkey⟩ := cacheSymbol_eq_ok.1 hkey
    have hread (hcode : market.venueCode = 0 ∨ market.venueCode = 1) :
        venueCode (if isSpotTarget target then "binance-margin" else "binance-futures") =
          .ok market.venueCode := by
      have hplain : key = target := by
        rcases hkey with ⟨-, h⟩ | ⟨h, -⟩ | ⟨h, -⟩
        · exact h
        · omega
        · omega
      rw [hplain, splitCacheSymbol_plain hvalid, Except.ok.injEq, Prod.mk.injEq] at hsplit
      rw [hsplit.1]
      exact hvenue
    refine ⟨hvalid, ?_, ?_⟩
    · intro hcode
      by_contra hspot
      have hread := hread (.inl hcode)
      rw [if_neg hspot, hcode] at hread
      cases hread
    · intro hcode
      by_contra hspot
      have hread := hread (.inr hcode)
      rw [Bool.not_eq_false] at hspot
      rw [if_pos hspot, hcode] at hread
      cases hread
  · rintro ⟨hvalid, hcash, hperp⟩
    rcases market.venue_cases with hcode | hcode | hcode | hcode
    · refine ⟨target, "binance-margin", cacheSymbol_eq_ok.2 ⟨hvalid, ?_⟩, ?_, ?_⟩
      · exact .inl ⟨.inl hcode, rfl⟩
      · rw [hcode]
        rfl
      · rw [splitCacheSymbol_plain hvalid, if_pos (hcash hcode)]
    · refine ⟨target, "binance-futures", cacheSymbol_eq_ok.2 ⟨hvalid, ?_⟩, ?_, ?_⟩
      · exact .inl ⟨.inr hcode, rfl⟩
      · rw [hcode]
        rfl
      · rw [splitCacheSymbol_plain hvalid, hperp hcode]
        rfl
    · refine ⟨"okex-margin" ++ ":" ++ target, "okex-margin", cacheSymbol_eq_ok.2 ⟨hvalid, ?_⟩, ?_, ?_⟩
      · exact .inr (.inl ⟨hcode, rfl⟩)
      · rw [hcode]
        rfl
      · exact splitCacheSymbol_okex (.inl rfl) hvalid
    · refine ⟨"okex-futures" ++ ":" ++ target, "okex-futures", cacheSymbol_eq_ok.2 ⟨hvalid, ?_⟩, ?_, ?_⟩
      · exact .inr (.inr ⟨hcode, rfl⟩)
      · rw [hcode]
        rfl
      · exact splitCacheSymbol_okex (.inr rfl) hvalid

theorem readsBack_iff (market : FillMarket) :
    ReadsBack market.toMarket ↔ BareCash market.toMarket := by
  rw [readsBack_iff_target]
  rcases market.kind with ⟨hcash, base, quote, -, hquote, hpair⟩ | ⟨hperp, hlinear⟩
  · by_cases husdt : Text.endsWith market.symbol "USDT" = true
    · obtain ⟨asset, hasset⟩ := Text.endsWith_iff.1 husdt
      have hunique : ∀ asset', market.symbol = asset' ++ "USDT" → asset' = asset := by
        intro asset' h
        exact (String.append_left_inj "USDT").1 (h.symm.trans hasset)
      rw [hasset, targetSymbol_of_append hcash]
      constructor
      · rintro ⟨hvalid, hspot, -⟩
        refine ⟨?_, fun hcode => ⟨asset, hasset, hspot hcode⟩⟩
        rintro - asset' h
        rw [hunique asset' h]
        exact hvalid
      · rintro ⟨hvalid, hspot⟩
        refine ⟨hvalid hcash asset hasset, ?_, ?_⟩
        · intro hcode
          obtain ⟨asset', h, hspot⟩ := hspot hcode
          rw [← hunique asset' h]
          exact hspot
        · intro hcode
          omega
    · rw [Bool.not_eq_true] at husdt
      rw [targetSymbol_of_not fun _ => husdt]
      constructor
      · rintro ⟨-, hspot, -⟩
        refine ⟨?_, ?_⟩
        · rintro - asset h
          rw [h, Text.endsWith_append] at husdt
          cases husdt
        · intro hcode
          have hsuffix : Text.endsWith market.symbol quote = true := by
            rw [hpair]
            exact Text.endsWith_append base quote
          rw [not_isSpotTarget hquote hsuffix] at hspot
          cases hspot hcode
      · rintro ⟨-, hspot⟩
        refine ⟨market.accepted, ?_, ?_⟩
        · intro hcode
          obtain ⟨asset, h, -⟩ := hspot hcode
          rw [h, Text.endsWith_append] at husdt
          cases husdt
        · intro hcode
          omega
  · rw [targetSymbol_of_not fun h => by omega]
    refine iff_of_true ⟨market.accepted, ?_, ?_⟩ ⟨?_, ?_⟩
    · intro hcode
      omega
    · intro _
      rcases hlinear with h | h
      · exact not_isSpotTarget (by simp) h
      · exact not_isSpotTarget (by simp) h
    · intro hcode
      omega
    · intro hcode
      omega

/-! ## Two markets -/

/-- One key, one venue and one target symbol. -/
theorem cacheKey_eq_iff {left right : Market} (hleft : ReadsBack left) (hright : ReadsBack right) :
    left.cacheKey = right.cacheKey ↔ left.venueCode = right.venueCode ∧
      targetSymbol left.symbol left.venueCode = targetSymbol right.symbol right.venueCode := by
  constructor
  · intro hkeys
    obtain ⟨key, venue, hkey, hvenue, hsplit⟩ := hleft
    obtain ⟨key', venue', hkey', hvenue', hsplit'⟩ := hright
    rw [hkeys, hkey', Except.ok.injEq] at hkey
    subst hkey
    rw [hsplit, Except.ok.injEq, Prod.mk.injEq] at hsplit'
    obtain ⟨rfl, htarget⟩ := hsplit'
    rw [hvenue, Except.ok.injEq] at hvenue'
    exact ⟨hvenue', htarget⟩
  · rintro ⟨hcode, htarget⟩
    unfold Market.cacheKey
    rw [htarget, hcode]

omit [Text.Unicode] in
theorem Doubled.targetSymbol_eq {left right : Market} (h : Doubled left right) :
    targetSymbol left.symbol left.venueCode = targetSymbol right.symbol right.venueCode := by
  obtain ⟨hleft, hright, hsuffix, hdouble⟩ := h
  rw [hdouble, targetSymbol_of_append (.inr hright), targetSymbol_of_not fun _ => hsuffix]

omit [Text.Unicode] in
theorem Doubled.ne {left right : Market} (h : Doubled left right) : left ≠ right := by
  rintro rfl
  obtain ⟨-, -, hsuffix, hdouble⟩ := h
  rw [hdouble, Text.endsWith_append] at hsuffix
  cases hsuffix

omit [Text.Unicode] in
/-- The cash symbols of a target symbol. -/
theorem symbol_of_targetSymbol (symbol : String) {venue : Int} (hvenue : venue = 0 ∨ venue = 2) :
    symbol = targetSymbol symbol venue ++ "USDT" ∨
      Text.endsWith symbol "USDT" = false ∧ symbol = targetSymbol symbol venue := by
  by_cases husdt : Text.endsWith symbol "USDT" = true
  · obtain ⟨asset, rfl⟩ := Text.endsWith_iff.1 husdt
    rw [targetSymbol_of_append hvenue]
    exact .inl rfl
  · rw [Bool.not_eq_true] at husdt
    rw [targetSymbol_of_not fun _ => husdt]
    exact .inr ⟨husdt, rfl⟩

/-- Two markets of one venue and one target symbol. -/
theorem eq_of_targetSymbol {left right : FillMarket} (hleft : BareCash left.toMarket)
    (hright : BareCash right.toMarket) (hlr : ¬ Doubled left.toMarket right.toMarket)
    (hrl : ¬ Doubled right.toMarket left.toMarket) (hcode : left.venueCode = right.venueCode)
    (htarget : targetSymbol left.symbol left.venueCode =
      targetSymbol right.symbol right.venueCode) : left.toMarket = right.toMarket := by
  have hsymbol : left.symbol = right.symbol := by
    rcases left.venue_cases with h | h | h | h
    · obtain ⟨base, hbase, -⟩ := hleft.quote h
      obtain ⟨base', hbase', -⟩ := hright.quote (hcode ▸ h)
      rw [hbase, hbase', targetSymbol_of_append (.inl h),
        targetSymbol_of_append (.inl (hcode ▸ h))] at htarget
      rw [hbase, hbase', htarget]
    · rwa [targetSymbol_of_not fun _ => by omega, targetSymbol_of_not fun _ => by omega] at htarget
    · have h' : right.venueCode = 2 := hcode ▸ h
      rcases symbol_of_targetSymbol left.symbol (.inr h) with hl | ⟨hl, hl'⟩
      · rcases symbol_of_targetSymbol right.symbol (.inr h') with hr | ⟨hr, hr'⟩
        · rw [hl, hr, htarget]
        · refine absurd ⟨h', h, hr, ?_⟩ hrl
          rw [hl, htarget, ← hr']
      · rcases symbol_of_targetSymbol right.symbol (.inr h') with hr | ⟨hr, hr'⟩
        · refine absurd ⟨h, h', hl, ?_⟩ hlr
          rw [hr, ← htarget, ← hl']
        · rw [hl', hr', htarget]
    · rwa [targetSymbol_of_not fun _ => by omega, targetSymbol_of_not fun _ => by omega] at htarget
  calc left.toMarket = ⟨left.symbol, left.venueCode⟩ := rfl
    _ = ⟨right.symbol, right.venueCode⟩ := by rw [hsymbol, hcode]
    _ = right.toMarket := rfl

/-- The keys of two fill markets serve them exactly when both are bare cash or no cash at all,
and neither doubles the other. -/
theorem marketKeys_separate (left right : FillMarket) :
    KeysSeparate left.toMarket right.toMarket ↔
      BareCash left.toMarket ∧ BareCash right.toMarket ∧
        ¬ Doubled left.toMarket right.toMarket ∧ ¬ Doubled right.toMarket left.toMarket := by
  unfold KeysSeparate
  constructor
  · rintro ⟨hleft, hright, hkeys⟩
    rw [cacheKey_eq_iff hleft hright] at hkeys
    refine ⟨(readsBack_iff left).1 hleft, (readsBack_iff right).1 hright, ?_, ?_⟩
    · intro hdouble
      exact hdouble.ne (hkeys ⟨hdouble.1.trans hdouble.2.1.symm, hdouble.targetSymbol_eq⟩)
    · intro hdouble
      exact hdouble.ne
        (hkeys ⟨hdouble.2.1.trans hdouble.1.symm, hdouble.targetSymbol_eq.symm⟩).symm
  · rintro ⟨hleft, hright, hlr, hrl⟩
    have hreadsl := (readsBack_iff left).2 hleft
    have hreadsr := (readsBack_iff right).2 hright
    refine ⟨hreadsl, hreadsr, fun hkeys => ?_⟩
    obtain ⟨hcode, htarget⟩ := (cacheKey_eq_iff hreadsl hreadsr).1 hkeys
    exact eq_of_targetSymbol hleft hright hlr hrl hcode htarget

end

section

attribute [local instance] Text.Unicode.ascii

/-- `BTCUSDC` against cash on Binance. -/
def btcUsdcCash : FillMarket where
  symbol := "BTCUSDC"
  venueCode := 0
  accepted := by decide +kernel
  kind := .inl ⟨.inl rfl, "BTC", "USDC", by decide, by decide, by decide⟩

def btcUsdcPerpetual : FillMarket where
  symbol := "BTCUSDC"
  venueCode := 1
  accepted := by decide +kernel
  kind := .inr ⟨.inl rfl, .inr (by decide +kernel)⟩

def btcUsdtCash : FillMarket where
  symbol := "BTCUSDT"
  venueCode := 0
  accepted := by decide +kernel
  kind := .inl ⟨.inl rfl, "BTC", "USDT", by decide, by decide, by decide⟩

/-- The cash fill keeps its quote, and so it is priced with the perpetual's candles. -/
theorem marketKeys_collide :
    btcUsdcCash.cacheKey = .ok "BTCUSDC" ∧ btcUsdcPerpetual.cacheKey = .ok "BTCUSDC" ∧
      splitCacheSymbol "BTCUSDC" = .ok ("binance-futures", "BTCUSDC") ∧
      ¬ ∀ left right : FillMarket, KeysSeparate left.toMarket right.toMarket := by
  have hcash : btcUsdcCash.cacheKey = .ok "BTCUSDC" := by decide +kernel
  have hperpetual : btcUsdcPerpetual.cacheKey = .ok "BTCUSDC" := by decide +kernel
  refine ⟨hcash, hperpetual, by decide +kernel, fun h => ?_⟩
  obtain ⟨-, -, hkeys⟩ := h btcUsdcCash btcUsdcPerpetual
  exact absurd (hkeys (hcash.trans hperpetual.symm)) (by decide)

/-- Bitcoin against USDT is told apart from its perpetual against USDC. -/
theorem marketKeys_separate_btc :
    KeysSeparate btcUsdtCash.toMarket btcUsdcPerpetual.toMarket := by
  refine (marketKeys_separate btcUsdtCash btcUsdcPerpetual).2 ⟨⟨?_, ?_⟩, ⟨?_, ?_⟩, ?_, ?_⟩
  · intro _ base hbase
    have hasset : base = "BTC" := (String.append_left_inj "USDT").1 (hbase.symm.trans (by decide))
    rw [hasset]
    decide +kernel
  · exact fun _ => ⟨"BTC", by decide, by decide +kernel⟩
  · rintro (h | h) <;> cases h
  · intro h
    cases h
  · rintro ⟨h, -⟩
    cases h
  · rintro ⟨h, -⟩
    cases h

end

end CtaManager
