import CtaManager.Accounts.LiveMessages
import CtaManager.Library.Newest

/-!
The live state of an account, whatever the order of its payloads.

The replayed history and the live stream bring the payloads of an account in some order and
some of them twice.  Each field of the state keeps the newest value that had it (`Holds`),
so the state depends on the set of payloads only, as long as the values of one kind and one
time are one (`applyMessages_holds`).
-/

namespace CtaManager.Accounts

open Check Model Newest OrdMap

/-! ## Wallet rows -/

section

variable {rows : List WalletAssetSnapshot} {acc : WalletAssetAccumulator}

/-- The snapshot of the rows that are held; none without the USDT row. -/
def WalletAssetAccumulator.group (acc : WalletAssetAccumulator) : Option LiveEquitySnapshot :=
  acc.tsMs.bind fun tsMs =>
    if acc.assets.contains "USDT" then
      some (WalletAssetAccumulator.snapshotOf (acc.assets.toList.map Prod.snd) tsMs)
    else none

theorem group_tsMs {snapshot : LiveEquitySnapshot} (h : acc.group = some snapshot) :
    acc.tsMs = some snapshot.tsMs := by
  unfold WalletAssetAccumulator.group at h
  obtain ⟨tsMs, hts, h⟩ := Option.bind_eq_some_iff.1 h
  split at h
  · cases h
    exact hts
  · cases h

theorem update_stale {row : WalletAssetSnapshot} {tsMs : Int} (hts : acc.tsMs = some tsMs)
    (h : row.tsMs < tsMs) : acc.update row = (acc, none) := by
  unfold WalletAssetAccumulator.update
  rw [hts, Option.any_some, if_pos (decide_eq_true h)]

/-- The rows after one that is not stale. -/
def WalletAssetAccumulator.put (acc : WalletAssetAccumulator) (row : WalletAssetSnapshot) :
    WalletAssetAccumulator where
  tsMs := some row.tsMs
  assets := (if acc.tsMs.any fun tsMs => decide (tsMs < row.tsMs) then ∅ else acc.assets).insert
    row.asset row

theorem update_fresh {row : WalletAssetSnapshot} (h : ∀ tsMs, acc.tsMs = some tsMs → tsMs ≤ row.tsMs) :
    acc.update row = (acc.put row, (acc.put row).group) := by
  have hstale : ¬(acc.tsMs.any fun tsMs => decide (row.tsMs < tsMs)) = true := by
    cases hts : acc.tsMs with
    | none => simp
    | some tsMs => simpa using h tsMs hts
  unfold WalletAssetAccumulator.update
  rw [if_neg hstale]
  exact (apply_ite (Prod.mk (acc.put row)) _ _ _).symm

theorem fresh_or_stale (acc : WalletAssetAccumulator) (row : WalletAssetSnapshot) :
    (∀ tsMs, acc.tsMs = some tsMs → tsMs ≤ row.tsMs) ∨
      ∃ tsMs, acc.tsMs = some tsMs ∧ row.tsMs < tsMs := by
  cases hts : acc.tsMs with
  | none => exact Or.inl fun tsMs h => absurd h (by simp)
  | some tsMs =>
    rcases le_or_gt tsMs row.tsMs with hle | hlt
    · refine Or.inl fun tsMs' h => ?_
      cases h
      exact hle
    · exact Or.inr ⟨tsMs, rfl, hlt⟩

/-- What is held of wallet rows: those of the greatest time. -/
structure Accumulated (rows : List WalletAssetSnapshot) (acc : WalletAssetAccumulator) : Prop where
  newest : IsNewest id (rows.map (·.tsMs)) acc.tsMs
  assets : ∀ (asset : String) (row : WalletAssetSnapshot),
    acc.assets[asset]? = some row ↔ row ∈ rows ∧ row.asset = asset ∧ acc.tsMs = some row.tsMs

theorem accumulated_nil : Accumulated [] .default := by
  refine ⟨rfl, fun asset row => ?_⟩
  show (∅ : OrdMap String WalletAssetSnapshot)[asset]? = some row ↔ _
  rw [Std.ExtTreeMap.getElem?_empty]
  constructor
  · intro h
    cases h
  · rintro ⟨h, -⟩
    exact absurd h List.not_mem_nil

theorem Accumulated.le (h : Accumulated rows acc) {tsMs : Int} (hts : acc.tsMs = some tsMs)
    {row : WalletAssetSnapshot} (hrow : row ∈ rows) : row.tsMs ≤ tsMs := by
  have hnewest := h.newest
  rw [hts] at hnewest
  exact hnewest.le (List.mem_map_of_mem hrow)

theorem Accumulated.stale (h : Accumulated rows acc) {row : WalletAssetSnapshot} {tsMs : Int}
    (hts : acc.tsMs = some tsMs) (hrow : row.tsMs < tsMs) : Accumulated (rows ++ [row]) acc := by
  refine ⟨?_, fun asset row' => ?_⟩
  · have hkeep := h.newest.keep row.tsMs
    rw [List.map_append, List.map_singleton]
    rw [hts] at hkeep ⊢
    rw [keep_some, if_pos (show id row.tsMs < id tsMs from hrow)] at hkeep
    exact hkeep
  · rw [h.assets, List.mem_append, List.mem_singleton]
    constructor
    · rintro ⟨hmem, hasset⟩
      exact ⟨Or.inl hmem, hasset⟩
    · rintro ⟨hmem | rfl, hasset, hsame⟩
      · exact ⟨hmem, hasset, hsame⟩
      · rw [hts] at hsame
        exact absurd (Option.some.inj hsame) (ne_of_gt hrow)

theorem Accumulated.put (h : Accumulated rows acc) {row : WalletAssetSnapshot}
    (hfresh : ∀ tsMs, acc.tsMs = some tsMs → tsMs ≤ row.tsMs)
    (hunique : ∀ a ∈ rows, a.asset = row.asset → a.tsMs = row.tsMs → a = row) :
    Accumulated (rows ++ [row]) (acc.put row) := by
  have hold : ∀ (asset : String) (row' : WalletAssetSnapshot),
      (if acc.tsMs.any fun tsMs => decide (tsMs < row.tsMs) then ∅ else acc.assets)[asset]? =
        some row' ↔ row' ∈ rows ∧ row'.asset = asset ∧ row'.tsMs = row.tsMs := by
    intro asset row'
    cases hts : acc.tsMs with
    | none =>
      have hnil : rows = [] := by
        have hnewest := h.newest
        rw [hts] at hnewest
        exact List.map_eq_nil_iff.1 hnewest
      rw [Option.any_none, if_neg Bool.false_ne_true, h.assets, hts, hnil]
      simp
    | some tsMs =>
      rw [Option.any_some]
      by_cases hlt : tsMs < row.tsMs
      · rw [if_pos (decide_eq_true hlt), Std.ExtTreeMap.getElem?_empty]
        constructor
        · intro hnone
          cases hnone
        · rintro ⟨hmem, -, heq⟩
          have hle := h.le hts hmem
          omega
      · have heq : tsMs = row.tsMs := le_antisymm (hfresh tsMs hts) (not_lt.1 hlt)
        rw [if_neg (by simpa using hlt), h.assets, hts, heq]
        refine and_congr_right fun _ => and_congr_right fun _ => ?_
        rw [Option.some.injEq, eq_comm]
  refine ⟨?_, fun asset row' => ?_⟩
  · have hkeep := h.newest.keep row.tsMs
    rw [List.map_append, List.map_singleton]
    cases hts : acc.tsMs with
    | none =>
      rw [hts] at hkeep
      exact hkeep
    | some tsMs =>
      have hle : ¬id row.tsMs < id tsMs := not_lt.2 (hfresh tsMs hts)
      rw [hts, keep_some, if_neg hle] at hkeep
      exact hkeep
  · show ((if acc.tsMs.any fun tsMs => decide (tsMs < row.tsMs) then ∅ else acc.assets).insert
      row.asset row)[asset]? = some row' ↔ _ ∧ _ ∧ some row.tsMs = some row'.tsMs
    rw [getElem?_insert_of_key, List.mem_append, List.mem_singleton, Option.some.injEq]
    by_cases hasset : row.asset = asset
    · rw [if_pos hasset, Option.some.injEq]
      constructor
      · rintro rfl
        exact ⟨Or.inr rfl, hasset, rfl⟩
      · rintro ⟨hmem | rfl, hkey, hts⟩
        · exact (hunique row' hmem (hkey.trans hasset.symm) hts.symm).symm
        · rfl
    · rw [if_neg hasset, hold]
      constructor
      · rintro ⟨hmem, hkey, hts⟩
        exact ⟨Or.inl hmem, hkey, hts.symm⟩
      · rintro ⟨hmem | rfl, hkey, hts⟩
        · exact ⟨hmem, hkey, hts.symm⟩
        · exact absurd hkey hasset

/-- The rows that are held do not depend on the order of the run. -/
theorem Accumulated.unique {rows' : List WalletAssetSnapshot} {acc' : WalletAssetAccumulator}
    (hsame : ∀ row, row ∈ rows ↔ row ∈ rows') (h : Accumulated rows acc)
    (h' : Accumulated rows' acc') : acc = acc' := by
  have hts : acc.tsMs = acc'.tsMs := by
    refine IsNewest.unique (fun _ _ _ _ heq => heq) (fun t => ?_) h.newest h'.newest
    rw [List.mem_map, List.mem_map]
    simp only [hsame]
  have hassets : acc.assets = acc'.assets := by
    refine Std.ExtTreeMap.ext_getElem? fun asset => Option.ext fun row => ?_
    rw [h.assets, h'.assets, hsame, hts]
  calc acc = ⟨acc.tsMs, acc.assets⟩ := rfl
    _ = ⟨acc'.tsMs, acc'.assets⟩ := by rw [hts, hassets]
    _ = acc' := rfl

end

/-! ## Runs -/

/-- The rows of messages. -/
def rowsOf (l : List Message) : List WalletAssetSnapshot := l.filterMap (·.row)

def equitiesOf (l : List Message) : List LiveEquitySnapshot := l.filterMap (·.equity)

def marginsOf (l : List Message) : List (Int × Option ℚ) := l.filterMap (·.margin)

def ratiosOf (l : List Message) : List (Int × Option ℚ) := l.filterMap (·.ratio)

theorem filterMap_concat {α : Type} (f : Message → Option α) (l : List Message) (m : Message) :
    (l ++ [m]).filterMap f = l.filterMap f ++ (f m).toList := by
  rw [List.filterMap_append]
  refine congrArg (l.filterMap f ++ ·) ?_
  cases h : f m with
  | none => rw [List.filterMap_cons_none h]; rfl
  | some a => rw [List.filterMap_cons_some h]; rfl

/-- The equity of the wallet rows, as long as no account total has arrived. -/
structure WalletEquity (equity : Option LiveEquitySnapshot) (acc : WalletAssetAccumulator) :
    Prop where
  empty : acc.tsMs = none → equity = none
  group : ∀ snapshot, acc.group = some snapshot → equity = some snapshot
  le : ∀ snapshot tsMs, equity = some snapshot → acc.tsMs = some tsMs → snapshot.tsMs ≤ tsMs

/-- What a run of messages leaves. -/
structure Holds (l : List Message) (s : SourceLiveState × WalletAssetAccumulator) : Prop where
  rows : Accumulated (rowsOf l) s.2
  equity : ∃ total, IsNewest (·.tsMs) (equitiesOf l) total ∧
    s.1.accountRiskEquity = total.isSome ∧ (total.isSome = true → s.1.equity = total) ∧
    (total = none → WalletEquity s.1.equity s.2)
  margin : ∃ margin, IsNewest Prod.fst (marginsOf l) margin ∧
    s.1.initialMarginUsd = margin.bind Prod.snd ∧ s.1.initialMarginTsMs = margin.map Prod.fst
  ratio : ∃ ratio, IsNewest Prod.fst (ratiosOf l) ratio ∧ s.1.unifiedAccount = ratio.isSome ∧
    s.1.uniMmr = ratio.bind Prod.snd ∧ s.1.uniMmrTsMs = ratio.map Prod.fst

theorem holds_nil : Holds [] (.default, .default) where
  rows := accumulated_nil
  equity := by
    refine ⟨none, rfl, rfl, fun h => ?_, fun _ => ⟨fun _ => rfl, fun snapshot h => ?_,
      fun snapshot tsMs h _ => ?_⟩⟩
    · cases h
    · cases h
    · cases h
  margin := ⟨none, rfl, rfl, rfl⟩
  ratio := ⟨none, rfl, rfl, rfl, rfl⟩

theorem applyInitialMargin_keep {state : SourceLiveState} {margin : Option (Int × Option ℚ)}
    (husd : state.initialMarginUsd = margin.bind Prod.snd)
    (hts : state.initialMarginTsMs = margin.map Prod.fst) (m : Int × Option ℚ) :
    (state.applyInitialMargin m.1 m.2).initialMarginUsd = (keep Prod.fst margin m).bind Prod.snd ∧
      (state.applyInitialMargin m.1 m.2).initialMarginTsMs =
        (keep Prod.fst margin m).map Prod.fst := by
  unfold SourceLiveState.applyInitialMargin
  rw [hts]
  cases margin with
  | none => exact ⟨rfl, rfl⟩
  | some previous =>
    rw [keep_some, Option.map_some, Option.all_some]
    by_cases hlt : m.1 < previous.1
    · rw [if_pos hlt, if_neg (by simpa using hlt)]
      exact ⟨husd, hts⟩
    · rw [if_neg hlt, if_pos (by simpa using hlt)]
      exact ⟨rfl, rfl⟩

theorem applyUnifiedRisk_keep {state : SourceLiveState} {ratio : Option (Int × Option ℚ)}
    (hunified : state.unifiedAccount = ratio.isSome) (hmmr : state.uniMmr = ratio.bind Prod.snd)
    (hts : state.uniMmrTsMs = ratio.map Prod.fst) (r : Int × Option ℚ) :
    (state.applyUnifiedRisk r.1 r.2).unifiedAccount = (keep Prod.fst ratio r).isSome ∧
      (state.applyUnifiedRisk r.1 r.2).uniMmr = (keep Prod.fst ratio r).bind Prod.snd ∧
      (state.applyUnifiedRisk r.1 r.2).uniMmrTsMs = (keep Prod.fst ratio r).map Prod.fst := by
  unfold SourceLiveState.applyUnifiedRisk
  rw [hts]
  cases ratio with
  | none => exact ⟨rfl, rfl, rfl⟩
  | some previous =>
    rw [keep_some, Option.map_some, Option.any_some]
    by_cases hlt : r.1 < previous.1
    · rw [if_pos hlt, if_pos (decide_eq_true hlt)]
      exact ⟨hunified, hmmr, hts⟩
    · rw [if_neg hlt, if_neg (by simpa using hlt)]
      exact ⟨rfl, rfl, rfl⟩

/-- An account total replaces what is not a newer one. -/
theorem applyAccountEquity_keep {state : SourceLiveState} {total : Option LiveEquitySnapshot}
    (hrisk : state.accountRiskEquity = total.isSome)
    (hequity : total.isSome = true → state.equity = total) (snapshot : LiveEquitySnapshot) :
    (state.applyAccountEquity snapshot).accountRiskEquity = true ∧
      (state.applyAccountEquity snapshot).equity = keep (·.tsMs) total snapshot := by
  unfold SourceLiveState.applyAccountEquity
  rw [hrisk]
  cases total with
  | none => exact ⟨rfl, rfl⟩
  | some previous =>
    rw [hequity rfl, keep_some, Option.isSome_some, Bool.true_and, Option.any_some]
    by_cases hlt : snapshot.tsMs < previous.tsMs
    · rw [if_pos hlt, if_pos (decide_eq_true hlt)]
      exact ⟨hrisk, hequity rfl⟩
    · rw [if_neg hlt, if_neg (by simpa using hlt)]
      exact ⟨rfl, rfl⟩

/-- A wallet row, with the equity it may set. -/
theorem WalletEquity.update {state : SourceLiveState} {acc : WalletAssetAccumulator}
    (h : WalletEquity state.equity acc) (hrisk : state.accountRiskEquity = false)
    (row : WalletAssetSnapshot) :
    WalletEquity ((acc.update row).2.elim state state.applyWalletEquity).equity
      (acc.update row).1 := by
  rcases fresh_or_stale acc row with hfresh | ⟨tsMs, hts, hlt⟩
  · rw [update_fresh hfresh]
    have hle : ∀ snapshot, state.equity = some snapshot → snapshot.tsMs ≤ row.tsMs := by
      intro snapshot hsnapshot
      cases hts : acc.tsMs with
      | none =>
        rw [h.empty hts] at hsnapshot
        cases hsnapshot
      | some tsMs => exact (h.le snapshot tsMs hsnapshot hts).trans (hfresh tsMs hts)
    cases hgroup : (acc.put row).group with
    | none =>
      refine ⟨fun hnone => ?_, fun snapshot hsome => ?_, fun snapshot tsMs hsome hts => ?_⟩
      · cases hnone
      · rw [hgroup] at hsome
        cases hsome
      · obtain rfl := Option.some.inj (show some row.tsMs = some tsMs from hts)
        exact hle snapshot hsome
    | some snapshot =>
      have hts : row.tsMs = snapshot.tsMs := Option.some.inj (group_tsMs hgroup)
      have happly : (state.applyWalletEquity snapshot).equity = some snapshot := by
        unfold SourceLiveState.applyWalletEquity
        rw [hrisk, Bool.false_or, if_neg]
        intro hany
        cases hequity : state.equity with
        | none =>
          rw [hequity] at hany
          cases hany
        | some previous =>
          rw [hequity, Option.any_some] at hany
          have hprevious := hle previous hequity
          have hlt := of_decide_eq_true hany
          omega
      refine ⟨fun hnone => ?_, fun snapshot' hsome => ?_, fun snapshot' tsMs hsome htsMs => ?_⟩
      · cases hnone
      · rw [hgroup] at hsome
        cases hsome
        exact happly
      · have heq : some snapshot = some snapshot' := happly.symm.trans hsome
        cases heq
        obtain rfl := Option.some.inj (show some row.tsMs = some tsMs from htsMs)
        exact le_of_eq hts.symm
  · rw [update_stale hts hlt]
    exact h

theorem accumulated_update {rows : List WalletAssetSnapshot} {acc : WalletAssetAccumulator}
    (h : Accumulated rows acc) {row : WalletAssetSnapshot}
    (hunique : ∀ a ∈ rows, a.asset = row.asset → a.tsMs = row.tsMs → a = row) :
    Accumulated (rows ++ [row]) (acc.update row).1 := by
  rcases fresh_or_stale acc row with hfresh | ⟨tsMs, hts, hlt⟩
  · rw [update_fresh hfresh]
    exact h.put hfresh hunique
  · rw [update_stale hts hlt]
    exact h.stale hts hlt

/-! ### What the parts of a message leave alone -/

theorem applyWalletEquity_frame (state : SourceLiveState) (snapshot : LiveEquitySnapshot) :
    (state.applyWalletEquity snapshot) =
      { state with equity := (state.applyWalletEquity snapshot).equity } := by
  unfold SourceLiveState.applyWalletEquity
  split
  · rfl
  · rfl

theorem applyWalletEquity_risk {state : SourceLiveState} (h : state.accountRiskEquity = true)
    (snapshot : LiveEquitySnapshot) : state.applyWalletEquity snapshot = state := by
  unfold SourceLiveState.applyWalletEquity
  rw [h, Bool.true_or, if_pos rfl]

theorem applyAccountEquity_frame (state : SourceLiveState) (snapshot : LiveEquitySnapshot) :
    (state.applyAccountEquity snapshot) =
      { state with
        accountRiskEquity := (state.applyAccountEquity snapshot).accountRiskEquity
        equity := (state.applyAccountEquity snapshot).equity } := by
  unfold SourceLiveState.applyAccountEquity
  split
  · rfl
  · rfl

theorem applyInitialMargin_frame (state : SourceLiveState) (tsMs : Int) (margin : Option ℚ) :
    (state.applyInitialMargin tsMs margin) =
      { state with
        initialMarginUsd := (state.applyInitialMargin tsMs margin).initialMarginUsd
        initialMarginTsMs := (state.applyInitialMargin tsMs margin).initialMarginTsMs } := by
  unfold SourceLiveState.applyInitialMargin
  split
  · rfl
  · rfl

theorem applyUnifiedRisk_frame (state : SourceLiveState) (tsMs : Int) (uniMmr : Option ℚ) :
    (state.applyUnifiedRisk tsMs uniMmr) =
      { state with
        unifiedAccount := (state.applyUnifiedRisk tsMs uniMmr).unifiedAccount
        uniMmr := (state.applyUnifiedRisk tsMs uniMmr).uniMmr
        uniMmrTsMs := (state.applyUnifiedRisk tsMs uniMmr).uniMmrTsMs } := by
  unfold SourceLiveState.applyUnifiedRisk
  split
  · rfl
  · rfl

/-! ### One message -/

/-- The rows that are held do not conflict with those of a message. -/
def RowsAgree (l : List Message) : Prop :=
  ∀ a ∈ rowsOf l, ∀ b ∈ rowsOf l, a.asset = b.asset → a.tsMs = b.tsMs → a = b

/-- The state after the wallet row of a message. -/
def rowState (s : SourceLiveState × WalletAssetAccumulator) (m : Message) : SourceLiveState :=
  (m.row.elim (s.2, none) s.2.update).2.elim s.1 s.1.applyWalletEquity

def equityState (s : SourceLiveState × WalletAssetAccumulator) (m : Message) : SourceLiveState :=
  m.equity.elim (rowState s m) (rowState s m).applyAccountEquity

def marginState (s : SourceLiveState × WalletAssetAccumulator) (m : Message) : SourceLiveState :=
  m.margin.elim (equityState s m) fun margin =>
    (equityState s m).applyInitialMargin margin.1 margin.2

theorem applyMessage_eq (s : SourceLiveState × WalletAssetAccumulator) (m : Message) :
    applyMessage s m =
      (m.ratio.elim (marginState s m) fun ratio => (marginState s m).applyUnifiedRisk ratio.1 ratio.2,
        (m.row.elim (s.2, none) s.2.update).1) := rfl

section

variable {l : List Message} {s : SourceLiveState × WalletAssetAccumulator} {m : Message}

theorem rowState_frame (s : SourceLiveState × WalletAssetAccumulator) (m : Message) :
    rowState s m = { s.1 with equity := (rowState s m).equity } := by
  unfold rowState
  cases (m.row.elim (s.2, none) s.2.update).2 with
  | none => rfl
  | some snapshot => exact applyWalletEquity_frame s.1 snapshot

theorem equityState_frame (s : SourceLiveState × WalletAssetAccumulator) (m : Message) :
    equityState s m =
      { s.1 with
        accountRiskEquity := (equityState s m).accountRiskEquity
        equity := (equityState s m).equity } := by
  have hrow := rowState_frame s m
  unfold equityState
  generalize rowState s m = state at hrow ⊢
  cases m.equity with
  | none =>
    rw [Option.elim_none, hrow]
  | some snapshot =>
    rw [Option.elim_some, applyAccountEquity_frame, hrow]

theorem marginState_frame (s : SourceLiveState × WalletAssetAccumulator) (m : Message) :
    marginState s m =
      { equityState s m with
        initialMarginUsd := (marginState s m).initialMarginUsd
        initialMarginTsMs := (marginState s m).initialMarginTsMs } := by
  unfold marginState
  cases m.margin with
  | none => rfl
  | some margin => exact applyInitialMargin_frame _ margin.1 margin.2

theorem applyMessage_frame (s : SourceLiveState × WalletAssetAccumulator) (m : Message) :
    (applyMessage s m).1 =
      { marginState s m with
        unifiedAccount := (applyMessage s m).1.unifiedAccount
        uniMmr := (applyMessage s m).1.uniMmr
        uniMmrTsMs := (applyMessage s m).1.uniMmrTsMs } := by
  rw [applyMessage_eq]
  cases m.ratio with
  | none => rfl
  | some ratio => exact applyUnifiedRisk_frame _ ratio.1 ratio.2

theorem Holds.rows_step (h : Holds l s) (hagree : RowsAgree (l ++ [m])) :
    Accumulated (rowsOf (l ++ [m])) (applyMessage s m).2 := by
  unfold RowsAgree at hagree
  rw [applyMessage_eq]
  unfold rowsOf at hagree ⊢
  rw [filterMap_concat] at hagree ⊢
  cases hrow : m.row with
  | none =>
    rw [Option.toList_none, List.append_nil]
    exact h.rows
  | some row =>
    refine accumulated_update h.rows fun a ha hasset hts => ?_
    refine hagree a (List.mem_append_left _ ha) row (List.mem_append_right _ ?_) hasset hts
    show row ∈ m.row.toList
    rw [hrow]
    exact List.mem_singleton_self row

theorem Holds.equity_step (h : Holds l s) :
    ∃ total, IsNewest (·.tsMs) (equitiesOf (l ++ [m])) total ∧
      (applyMessage s m).1.accountRiskEquity = total.isSome ∧
      (total.isSome = true → (applyMessage s m).1.equity = total) ∧
      (total = none → WalletEquity (applyMessage s m).1.equity (applyMessage s m).2) := by
  obtain ⟨total, hnewest, hrisk, htotal, hwallet⟩ := h.equity
  have hrowRisk : (rowState s m).accountRiskEquity = total.isSome := by
    rw [rowState_frame]
    exact hrisk
  have hrowTotal : total.isSome = true → (rowState s m).equity = total := by
    intro hsome
    rw [← htotal hsome]
    unfold rowState
    cases (m.row.elim (s.2, none) s.2.update).2 with
    | none => rfl
    | some snapshot =>
      rw [Option.elim_some, applyWalletEquity_risk (hrisk.trans hsome)]
  refine ⟨m.equity.elim total (keep (·.tsMs) total), ?_, ?_⟩
  · unfold equitiesOf
    rw [filterMap_concat]
    exact hnewest.keep_elim m.equity
  · rw [applyMessage_frame, marginState_frame]
    show (equityState s m).accountRiskEquity = _ ∧ (_ → (equityState s m).equity = _) ∧
      (_ → WalletEquity (equityState s m).equity _)
    unfold equityState
    cases m.equity with
    | none =>
      refine ⟨hrowRisk, hrowTotal, fun hnone => ?_⟩
      have hwallet := hwallet hnone
      have hrisk : s.1.accountRiskEquity = false := by
        rw [hrisk]
        exact Option.isSome_eq_false_iff.2 (Option.isNone_iff_eq_none.2 hnone)
      rw [applyMessage_eq]
      show WalletEquity (rowState s m).equity _
      unfold rowState
      cases m.row with
      | none => exact hwallet
      | some row => exact hwallet.update hrisk row
    | some snapshot =>
      obtain ⟨hkept, hequity⟩ := applyAccountEquity_keep hrowRisk hrowTotal snapshot
      have hsome : (keep (·.tsMs) total snapshot).isSome = true := by
        cases total with
        | none => rfl
        | some previous =>
          rw [keep_some]
          split
          · rfl
          · rfl
      refine ⟨hkept.trans hsome.symm, fun _ => hequity, fun hnone => ?_⟩
      rw [Option.elim_some] at hnone
      rw [hnone] at hsome
      cases hsome

theorem Holds.margin_step (h : Holds l s) :
    ∃ margin, IsNewest Prod.fst (marginsOf (l ++ [m])) margin ∧
      (applyMessage s m).1.initialMarginUsd = margin.bind Prod.snd ∧
      (applyMessage s m).1.initialMarginTsMs = margin.map Prod.fst := by
  obtain ⟨margin, hnewest, husd, hts⟩ := h.margin
  refine ⟨m.margin.elim margin (keep Prod.fst margin), ?_, ?_⟩
  · unfold marginsOf
    rw [filterMap_concat]
    exact hnewest.keep_elim m.margin
  · have husd' : (equityState s m).initialMarginUsd = margin.bind Prod.snd := by
      rw [equityState_frame]
      exact husd
    have hts' : (equityState s m).initialMarginTsMs = margin.map Prod.fst := by
      rw [equityState_frame]
      exact hts
    rw [applyMessage_frame]
    show (marginState s m).initialMarginUsd = _ ∧ (marginState s m).initialMarginTsMs = _
    unfold marginState
    cases m.margin with
    | none => exact ⟨husd', hts'⟩
    | some next => exact applyInitialMargin_keep husd' hts' next

theorem Holds.ratio_step (h : Holds l s) :
    ∃ ratio, IsNewest Prod.fst (ratiosOf (l ++ [m])) ratio ∧
      (applyMessage s m).1.unifiedAccount = ratio.isSome ∧
      (applyMessage s m).1.uniMmr = ratio.bind Prod.snd ∧
      (applyMessage s m).1.uniMmrTsMs = ratio.map Prod.fst := by
  obtain ⟨ratio, hnewest, hunified, hmmr, hts⟩ := h.ratio
  refine ⟨m.ratio.elim ratio (keep Prod.fst ratio), ?_, ?_⟩
  · unfold ratiosOf
    rw [filterMap_concat]
    exact hnewest.keep_elim m.ratio
  · have hframe : marginState s m = { marginState s m with
        unifiedAccount := s.1.unifiedAccount, uniMmr := s.1.uniMmr, uniMmrTsMs := s.1.uniMmrTsMs } := by
      rw [marginState_frame, equityState_frame]
    have hunified' : (marginState s m).unifiedAccount = ratio.isSome := by
      rw [hframe]
      exact hunified
    have hmmr' : (marginState s m).uniMmr = ratio.bind Prod.snd := by
      rw [hframe]
      exact hmmr
    have hts' : (marginState s m).uniMmrTsMs = ratio.map Prod.fst := by
      rw [hframe]
      exact hts
    rw [applyMessage_eq]
    cases m.ratio with
    | none => exact ⟨hunified', hmmr', hts'⟩
    | some next => exact applyUnifiedRisk_keep hunified' hmmr' hts' next

theorem Holds.step (h : Holds l s) (hagree : RowsAgree (l ++ [m])) :
    Holds (l ++ [m]) (applyMessage s m) where
  rows := h.rows_step hagree
  equity := h.equity_step
  margin := h.margin_step
  ratio := h.ratio_step

end

/-- A whole run of payloads. -/
theorem applyMessages_holds (venue service : String) (feed : List (List UInt8))
    (hagree : RowsAgree (feed.map (messageOf venue service))) :
    ∃ s, applyMessages venue service feed = .ok s ∧
      Holds (feed.map (messageOf venue service)) s := by
  induction feed using List.reverseRecOn with
  | nil => exact ⟨_, rfl, holds_nil⟩
  | append_singleton feed payload ih =>
    rw [List.map_append, List.map_singleton] at hagree ⊢
    have hbefore : RowsAgree (feed.map (messageOf venue service)) := by
      intro a ha b hb
      have hmem : ∀ row ∈ rowsOf (feed.map (messageOf venue service)),
          row ∈ rowsOf (feed.map (messageOf venue service) ++ [messageOf venue service payload]) := by
        intro row hrow
        unfold rowsOf at hrow ⊢
        rw [filterMap_concat]
        exact List.mem_append_left _ hrow
      exact hagree a (hmem a ha) b (hmem b hb)
    obtain ⟨s, hrun, hs⟩ := ih hbefore
    refine ⟨applyMessage s (messageOf venue service payload), ?_, hs.step hagree⟩
    unfold applyMessages at hrun ⊢
    rw [List.foldlM_append, hrun, ok_bind, List.foldlM_cons, applyAccountMessage_eq, ok_bind]
    rfl

end CtaManager.Accounts
