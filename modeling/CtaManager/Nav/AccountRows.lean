import CtaManager.Nav.TimelineEvents
import CtaManager.Nav.WindowRun
import CtaManager.Nav.WithoutCorrections

/-!
The account rows of a timeline with and without its corrections.

The account rows are read off `accountOnly` (`timelineTotalsBySymbol_accountOnly`
and the lemmas after it), and a symbol that only a correction names has an empty
row (`symbolDelta_of_unheld`).  So the two windows, replayed side by side
(`AccountFrame`), show the same account.
-/

namespace CtaManager

open Check StableSort PartitionPoint

variable {F : Type} [F64 F]

/-! ## What is read off the account -/

namespace TimelineSourceState

theorem timelineTotalsBySymbol_accountOnly (runtimes : List (TimelineSourceState F)) :
    timelineTotalsBySymbol (runtimes.map accountOnly) = timelineTotalsBySymbol runtimes := by
  unfold timelineTotalsBySymbol
  rw [List.foldl_map]
  rfl

theorem timelinePositionValues_accountOnly (runtimes : List (TimelineSourceState F))
    (selectedSymbols : List String) :
    timelinePositionValues (runtimes.map accountOnly) selectedSymbols =
      timelinePositionValues runtimes selectedSymbols := by
  unfold timelinePositionValues
  rw [List.foldl_map]
  rfl

theorem timelinePositionValuesBySymbol_accountOnly (runtimes : List (TimelineSourceState F)) :
    timelinePositionValuesBySymbol (runtimes.map accountOnly) =
      timelinePositionValuesBySymbol runtimes := by
  unfold timelinePositionValuesBySymbol
  rw [List.foldl_map]
  rfl

theorem timelineSymbolReports_accountOnly (runtimes : List (TimelineSourceState F)) :
    timelineSymbolReports (runtimes.map accountOnly) = timelineSymbolReports runtimes := by
  unfold timelineSymbolReports
  rw [List.foldl_map]
  rfl

omit [F64 F] in
/-- States that differ by corrections have one account. -/
theorem map_accountOnly_eq {R : TimelineSourceState F → TimelineSourceState F → Prop}
    (hR : ∀ s s', R s s' → s'.accountOnly = s.accountOnly)
    {runtimes runtimes' : List (TimelineSourceState F)} (h : List.Forall₂ R runtimes runtimes') :
    runtimes'.map accountOnly = runtimes.map accountOnly := by
  induction h with
  | nil => rfl
  | cons hab _ ih => rw [List.map_cons, List.map_cons, hR _ _ hab, ih]

/-! ## Symbols without a ledger -/

/-- No account ledger is of a symbol outside `symbols`. -/
def Held (symbols : OrdSet String) (runtimes : List (TimelineSourceState F)) : Prop :=
  ∀ runtime ∈ runtimes, ∀ (market : Market) (state : VenueState F),
    runtime.states[market]? = some state → market.symbol ∈ symbols

omit [F64 F] in
theorem Held.ne {symbols : OrdSet String} {runtimes : List (TimelineSourceState F)}
    (h : Held symbols runtimes) {runtime : TimelineSourceState F} (hr : runtime ∈ runtimes)
    {symbol : String} (hsymbol : symbol ∉ symbols) :
    ∀ p ∈ runtime.states.toList, p.1.symbol ≠ symbol := by
  rintro p hp rfl
  exact hsymbol (h runtime hr p.1 p.2 (OrdMap.mem_toList.1 hp))

omit [F64 F] in
/-- What one source after the other leaves alone, the whole fold leaves alone. -/
theorem foldl_getElem? {V : Type} {symbol : String}
    {step : OrdMap String V → TimelineSourceState F → OrdMap String V}
    (runtimes : List (TimelineSourceState F)) (m : OrdMap String V)
    (h : ∀ runtime ∈ runtimes, ∀ m : OrdMap String V, (step m runtime)[symbol]? = m[symbol]?) :
    (runtimes.foldl step m)[symbol]? = m[symbol]? := by
  induction runtimes generalizing m with
  | nil => rfl
  | cons runtime runtimes ih =>
    rw [List.foldl_cons, ih _ fun r hr => h r (List.mem_cons_of_mem _ hr),
      h runtime List.mem_cons_self]

theorem getElem?_timelineTotalsBySymbol_of_unheld {symbols : OrdSet String}
    {runtimes : List (TimelineSourceState F)} (h : Held symbols runtimes) {symbol : String}
    (hsymbol : symbol ∉ symbols) : (timelineTotalsBySymbol runtimes)[symbol]? = none := by
  unfold timelineTotalsBySymbol
  rw [foldl_getElem? runtimes ∅ fun runtime hr m => ?_, Std.ExtTreeMap.getElem?_empty]
  exact OrdMap.getElem?_foldl_upsert_of_forall_ne (fun p : Market × VenueState F => p.1.symbol)
    (fun p o => (o.getD NavTotals.zero).add (runtime.accountReport p.1 p.2).totals) _ m symbol
    (h.ne hr hsymbol)

/-- The symbol reports are of held symbols. -/
theorem symbol_mem_of_timelineSymbolReports {symbols : OrdSet String}
    {runtimes : List (TimelineSourceState F)} (h : Held symbols runtimes)
    {report : AggregateSymbolNavReport F} (hreport : report ∈ timelineSymbolReports runtimes) :
    report.symbol ∈ symbols := by
  unfold timelineSymbolReports at hreport
  obtain ⟨p, hp, rfl⟩ := List.mem_map.1 hreport
  have hlookup := OrdMap.mem_toList.1 hp
  by_contra hsymbol
  rw [foldl_getElem? runtimes ∅ fun runtime hr m => ?_, Std.ExtTreeMap.getElem?_empty] at hlookup
  · cases hlookup
  · refine OrdMap.getElem?_foldl_upsert_of_forall_ne
      (fun p : String × SymbolReportBuilder F => p.1) (fun p o =>
        (o.getD AggregateSymbolBuilder.empty).push (p.2.finish p.1)) _ m p.1 fun q hq => ?_
    rintro heq
    have hbuilder := OrdMap.mem_toList.1 hq
    unfold symbolBuilders at hbuilder
    rw [OrdMap.getElem?_foldl_upsert_of_forall_ne
      (fun p : Market × VenueState F => p.1.symbol) (fun p o =>
        (o.getD SymbolReportBuilder.empty).push (p.2.report runtime.latestMarks[p.1]?)) _ ∅ q.1
        (h.ne hr (by rw [heq]; exact hsymbol)), Std.ExtTreeMap.getElem?_empty] at hbuilder
    cases hbuilder

theorem timelinePositionValues_congr {symbols : OrdSet String}
    {runtimes : List (TimelineSourceState F)} (h : Held symbols runtimes)
    {selected selected' : List String}
    (hselected : ∀ symbol ∈ symbols, symbol ∈ selected ↔ symbol ∈ selected') :
    timelinePositionValues runtimes selected = timelinePositionValues runtimes selected' := by
  unfold timelinePositionValues
  rw [List.foldl_ext _ (fun values runtime => runtime.states.toList.foldl
    (fun (values : F × F) p =>
      if selected'.contains p.1.symbol then
        let report := runtime.accountReport p.1 p.2
        (values.1 + grossValue report, values.2 + report.netPositionValueQuote)
      else values) values) (0, 0) fun values runtime hr => ?_]
  refine List.foldl_ext _ _ values fun values p hp => ?_
  have hsame := hselected _ (h runtime hr p.1 p.2 (OrdMap.mem_toList.1 hp))
  simp only [List.contains_iff_mem, hsame]

end TimelineSourceState

/-! ## The two replays -/

open TimelineSourceState in
/-- What is known of source `i` while the events `rest` are to come: its snapshot is
in place or among them, its fills are later, its ledgers are of `symbols`. -/
structure RuntimeInv (endTsUs : Int) (symbols : OrdSet String) (rest : List (TimelineEvent F))
    (i : Nat) (s : TimelineSourceState F) : Prop where
  awaits : (s.pendingInitialStates = none ∧ s.pendingInitialStrategyStates = none) ∨
    ∀ ts, s.snapshotTsUs = some ts → endTsUs < ts ∨ ∃ id, TimelineEvent.snapshot i id ts ∈ rest
  fillsAfter : ∀ id fill, TimelineEvent.fill i id fill ∈ rest → s.AfterSnapshot fill.fillTsUs
  held : ∀ (market : Market) (state : VenueState F), s.states[market]? = some state →
    market.symbol ∈ symbols
  pendingHeld : ∀ states, s.pendingInitialStates = some states →
    (∃ ts, s.snapshotTsUs = some ts ∧ ts ≤ endTsUs) →
      ∀ (market : Market) (state : VenueState F), states[market]? = some state →
        market.symbol ∈ symbols
  fillsHeld : ∀ id fill, TimelineEvent.fill i id fill ∈ rest → fill.event.symbol ∈ symbols

section Runtime

variable {endTsUs : Int} {symbols : OrdSet String} {rest : List (TimelineEvent F)} {i : Nat}
  {s s' : TimelineSourceState F}

open TimelineSourceState

omit [F64 F] in
theorem RuntimeInv.congr (h : RuntimeInv endTsUs symbols rest i s)
    (hs : s'.accountOnly = s.accountOnly) : RuntimeInv endTsUs symbols rest i s' := by
  obtain ⟨-, -, h3, h4, h5, h6, -, -⟩ := accountOnly_eq hs
  have hafter : ∀ t, s'.AfterSnapshot t ↔ s.AfterSnapshot t := by
    intro t
    unfold AfterSnapshot
    rw [h3]
  exact ⟨by rw [h3, h4, h5]; exact h.awaits, fun id fill hfill =>
    (hafter _).2 (h.fillsAfter id fill hfill), by rw [h6]; exact h.held,
    by rw [h3, h4]; exact h.pendingHeld, h.fillsHeld⟩

omit [F64 F] in
/-- Fewer events are to come, and the snapshot is not among those that came. -/
theorem RuntimeInv.weaken {rest' : List (TimelineEvent F)}
    (h : RuntimeInv endTsUs symbols rest i s) (hsub : ∀ event ∈ rest', event ∈ rest)
    (hsnapshot : ∀ id ts, TimelineEvent.snapshot i id ts ∈ rest →
      TimelineEvent.snapshot i id ts ∈ rest') : RuntimeInv endTsUs symbols rest' i s := by
  refine ⟨?_, fun id fill hfill => h.fillsAfter id fill (hsub _ hfill), h.held, h.pendingHeld,
    fun id fill hfill => h.fillsHeld id fill (hsub _ hfill)⟩
  rcases h.awaits with hnone | hsome
  · exact Or.inl hnone
  · refine Or.inr fun ts hts => ?_
    rcases hsome ts hts with hlate | ⟨id, hid⟩
    · exact Or.inl hlate
    · exact Or.inr ⟨id, hsnapshot id ts hid⟩

omit [F64 F] in
theorem RuntimeInv.activateSnapshotAt (h : RuntimeInv endTsUs symbols rest i s) {tsUs : Int}
    (hend : tsUs ≤ endTsUs) : RuntimeInv endTsUs symbols rest i (s.activateSnapshotAt tsUs) := by
  by_cases hr : s.snapshotReached tsUs = true
  · have hsnap : ∃ ts, s.snapshotTsUs = some ts ∧ ts ≤ endTsUs := by
      obtain ⟨ts, hts, hle⟩ := (Option.any_eq_true _ _).1 hr
      exact ⟨ts, hts, (of_decide_eq_true hle).trans hend⟩
    rw [activateSnapshotAt_of_reached s tsUs hr]
    obtain ⟨h1, h2⟩ := activated_settled s
    refine ⟨Or.inl ⟨h1, h2⟩, fun id fill hfill ts hts => ?_, fun market state hstate => ?_,
      fun states hstates => ?_, h.fillsHeld⟩
    · rw [activated_snapshotTsUs] at hts
      exact h.fillsAfter id fill hfill ts hts
    · have hstates : s.activated.states = s.pendingInitialStates.getD s.states := by
        unfold activated activateStrategies activateAccount
        cases hp : s.pendingInitialStates <;> cases s.pendingInitialStrategyStates <;> simp
      rw [hstates] at hstate
      cases hp : s.pendingInitialStates with
      | none =>
        rw [hp] at hstate
        exact h.held market state hstate
      | some states =>
        rw [hp] at hstate
        exact h.pendingHeld states hp hsnap market state hstate
    · rw [h1] at hstates
      cases hstates
  · rw [activateSnapshotAt_of_not_reached s tsUs (by simpa using hr)]
    exact h

omit [F64 F] in
/-- Between the events the snapshot is in place, or not due. -/
theorem RuntimeInv.settledBy (h : RuntimeInv endTsUs symbols rest i s) {tsUs : Int}
    (hend : tsUs ≤ endTsUs) (hrest : ∀ event ∈ rest, tsUs < event.tsUs) : s.SettledBy tsUs := by
  unfold SettledBy
  rcases h.awaits with ⟨h1, h2⟩ | hawaits
  · rcases activateSnapshotAt_cases s tsUs with hc | hc
    · exact hc
    · rw [hc, activated_of_settled h1 h2]
  · refine activateSnapshotAt_of_not_reached s tsUs ?_
    unfold snapshotReached
    cases hts : s.snapshotTsUs with
    | none => rfl
    | some ts =>
      have hlt : tsUs < ts := by
        rcases hawaits ts hts with hlate | ⟨id, hid⟩
        · omega
        · exact hrest _ hid
      simpa using hlt

/-- An event of the source, applied with and without corrections. -/
theorem RuntimeInv.applyTo {event : TimelineEvent F} {t : TimelineSourceState F}
    (h : RuntimeInv endTsUs symbols (event :: rest) i s) (hi : event.sourceIndex = i)
    (hend : event.tsUs ≤ endTsUs) (hs : Uncorrected s s') (hstep : event.applyTo s = .ok t) :
    ∃ t', event.applyTo s' = .ok t' ∧ Uncorrected t t' ∧ RuntimeInv endTsUs symbols rest i t := by
  cases event with
  | snapshot j id ts =>
    obtain rfl : j = i := hi
    cases hstep
    refine ⟨_, rfl, hs.activateSnapshotAt ts, ?_⟩
    have hinv := h.activateSnapshotAt hend
    refine ⟨?_, fun id fill hfill => hinv.fillsAfter id fill (List.mem_cons_of_mem _ hfill),
      hinv.held, hinv.pendingHeld,
      fun id fill hfill => hinv.fillsHeld id fill (List.mem_cons_of_mem _ hfill)⟩
    rcases h.awaits with ⟨h1, h2⟩ | hawaits
    · rcases activateSnapshotAt_cases s ts with hc | hc
      · rw [hc]
        exact Or.inl ⟨h1, h2⟩
      · rw [hc]
        exact Or.inl (activated_settled s)
    · by_cases hr : s.snapshotReached ts = true
      · rw [activateSnapshotAt_of_reached s ts hr]
        exact Or.inl (activated_settled s)
      · rw [activateSnapshotAt_of_not_reached s ts (by simpa using hr)]
        refine Or.inr fun ts' hts' => ?_
        rcases hawaits ts' hts' with hlate | ⟨id', hid'⟩
        · exact Or.inl hlate
        · rcases List.mem_cons.1 hid' with heq | hid'
          · cases heq
            unfold snapshotReached at hr
            rw [hts'] at hr
            simp at hr
          · exact Or.inr ⟨id', hid'⟩
  | fill j id fill =>
    obtain rfl : j = i := hi
    obtain ⟨t', ht', hunc⟩ := hs.applyFill (h.fillsAfter id fill List.mem_cons_self) hstep
    refine ⟨t', ht', hunc, ?_⟩
    -- the state without corrections has the same account, and only books the fill
    have hinv : RuntimeInv endTsUs symbols (.fill j id fill :: rest) j
        (s'.activateSnapshotAt fill.fillTsUs) :=
      (h.congr hs.account).activateSnapshotAt hend
    rw [applyFill_eq, hs.advanceBefore_eq, ok_bind] at ht'
    have hframe := bookFill_frame ht'
    have hstates : ∀ (market : Market) (state : VenueState F), t'.states[market]? = some state →
        market.symbol ∈ symbols := by
      intro market state hstate
      unfold bookFill bookAccount at ht'
      obtain ⟨u, hu, ht'⟩ := bind_eq_ok.1 ht'
      obtain ⟨account, -, hu⟩ := bind_eq_ok.1 hu
      cases hu
      obtain ⟨v, hv, ht'⟩ := bind_eq_ok.1 ht'
      cases ht'
      rw [bookStrategy_frame hv] at hstate
      simp only [OrdMap.getElem?_insert_of_key] at hstate
      split at hstate
      · rename_i heq
        rw [← heq]
        exact h.fillsHeld id fill List.mem_cons_self
      · exact hinv.held market state hstate
    refine RuntimeInv.congr (s := t') ?_ hunc.account.symm
    have hbooked : RuntimeInv endTsUs symbols (.fill j id fill :: rest) j t' := by
      refine ⟨?_, ?_, hstates, ?_, hinv.fillsHeld⟩
      · rw [hframe]
        exact hinv.awaits
      · rw [hframe]
        exact hinv.fillsAfter
      · rw [hframe]
        exact hinv.pendingHeld
    refine hbooked.weaken (fun event hevent => List.mem_cons_of_mem _ hevent) fun id' ts hmem => ?_
    rcases List.mem_cons.1 hmem with heq | hmem
    · cases heq
    · exact hmem

end Runtime

open TimelineSourceState in
/-- The states of two replays, with and without corrections, while the events `rest`
are to come. -/
structure AccountFrame (endTsUs : Int) (symbols : OrdSet String) (rest : List (TimelineEvent F))
    (runtimes runtimes' : List (TimelineSourceState F)) : Prop where
  uncorrected : List.Forall₂ Uncorrected runtimes runtimes'
  inv : ∀ i runtime, runtimes[i]? = some runtime → RuntimeInv endTsUs symbols rest i runtime
  inWindow : ∀ event ∈ rest, event.tsUs ≤ endTsUs

namespace AccountFrame

variable {endTsUs : Int} {symbols : OrdSet String} {rest : List (TimelineEvent F)}
  {runtimes runtimes' : List (TimelineSourceState F)}

open TimelineSourceState

theorem held (h : AccountFrame endTsUs symbols rest runtimes runtimes') : Held symbols runtimes := by
  intro runtime hr market state hstate
  obtain ⟨i, hi⟩ := List.mem_iff_getElem?.1 hr
  exact (h.inv i runtime hi).held market state hstate

theorem accountOnly_eq (h : AccountFrame endTsUs symbols rest runtimes runtimes') :
    runtimes'.map accountOnly = runtimes.map accountOnly :=
  map_accountOnly_eq (fun _ _ hs => hs.account) h.uncorrected

theorem event {event : TimelineEvent F} {next : List (TimelineSourceState F)}
    (h : AccountFrame endTsUs symbols (event :: rest) runtimes runtimes')
    (hstep : applyTimelineEvent runtimes event = .ok next) :
    ∃ next', applyTimelineEvent runtimes' event = .ok next' ∧
      AccountFrame endTsUs symbols rest next next' := by
  have hend := h.inWindow event List.mem_cons_self
  obtain ⟨next', hnext', hunc⟩ := modifyM_simulation h.uncorrected
    (fun s s' t hi hs ht => by
      obtain ⟨t', ht', hunc, -⟩ := (h.inv _ s hi).applyTo rfl hend hs ht
      exact ⟨t', ht', hunc⟩) hstep
  refine ⟨next', hnext', hunc, fun i t ht => ?_,
    fun e he => h.inWindow e (List.mem_cons_of_mem _ he)⟩
  obtain ⟨s, hs, hcase⟩ := getElem?_modifyM hstep ht
  by_cases hi : event.sourceIndex = i
  · rw [if_pos hi] at hcase
    subst hi
    obtain ⟨s', -, hunc'⟩ := forall₂_getElem? h.uncorrected.flip hs
    obtain ⟨t', -, -, hinv⟩ := (h.inv _ s hs).applyTo rfl hend hunc' hcase
    exact hinv
  · rw [if_neg hi] at hcase
    subst hcase
    refine (h.inv i t hs).weaken (fun e he => List.mem_cons_of_mem _ he) fun id ts hmem => ?_
    rcases List.mem_cons.1 hmem with heq | hmem
    · exact absurd (by rw [← heq]; rfl) hi
    · exact hmem

theorem events {before : List (TimelineEvent F)} {next : List (TimelineSourceState F)}
    (h : AccountFrame endTsUs symbols (before ++ rest) runtimes runtimes')
    (hstep : before.foldlM applyTimelineEvent runtimes = .ok next) :
    ∃ next', before.foldlM applyTimelineEvent runtimes' = .ok next' ∧
      AccountFrame endTsUs symbols rest next next' := by
  induction before generalizing runtimes runtimes' with
  | nil =>
    cases hstep
    exact ⟨runtimes', rfl, h⟩
  | cons event before ih =>
    rw [foldlM_cons] at hstep
    obtain ⟨mid, hmid, hstep⟩ := bind_eq_ok.1 hstep
    obtain ⟨mid', hmid', hframe⟩ := h.event hmid
    obtain ⟨next', hnext', hframe'⟩ := ih hframe hstep
    exact ⟨next', by rw [foldlM_cons, hmid', ok_bind]; exact hnext', hframe'⟩

theorem activate (h : AccountFrame endTsUs symbols rest runtimes runtimes') {tsUs : Int}
    (hend : tsUs ≤ endTsUs) :
    AccountFrame endTsUs symbols rest (runtimes.map fun runtime => runtime.activateSnapshotAt tsUs)
      (runtimes'.map fun runtime => runtime.activateSnapshotAt tsUs) := by
  refine ⟨?_, fun i runtime hi => ?_, h.inWindow⟩
  · rw [List.forall₂_map_left_iff, List.forall₂_map_right_iff]
    exact h.uncorrected.imp fun _ _ hs => hs.activateSnapshotAt tsUs
  · rw [List.getElem?_map] at hi
    obtain ⟨s, hs, rfl⟩ := Option.map_eq_some_iff.1 hi
    exact (h.inv i s hs).activateSnapshotAt hend

/-- The corrections due between two events. -/
theorem advance (h : AccountFrame endTsUs symbols rest runtimes runtimes') {tsUs : Int}
    {inclusive : Bool} (hend : cutoffOf tsUs inclusive ≤ endTsUs + 1)
    (hrest : ∀ event ∈ rest, cutoffOf tsUs inclusive ≤ event.tsUs)
    {next : List (TimelineSourceState F)}
    (hstep : runtimes.mapM (fun runtime => runtime.advanceAllocations tsUs inclusive) = .ok next) :
    ∃ next', runtimes'.mapM (fun runtime => runtime.advanceAllocations tsUs inclusive) = .ok next' ∧
      AccountFrame endTsUs symbols rest next next' := by
  have hone : ∀ (i : Nat) (s s' t : TimelineSourceState F), runtimes[i]? = some s → Uncorrected s s' →
      s.advanceAllocations tsUs inclusive = .ok t → Uncorrected t s' := by
    intro i s s' t hi hs ht
    rw [advanceAllocations_eq] at ht
    refine hs.advanceBefore (fun ts hts => (h.inv i s hi).settledBy (by omega) fun e he => ?_) ht
    have := hrest e he
    omega
  obtain ⟨next', hnext', hunc⟩ := mapM_simulation (S := Uncorrected)
    (g := fun runtime => runtime.advanceAllocations tsUs inclusive) h.uncorrected
    (fun s hs s' t hss ht => by
      obtain ⟨i, hi⟩ := List.mem_iff_getElem?.1 hs
      exact ⟨s', by rw [advanceAllocations_eq, hss.advanceBefore_eq], hone i s s' t hi hss ht⟩)
    hstep
  refine ⟨next', hnext', hunc, fun i t ht => ?_, h.inWindow⟩
  obtain ⟨s, hs, hst⟩ := forall₂_getElem? (mapM_eq_ok.1 hstep) ht
  obtain ⟨s', -, hunc'⟩ := forall₂_getElem? h.uncorrected.flip hs
  refine (h.inv i s hs).congr ?_
  rw [← (hone i s s' t hs hunc' hst).account, hunc'.account]

theorem totals_eq (h : AccountFrame endTsUs symbols rest runtimes runtimes') :
    timelineTotalsBySymbol runtimes' = timelineTotalsBySymbol runtimes := by
  rw [← timelineTotalsBySymbol_accountOnly runtimes', h.accountOnly_eq,
    timelineTotalsBySymbol_accountOnly]

theorem unheld (h : AccountFrame endTsUs symbols rest runtimes runtimes') :
    ∀ symbol, symbol ∉ symbols → (timelineTotalsBySymbol runtimes)[symbol]? = none :=
  fun _ hsymbol => getElem?_timelineTotalsBySymbol_of_unheld h.held hsymbol

theorem values_eq (h : AccountFrame endTsUs symbols rest runtimes runtimes')
    {selected selected' : List String}
    (hselected : ∀ symbol ∈ symbols, symbol ∈ selected ↔ symbol ∈ selected') :
    timelinePositionValues runtimes' selected' = timelinePositionValues runtimes selected := by
  rw [← timelinePositionValues_accountOnly runtimes', h.accountOnly_eq,
    timelinePositionValues_accountOnly]
  exact (timelinePositionValues_congr h.held hselected).symm

theorem valuesBySymbol_eq (h : AccountFrame endTsUs symbols rest runtimes runtimes') :
    timelinePositionValuesBySymbol runtimes' = timelinePositionValuesBySymbol runtimes := by
  rw [← timelinePositionValuesBySymbol_accountOnly runtimes', h.accountOnly_eq,
    timelinePositionValuesBySymbol_accountOnly]

theorem symbolReports_eq (h : AccountFrame endTsUs symbols rest runtimes runtimes') :
    timelineSymbolReports runtimes' = timelineSymbolReports runtimes := by
  rw [← timelineSymbolReports_accountOnly runtimes', h.accountOnly_eq,
    timelineSymbolReports_accountOnly]

end AccountFrame

/-! ## Rows of symbols without a ledger -/

theorem NavTotals.add_zero [ZeroLaws F] (totals : NavTotals F) :
    totals.add NavTotals.zero = totals := by
  unfold NavTotals.add NavTotals.zero
  simp only [ZeroLaws.add_zero, Nat.add_zero]

theorem NavTotals.zero_difference_zero [ZeroLaws F] :
    (NavTotals.zero : NavTotals F).difference NavTotals.zero = NavTotals.zero := by
  unfold NavTotals.difference NavTotals.cleaned NavTotals.zero
  simp only [ZeroLaws.zero_sub_zero, cleanZero_zero, Nat.sub_zero]

/-- Two views of one account: `view'` does not know the symbols that only
corrections name. -/
structure SameAccountView (symbols : OrdSet String) (view view' : TimelineView F) : Prop where
  end_eq : view'.endTsUs = view.endTsUs
  interval_eq : view'.tickIntervalUs = view.tickIntervalUs
  unpriced : view.prices = none ∧ view'.prices = none
  baselines : view'.baselines = view.baselines
  unheld : ∀ symbol, symbol ∉ symbols → view.baselines[symbol]? = none
  selected : view'.selectedSymbols = view.selectedSymbols.filter fun symbol =>
    symbols.contains symbol

section View

variable {symbols : OrdSet String} {view view' : TimelineView F}

omit [F64 F] in
theorem SameAccountView.mem_selected (h : SameAccountView symbols view view') :
    ∀ symbol ∈ symbols, symbol ∈ view.selectedSymbols ↔ symbol ∈ view'.selectedSymbols := by
  intro symbol hsymbol
  rw [h.selected, List.mem_filter]
  simp [hsymbol]

theorem SameAccountView.symbolDelta_eq (h : SameAccountView symbols view view')
    (current : OrdMap String (NavTotals F)) (symbol : String) :
    symbolDelta view' current symbol = symbolDelta view current symbol := by
  unfold symbolDelta
  rw [h.baselines]

theorem symbolDelta_of_unheld [ZeroLaws F] (h : SameAccountView symbols view view')
    {current : OrdMap String (NavTotals F)}
    (hcurrent : ∀ symbol, symbol ∉ symbols → current[symbol]? = none) {symbol : String}
    (hsymbol : symbol ∉ symbols) : symbolDelta view current symbol = NavTotals.zero := by
  unfold symbolDelta
  rw [hcurrent symbol hsymbol, h.unheld symbol hsymbol]
  exact NavTotals.zero_difference_zero

/-- The portfolio is the same over both selections. -/
theorem SameAccountView.portfolio_eq [ZeroLaws F] (h : SameAccountView symbols view view')
    {current : OrdMap String (NavTotals F)}
    (hcurrent : ∀ symbol, symbol ∉ symbols → current[symbol]? = none) :
    view'.selectedSymbols.foldl (fun totals symbol =>
        totals.add (symbolDelta view' current symbol)) NavTotals.zero =
      view.selectedSymbols.foldl (fun totals symbol =>
        totals.add (symbolDelta view current symbol)) NavTotals.zero := by
  rw [h.selected, List.foldl_filter]
  refine List.foldl_ext _ _ _ fun totals symbol _ => ?_
  rw [h.symbolDelta_eq]
  by_cases hsymbol : symbol ∈ symbols
  · rw [if_pos (by simpa using hsymbol)]
  · rw [if_neg (by simpa using hsymbol), symbolDelta_of_unheld h hcurrent hsymbol,
      NavTotals.add_zero]

end View

/-! ## Side by side -/

/-- Two runs that show the same account. -/
structure SameAccountRun (endTsUs : Int) (symbols : OrdSet String) (rest : List (TimelineEvent F))
    (run run' : TimelineRun F) : Prop where
  frame : AccountFrame endTsUs symbols rest run.runtimes run'.runtimes
  points : run'.points = run.points
  symbolPoints : ∀ symbol ∈ symbols, run'.pointsBySymbol[symbol]? = run.pointsBySymbol[symbol]?
  nextTick : run'.nextTickTsUs = run.nextTickTsUs

section Sample

variable {symbols : OrdSet String} {view view' : TimelineView F} {rest : List (TimelineEvent F)}
  {run run' next : TimelineRun F}

open TimelineSourceState

/-- A sample between two events; the first one leaves the corrections of its own
moment out. -/
theorem SameAccountRun.sample [ZeroLaws F] (hview : SameAccountView symbols view view')
    (h : SameAccountRun view.endTsUs symbols rest run run') {tsUs : Int}
    (hend : tsUs ≤ view.endTsUs)
    (hrest : ∀ event ∈ rest, cutoffOf tsUs (!run.points.isEmpty) ≤ event.tsUs)
    (hstep : pushTimelineSample view tsUs run = .ok next) :
    ∃ next', pushTimelineSample view' tsUs run' = .ok next' ∧
      SameAccountRun view.endTsUs symbols rest next next' := by
  unfold pushTimelineSample at hstep ⊢
  obtain ⟨advanced, hadvanced, hstep⟩ := bind_eq_ok.1 hstep
  have hcutoff : cutoffOf tsUs (!run.points.isEmpty) ≤ view.endTsUs + 1 := by
    unfold cutoffOf
    split
    · omega
    · omega
  obtain ⟨advanced', hadvanced', hframe⟩ := h.frame.advance hcutoff hrest hadvanced
  have hmarks : ∀ (v : TimelineView F) (l : List (TimelineSourceState F)), v.prices = none →
      l.mapM (applyMinuteMarks v.prices (insertAll ∅ v.selectedSymbols) tsUs) = .ok l := by
    intro v l hv
    rw [hv]
    exact mapM_ok l
  rw [hmarks view _ hview.unpriced.1, ok_bind] at hstep
  rw [h.points, hadvanced', ok_bind, hmarks view' _ hview.unpriced.2, ok_bind]
  cases hstep
  refine ⟨_, rfl, hframe, ?_, fun symbol hsymbol => ?_, h.nextTick⟩
  · rw [hframe.totals_eq, hframe.values_eq hview.mem_selected, hview.portfolio_eq hframe.unheld]
  · simp only [Std.ExtTreeMap.getElem?_map, h.symbolPoints symbol hsymbol, hframe.totals_eq,
      hframe.valuesBySymbol_eq, hview.symbolDelta_eq]

/-- The window without corrections is replayed side by side. -/
theorem sameAccount_simulation [ZeroLaws F] (hview : SameAccountView symbols view view') :
    WindowSimulation view view' fun rest run run' =>
      SameAccountRun view.endTsUs symbols rest run run' where
  end_eq := hview.end_eq
  interval_eq := hview.interval_eq
  nextTick _ _ _ h := h.nextTick
  setTick _ _ _ _ h := ⟨h.frame, h.points, h.symbolPoints, rfl⟩
  sample rest run run' tsUs next h hend hrest hstep := by
    refine h.sample hview hend (fun event hevent => ?_) hstep
    have := hrest event hevent
    unfold cutoffOf
    split
    · omega
    · omega
  event event rest run run' runtimes h hstep := by
    obtain ⟨runtimes', hruntimes', hframe⟩ := h.frame.event hstep
    exact ⟨runtimes', hruntimes', hframe, h.points, h.symbolPoints, h.nextTick⟩
  close rest run run' runtimes h hrest hstep := by
    rw [mapM_closeRuntime] at hstep ⊢
    obtain ⟨runtimes', hruntimes', hframe⟩ := (h.frame.activate le_rfl).advance le_rfl
      (fun event hevent => by
        have := hrest event hevent
        unfold cutoffOf
        simp only [if_true]
        omega) hstep
    exact ⟨runtimes', hruntimes', hframe, h.points, h.symbolPoints, h.nextTick⟩

end Sample

end CtaManager
