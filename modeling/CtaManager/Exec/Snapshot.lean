import CtaManager.Exec.Ownership
import CtaManager.Library.Keyed

/-!
The snapshot of the targets that Exec holds, read back from the store.

A published configuration reads back as the published quantities of its market
(`readStrategy_published`), and the markets of a source add up to all of them
(`loadExecTargetSnapshot_published`).
-/

namespace CtaManager.Exec

open Check Catalog

section

variable {F : Type} [F64 F]

/-- The quantity Exec is told: a clear target is zero. -/
def reportedQty (target : TargetPosition F) : F := if target.clear then 0 else target.qty

theorem decodeTarget_encodeTarget {target parsed : TargetPosition F}
    (h : decodeTarget (encodeTarget target) = .ok parsed) : parsed.qty = reportedQty target := by
  unfold encodeTarget reportedQty at *
  by_cases hc : target.clear = true
  · rw [if_pos hc] at h ⊢
    obtain ⟨zero, hzero, h⟩ := bind_eq_ok.1 h
    cases h
    obtain ⟨-, -, hzero⟩ := bind_eq_ok.1 hzero
    obtain ⟨-, -, hzero⟩ := bind_eq_ok.1 hzero
    cases hzero
    rfl
  · rw [if_neg hc] at h ⊢
    by_cases hf : F64.isFinite target.qty = true
    · rw [if_pos hf] at h
      obtain ⟨-, -, h⟩ := bind_eq_ok.1 h
      obtain ⟨-, -, h⟩ := bind_eq_ok.1 h
      cases h
      rfl
    · rw [if_neg hf] at h
      cases h

/-- A target that reads back: its numbers are finite and its signal is one of the five. -/
def Readable (target : TargetPosition F) : Prop :=
  F64.isFinite (reportedQty target) = true ∧ validateTargetSignal target.signal = .ok ()

theorem decodeTarget_of_readable {target : TargetPosition F} (h : Readable target) :
    ∃ parsed, decodeTarget (encodeTarget target) = .ok parsed := by
  obtain ⟨hfinite, hsignal⟩ := h
  unfold encodeTarget
  unfold reportedQty at hfinite
  by_cases hc : target.clear = true
  · rw [if_pos hc] at hfinite
    refine ⟨⟨true, 0, target.signal⟩, ?_⟩
    simp [decodeTarget, hc, TargetPosition.new, hfinite, hsignal, pure_eq_ok]
  · rw [if_neg hc] at hfinite
    refine ⟨⟨false, target.qty, target.signal⟩, ?_⟩
    simp [decodeTarget, hc, TargetPosition.new, hfinite, hsignal, pure_eq_ok]

variable [DecidableEq F] [Text.Unicode]

omit [F64 F] [DecidableEq F] in
theorem getElem?_ofMarket {V : Type} (venue : String) (values : OrdMap String V) (symbol : String) :
    (ofMarket venue values)[symbol]? =
      if symbolMarket venue symbol = .ok venue then values[symbol]? else none := by
  unfold ofMarket
  rw [Std.ExtTreeMap.getElem?_filter']
  by_cases h : symbolMarket venue symbol = .ok venue
  · rw [if_pos h, h]
    cases values[symbol]? with
    | none => rfl
    | some value => simp [Option.filter_some, Except.toOption]
  · have hne : (symbolMarket venue symbol).toOption ≠ some venue := fun ht =>
      h (toOption_eq_some.1 ht)
    rw [if_neg h]
    cases values[symbol]? with
    | none => rfl
    | some value => simpa [Option.filter_some] using hne

omit [DecidableEq F] [Text.Unicode] in
theorem reportedQty_runtimeTargets (p : Publication F) (symbol : String) :
    (p.runtimeTargets[symbol]?).map reportedQty = (p.targets[symbol]?).map reportedQty := by
  unfold Publication.runtimeTargets
  rw [Std.ExtTreeMap.getElem?_map, Option.map_map]
  cases p.targets[symbol]? with
  | none => rfl
  | some target =>
    show some (reportedQty (if _ then _ else _)) = _
    split
    · rfl
    · rfl

/-- What the publication says of the symbols of one market. -/
def Publication.reported (p : Publication F) (venue symbol : String) : Option F :=
  if symbolMarket venue symbol = .ok venue then (p.targets[symbol]?).map reportedQty else none

omit [DecidableEq F] in
theorem getElem?_ofMarket_runtimeTargets (p : Publication F) (venue symbol : String) :
    ((ofMarket venue p.runtimeTargets)[symbol]?).map reportedQty = p.reported venue symbol := by
  unfold Publication.reported
  rw [getElem?_ofMarket]
  split
  · exact reportedQty_runtimeTargets p symbol
  · rfl

omit [DecidableEq F] [Text.Unicode] in
theorem encodeTargets_eq_ok {targets : OrdMap String (TargetPosition F)}
    {stored : OrdMap String (StoredTarget F)} (h : encodeTargets targets = .ok stored)
    (symbol : String) : stored[symbol]? = (targets[symbol]?).map encodeTarget := by
  obtain ⟨-, -, h⟩ := bind_eq_ok.1 h
  cases h
  exact Std.ExtTreeMap.getElem?_map

/-- The reading of one stored target. -/
def readTarget (family strategyName : String) (entry : String × StoredTarget F) :
    Except String (String × F) := do
  validateExecSymbol entry.1
  let parsed ← (decodeTarget entry.2).mapError fun _ =>
    family ++ " Redis config has invalid target quantity: " ++ strategyName ++ "/" ++ entry.1
  return (entry.1, parsed.qty)

omit [DecidableEq F] in
theorem readTarget_eq_ok {family strategyName : String} {entry : String × StoredTarget F}
    {read : String × F} (h : readTarget family strategyName entry = .ok read) :
    read.1 = entry.1 ∧ ∃ parsed, decodeTarget entry.2 = .ok parsed ∧ read.2 = parsed.qty := by
  obtain ⟨-, -, h⟩ := bind_eq_ok.1 h
  obtain ⟨parsed, hparsed, h⟩ := bind_eq_ok.1 h
  cases h
  refine ⟨rfl, parsed, ?_, rfl⟩
  cases hd : decodeTarget entry.2 with
  | error e =>
    rw [hd] at hparsed
    cases hparsed
  | ok a =>
    rw [hd] at hparsed
    exact hparsed

omit [DecidableEq F] in
/-- The targets of a configuration, entry by entry. -/
theorem readTargets_eq_ok {family strategyName : String} {raw : OrdMap String (StoredTarget F)}
    {read : List (String × F)} (h : raw.toList.mapM (readTarget family strategyName) = .ok read)
    {quantity : String → Option F}
    (hquantity : ∀ symbol target parsed, raw[symbol]? = some target →
      decodeTarget target = .ok parsed → quantity symbol = some parsed.qty)
    (habsent : ∀ symbol, raw[symbol]? = none → quantity symbol = none) (symbol : String) :
    (read.foldl (fun targets entry => targets.insert entry.1 entry.2)
      (∅ : OrdMap String F))[symbol]? = quantity symbol := by
  have hall := mapM_eq_ok.1 h
  have hkeys : read.map Prod.fst = raw.toList.map Prod.fst := by
    clear h
    generalize raw.toList = entries at hall
    induction hall with
    | nil => rfl
    | cons hab _ ih => rw [List.map_cons, List.map_cons, ih, (readTarget_eq_ok hab).1]
  have hnodup : (read.map Prod.fst).Nodup := by
    rw [hkeys]
    exact OrdMap.nodup_keys_toList raw
  obtain ⟨hto, hfrom⟩ := mem_of_mapM_eq_ok h
  cases hraw : raw[symbol]? with
  | none =>
    rw [habsent symbol hraw]
    refine (Keyed.getElem?_collect_eq_none Prod.fst Prod.snd).2 fun entry hentry hsymbol => ?_
    obtain ⟨stored, hstored, hread⟩ := hfrom entry hentry
    have hmem : raw[symbol]? = some stored.2 := by
      rw [← hsymbol, (readTarget_eq_ok hread).1]
      exact OrdMap.mem_toList.1 hstored
    rw [hraw] at hmem
    cases hmem
  | some target =>
    obtain ⟨entry, hentry, hread⟩ := hto _ (OrdMap.mem_toList.2 hraw)
    obtain ⟨hsymbol, parsed, hparsed, hqty⟩ := readTarget_eq_ok hread
    rw [hquantity symbol target parsed hraw hparsed]
    exact (Keyed.getElem?_collect Prod.fst Prod.snd hnodup).2 ⟨entry, hentry, hsymbol, hqty⟩

/-- The published configuration, read back. -/
theorem readStrategy_published {p : Publication F} {updatedAtUs : Int} {venue : String}
    {store : Store F} (hpos : 0 < updatedAtUs) (h : p.Stored updatedAtUs venue store)
    {state : ExecStrategyTargetState F}
    (hread : readStrategy store (p.market venue) p.family p.strategyName = .ok state) :
    state.family = p.family.redisNamespace ∧ state.updatedAtUs = updatedAtUs ∧
      ∀ symbol, state.targets[symbol]? = p.reported venue symbol := by
  obtain ⟨targets, htargets, hstored⟩ := h
  unfold readStrategy at hread
  rw [hstored] at hread
  simp only [loadStoredConfig, decodeExecStrategyTargetState, Option.filter_some, hpos,
    decide_true, if_true] at hread
  obtain ⟨read, hread', hread⟩ := bind_eq_ok.1 hread
  cases hread
  refine ⟨rfl, rfl, fun symbol => readTargets_eq_ok hread' ?_ ?_ symbol⟩
  · intro symbol target parsed htarget hparsed
    rw [← getElem?_ofMarket_runtimeTargets]
    rw [encodeTargets_eq_ok htargets] at htarget
    obtain ⟨published, hpublished, rfl⟩ := Option.map_eq_some_iff.1 htarget
    rw [hpublished, Option.map_some, decodeTarget_encodeTarget hparsed]
  · intro symbol habsent
    rw [← getElem?_ofMarket_runtimeTargets]
    rw [encodeTargets_eq_ok htargets, Option.map_eq_none_iff] at habsent
    rw [habsent, Option.map_none]

/-- The published targets are such as the reading accepts. -/
def Publication.Canonical (p : Publication F) : Prop :=
  ∀ symbol target, p.targets[(symbol : String)]? = some target →
    validateExecSymbol symbol = .ok () ∧ Readable target

omit [DecidableEq F] [Text.Unicode] in
theorem readable_runtimeTargets {p : Publication F}
    (h : ∀ (symbol : String) target, p.targets[symbol]? = some target → Readable target)
    {symbol : String} {target : TargetPosition F} (ht : p.runtimeTargets[symbol]? = some target) :
    Readable target := by
  unfold Publication.runtimeTargets at ht
  rw [Std.ExtTreeMap.getElem?_map] at ht
  obtain ⟨published, hpublished, rfl⟩ := Option.map_eq_some_iff.1 ht
  obtain ⟨hfinite, hsignal⟩ := h symbol published hpublished
  split
  · exact ⟨hfinite, hsignal⟩
  · exact ⟨hfinite, rfl⟩

omit [DecidableEq F] in
theorem Publication.Canonical.runtimeTargets {p : Publication F} (h : p.Canonical)
    {symbol : String} {target : TargetPosition F} (ht : p.runtimeTargets[symbol]? = some target) :
    validateExecSymbol symbol = .ok () ∧ Readable target := by
  have hreadable := readable_runtimeTargets (fun symbol target hmem => (h symbol target hmem).2) ht
  unfold Publication.runtimeTargets at ht
  rw [Std.ExtTreeMap.getElem?_map] at ht
  obtain ⟨published, hpublished, -⟩ := Option.map_eq_some_iff.1 ht
  exact ⟨(h symbol published hpublished).1, hreadable⟩

theorem exists_readStrategy_published {p : Publication F} {updatedAtUs : Int} {venue : String}
    {store : Store F} (hpos : 0 < updatedAtUs) (h : p.Stored updatedAtUs venue store)
    (hc : p.Canonical) :
    ∃ state, readStrategy store (p.market venue) p.family p.strategyName = .ok state := by
  obtain ⟨targets, htargets, hstored⟩ := h
  have hread : ∃ read, targets.toList.mapM
      (readTarget p.family.redisNamespace p.strategyName) = .ok read := by
    refine exists_mapM_eq_ok fun entry hentry => ?_
    have hentry' := OrdMap.mem_toList.1 hentry
    rw [encodeTargets_eq_ok htargets, getElem?_ofMarket] at hentry'
    obtain ⟨target, htarget, hencode⟩ := Option.map_eq_some_iff.1 hentry'
    split at htarget
    · obtain ⟨hsymbol, hreadable⟩ := hc.runtimeTargets htarget
      obtain ⟨parsed, hparsed⟩ := decodeTarget_of_readable hreadable
      refine ⟨(entry.1, parsed.qty), ?_⟩
      rw [hencode] at hparsed
      simp [readTarget, hsymbol, hparsed, Except.mapError, pure_eq_ok]
    · cases htarget
  obtain ⟨read, hread⟩ := hread
  refine ⟨⟨p.family.redisNamespace, updatedAtUs,
    read.foldl (fun targets entry => targets.insert entry.1 entry.2) ∅⟩, ?_⟩
  unfold readStrategy
  rw [hstored]
  simp only [loadStoredConfig, decodeExecStrategyTargetState, Option.filter_some, hpos,
    decide_true, if_true]
  refine bind_eq_ok.2 ⟨read, hread, rfl⟩

omit [F64 F] [DecidableEq F] [Text.Unicode] in
/-- The targets of one more market beside those of the markets before. -/
theorem insertTargets_eq_ok {name : String} {targets existing merged : OrdMap String F}
    (h : targets.toList.foldlM (insertTarget name) existing = .ok merged) (symbol : String) :
    merged[symbol]? = (targets[symbol]?).or existing[symbol]? := by
  have hfold : ∀ (entries : List (String × F)) (acc : OrdMap String F),
      entries.foldlM (insertTarget name) acc = .ok merged →
        merged = entries.foldl (fun m e => m.insert e.1 e.2) acc := by
    intro entries
    induction entries with
    | nil =>
      intro acc h
      cases h
      rfl
    | cons entry entries ih =>
      intro acc h
      rw [foldlM_cons] at h
      obtain ⟨next, hnext, h⟩ := bind_eq_ok.1 h
      obtain ⟨-, -, hnext⟩ := bind_eq_ok.1 hnext
      cases hnext
      exact ih _ h
  rw [hfold _ _ h]
  cases hs : targets[symbol]? with
  | none =>
    refine OrdMap.getElem?_foldl_insert_of_forall_ne _ _ _ fun value hvalue => ?_
    rw [OrdMap.mem_toList, hs] at hvalue
    cases hvalue
  | some value =>
    refine OrdMap.getElem?_foldl_insert _ _ _ _ (OrdMap.mem_toList.2 hs) fun value' hvalue' => ?_
    rw [OrdMap.mem_toList, hs] at hvalue'
    exact (Option.some.inj hvalue').symm

omit [F64 F] [DecidableEq F] [Text.Unicode] in
theorem exists_insertTargets {name : String} {targets existing : OrdMap String F}
    (h : ∀ symbol ∈ targets, symbol ∉ existing) :
    ∃ merged, targets.toList.foldlM (insertTarget name) existing = .ok merged := by
  have hfold : ∀ (entries : List (String × F)) (acc : OrdMap String F),
      (entries.map Prod.fst).Nodup → (∀ entry ∈ entries, entry.1 ∉ acc) →
        ∃ merged, entries.foldlM (insertTarget name) acc = .ok merged := by
    intro entries
    induction entries with
    | nil => exact fun acc _ _ => ⟨acc, rfl⟩
    | cons entry entries ih =>
      intro acc hnodup hacc
      rw [List.map_cons, List.nodup_cons] at hnodup
      obtain ⟨merged, hmerged⟩ := ih (acc.insert entry.1 entry.2) hnodup.2 fun other hother hmem => by
        rcases Std.ExtTreeMap.mem_insert.1 hmem with heq | hmem
        · exact hnodup.1 (Std.compare_eq_iff_eq.1 heq ▸ List.mem_map_of_mem hother)
        · exact hacc other (List.mem_cons_of_mem _ hother) hmem
      refine ⟨merged, ?_⟩
      have hfree : acc.contains entry.1 = false := by
        rw [Bool.eq_false_iff, ne_eq, Std.ExtTreeMap.contains_iff_mem]
        exact hacc entry List.mem_cons_self
      rw [foldlM_cons]
      simp only [insertTarget, hfree, Bool.not_false, ensure_true, ok_bind]
      exact hmerged
  refine hfold _ _ (OrdMap.nodup_keys_toList targets) fun entry hentry => h _ ?_
  rw [Std.ExtTreeMap.mem_iff_isSome_getElem?, OrdMap.mem_toList.1 hentry]
  rfl

omit [DecidableEq F] in
theorem loadStrategy_eq_ok {store : Store F} {market : Market} {family : ExecutionFamily}
    {snapshot snapshot' : ExecTargetSnapshot F} {name : String}
    (h : loadStrategy store market family snapshot name = .ok snapshot') :
    ∃ strategy merged, readStrategy store market family name = .ok strategy ∧
      mergeInto snapshot.strategies[name]? strategy name = .ok merged ∧
      snapshot'.strategies = snapshot.strategies.insert name merged := by
  obtain ⟨strategy, hread, h⟩ := bind_eq_ok.1 h
  obtain ⟨merged, hmerged, h⟩ := bind_eq_ok.1 h
  cases h
  exact ⟨strategy, merged, hread, hmerged, rfl⟩

omit [DecidableEq F] in
/-- What one index adds of a strategy. -/
theorem loadFamily_eq_ok {store : Store F} {index : Market × ExecutionFamily}
    {snapshot snapshot' : ExecTargetSnapshot F}
    (h : loadFamily store snapshot index = .ok snapshot') (name : String) :
    (¬Indexed store index.1 index.2 name →
        snapshot'.strategies[name]? = snapshot.strategies[name]?) ∧
      (Indexed store index.1 index.2 name → ∃ strategy merged,
        readStrategy store index.1 index.2 name = .ok strategy ∧
        mergeInto snapshot.strategies[name]? strategy name = .ok merged ∧
        snapshot'.strategies[name]? = some merged) := by
  obtain ⟨names, hnames, h⟩ := bind_eq_ok.1 h
  have hnodup : (names.map id).Nodup := by
    rw [List.map_id]
    exact nodup_of_decodeStrategyNames hnames
  obtain ⟨-, hout, hin⟩ := Keyed.foldlM_keyed id
    (fun (s : ExecTargetSnapshot F) k => s.strategies[k]?) (fun _ => True) hnodup
    (fun _ _ _ _ _ _ => trivial)
    (fun a _ s s' k _ hstep hk => by
      obtain ⟨_, merged, -, -, hs'⟩ := loadStrategy_eq_ok hstep
      rw [hs', OrdMap.getElem?_insert_of_key, if_neg fun heq => hk heq.symm])
    trivial h
  rw [List.map_id] at hout
  constructor
  · intro hnot
    exact hout name fun hmem => hnot ((mem_strategyNames hnames name).1 hmem)
  · intro hindexed
    obtain ⟨t, t', -, hstep, hbefore, hafter⟩ :=
      hin name ((mem_strategyNames hnames name).2 hindexed)
    obtain ⟨strategy, merged, hread, hmerged, ht'⟩ := loadStrategy_eq_ok hstep
    refine ⟨strategy, merged, hread, ?_, ?_⟩
    · exact hbefore ▸ hmerged
    · refine hafter.trans ?_
      show t'.strategies[name]? = some merged
      rw [ht', OrdMap.getElem?_insert_of_key, if_pos rfl]

omit [DecidableEq F] in
/-- The two indexes of one market, when the strategy is in the one of its family alone. -/
theorem loadVenue_eq_ok {store : Store F} {market : Market} {family : ExecutionFamily}
    {snapshot snapshot' : ExecTargetSnapshot F} {name : String}
    (h : [(market, ExecutionFamily.batchExec), (market, .chaseExec)].foldlM (loadFamily store)
      snapshot = .ok snapshot')
    (hown : Indexed store market family name) (hopp : ¬Indexed store market family.opposite name) :
    ∃ strategy merged, readStrategy store market family name = .ok strategy ∧
      mergeInto snapshot.strategies[name]? strategy name = .ok merged ∧
      snapshot'.strategies[name]? = some merged := by
  rw [foldlM_cons] at h
  obtain ⟨middle, hbatch, h⟩ := bind_eq_ok.1 h
  rw [foldlM_cons] at h
  obtain ⟨last, hchase, h⟩ := bind_eq_ok.1 h
  cases h
  cases family with
  | batchExec =>
    obtain ⟨strategy, merged, hread, hmerged, hmiddle⟩ := (loadFamily_eq_ok hbatch name).2 hown
    refine ⟨strategy, merged, hread, hmerged, ?_⟩
    rw [(loadFamily_eq_ok hchase name).1 hopp, hmiddle]
  | chaseExec =>
    obtain ⟨strategy, merged, hread, hmerged, hlast⟩ := (loadFamily_eq_ok hchase name).2 hown
    refine ⟨strategy, merged, hread, ?_, hlast⟩
    rw [(loadFamily_eq_ok hbatch name).1 hopp] at hmerged
    exact hmerged

/-- What the markets read so far say of the published strategy. -/
def Publication.Read (p : Publication F) (updatedAtUs : Int) (venues : List String)
    (state : ExecStrategyTargetState F) : Prop :=
  state.family = p.family.redisNamespace ∧ state.updatedAtUs = updatedAtUs ∧
    ∀ symbol, state.targets[symbol]? =
      if ∃ venue ∈ venues, symbolMarket venue symbol = .ok venue then
        (p.targets[symbol]?).map reportedQty
      else none

omit [DecidableEq F] in
/-- One more market. -/
theorem Publication.Read.merge {p : Publication F} {updatedAtUs : Int} {venues : List String}
    {existing strategy merged : ExecStrategyTargetState F} {venue : String}
    (he : p.Read updatedAtUs venues existing)
    (hs : strategy.updatedAtUs = updatedAtUs ∧
      ∀ symbol, strategy.targets[symbol]? = p.reported venue symbol)
    (h : existing.merge strategy p.strategyName = .ok merged) :
    p.Read updatedAtUs (venues ++ [venue]) merged := by
  obtain ⟨hfamily, hversion, htargets⟩ := he
  obtain ⟨-, -, h⟩ := bind_eq_ok.1 h
  obtain ⟨targets, hinsert, h⟩ := bind_eq_ok.1 h
  cases h
  refine ⟨hfamily, ?_, fun symbol => ?_⟩
  · show min existing.updatedAtUs strategy.updatedAtUs = updatedAtUs
    rw [hversion, hs.1, min_self]
  · show targets[symbol]? = _
    rw [insertTargets_eq_ok hinsert, htargets, hs.2]
    unfold Publication.reported
    by_cases hv : symbolMarket venue symbol = .ok venue
    · have hin : ∃ other ∈ venues ++ [venue], symbolMarket other symbol = .ok other :=
        ⟨venue, List.mem_append_right _ (List.mem_singleton_self _), hv⟩
      rw [if_pos hv, if_pos hin]
      cases (p.targets[symbol]?).map reportedQty with
      | none => simp
      | some qty => rfl
    · rw [if_neg hv, Option.none_or]
      refine if_congr ⟨?_, ?_⟩ rfl rfl
      · rintro ⟨other, hother, hsymbol⟩
        exact ⟨other, List.mem_append_left _ hother, hsymbol⟩
      · rintro ⟨other, hother, hsymbol⟩
        rcases List.mem_append.1 hother with hother | hother
        · exact ⟨other, hother, hsymbol⟩
        · rw [List.mem_singleton.1 hother] at hsymbol
          exact absurd hsymbol hv

/-- The markets one after the other. -/
theorem loadVenues_published {p : Publication F} {updatedAtUs : Int} {store : Store F}
    (hpos : 0 < updatedAtUs) {venues : List String}
    (hstored : ∀ venue ∈ venues, p.Stored updatedAtUs venue store)
    (howned : ∀ venue ∈ venues, Indexed store (p.market venue) p.family p.strategyName ∧
      ¬Indexed store (p.market venue) p.family.opposite p.strategyName)
    {before : List String} {snapshot snapshot' : ExecTargetSnapshot F}
    (hbefore : ∃ state, snapshot.strategies[p.strategyName]? = some state ∧
      p.Read updatedAtUs before state)
    (h : (indexes p.source venues).foldlM (loadFamily store) snapshot = .ok snapshot') :
    ∃ state, snapshot'.strategies[p.strategyName]? = some state ∧
      p.Read updatedAtUs (before ++ venues) state := by
  induction venues generalizing before snapshot with
  | nil =>
    cases h
    rw [List.append_nil]
    exact hbefore
  | cons venue venues ih =>
    obtain ⟨existing, hexisting, hread⟩ := hbefore
    rw [indexes, List.flatMap_cons, foldlM_append] at h
    obtain ⟨middle, hvenue, h⟩ := bind_eq_ok.1 h
    obtain ⟨hown, hopp⟩ := howned venue List.mem_cons_self
    obtain ⟨strategy, merged, hstrategy, hmerged, hmiddle⟩ :=
      loadVenue_eq_ok hvenue hown hopp
    have hpublished := (readStrategy_published hpos (hstored venue List.mem_cons_self) hstrategy).2
    rw [hexisting] at hmerged
    have hnext := hread.merge hpublished hmerged
    obtain ⟨state, hstate, hfinal⟩ := ih (fun v hv => hstored v (List.mem_cons_of_mem _ hv))
      (fun v hv => howned v (List.mem_cons_of_mem _ hv)) ⟨merged, hmiddle, hnext⟩ h
    refine ⟨state, hstate, ?_⟩
    rw [List.append_assoc] at hfinal
    exact hfinal

/-- A published strategy that its family owns in every market of the source reads back as
it was published: its family, its version and exactly its quantities. -/
theorem loadExecTargetSnapshot_published {p : Publication F} {updatedAtUs : Int} {store : Store F}
    (hpos : 0 < updatedAtUs) {venues : List String} (hcheck : p.check = .ok venues)
    (hstored : ∀ venue ∈ venues, p.Stored updatedAtUs venue store)
    (howned : ∀ venue ∈ venues, Indexed store (p.market venue) p.family p.strategyName ∧
      ¬Indexed store (p.market venue) p.family.opposite p.strategyName)
    {snapshot : ExecTargetSnapshot F}
    (h : loadExecTargetSnapshot store p.source = .ok snapshot) :
    snapshot.strategies[p.strategyName]? = some
      ⟨p.family.redisNamespace, updatedAtUs, p.targets.map fun _ target => reportedQty target⟩ := by
  obtain ⟨hmarkets, hsymbols⟩ := Publication.check_eq_ok hcheck
  unfold loadExecTargetSnapshot at h
  rw [hmarkets, ok_bind] at h
  have hne : ∃ venue rest, venues = venue :: rest := by
    rcases markets_eq_ok hmarkets with rfl | ⟨cash, rfl, -⟩
    · exact ⟨_, _, rfl⟩
    · exact ⟨_, _, rfl⟩
  obtain ⟨venue, rest, rfl⟩ := hne
  rw [indexes, List.flatMap_cons, foldlM_append] at h
  obtain ⟨first, hfirst, h⟩ := bind_eq_ok.1 h
  obtain ⟨hown, hopp⟩ := howned venue List.mem_cons_self
  obtain ⟨strategy, merged, hstrategy, hmerged, hafter⟩ :=
    loadVenue_eq_ok hfirst hown hopp
  obtain ⟨hfamily, hversion, htargets⟩ :=
    readStrategy_published hpos (hstored venue List.mem_cons_self) hstrategy
  have hempty : (∅ : OrdMap String (ExecStrategyTargetState F))[p.strategyName]? = none :=
    Std.ExtTreeMap.getElem?_empty
  rw [hempty] at hmerged
  cases hmerged
  have hread : p.Read updatedAtUs [venue] strategy := by
    refine ⟨hfamily, hversion, fun symbol => ?_⟩
    rw [htargets]
    refine if_congr ⟨fun hs => ⟨venue, List.mem_singleton_self _, hs⟩, ?_⟩ rfl rfl
    rintro ⟨other, hother, hsymbol⟩
    exact List.mem_singleton.1 hother ▸ hsymbol
  obtain ⟨state, hstate, hsFamily, hsVersion, hsTargets⟩ := loadVenues_published hpos
    (fun v hv => hstored v (List.mem_cons_of_mem _ hv))
    (fun v hv => howned v (List.mem_cons_of_mem _ hv)) ⟨strategy, hafter, hread⟩ h
  have hall : state.targets = p.targets.map fun _ target => reportedQty target := by
    refine Std.ExtTreeMap.ext_getElem? fun symbol => ?_
    rw [hsTargets, Std.ExtTreeMap.getElem?_map]
    cases htarget : p.targets[symbol]? with
    | none => simp
    | some target =>
      -- the market of the symbol is one of those read
      have hmem : symbol ∈ p.targets := by
        rw [Std.ExtTreeMap.mem_iff_isSome_getElem?, htarget]
        rfl
      obtain ⟨market, hmarket, hsymbol⟩ := hsymbols symbol hmem
      exact if_pos ⟨market, hmarket, (symbolMarket_scoped hmarkets hsymbol hmarket).2 rfl⟩
  rw [hstate, ← hsFamily, ← hsVersion, ← hall]

omit [DecidableEq F] in
theorem readStrategy_family {store : Store F} {market : Market} {family : ExecutionFamily}
    {name : String} {state : ExecStrategyTargetState F}
    (h : readStrategy store market family name = .ok state) :
    state.family = family.redisNamespace := by
  unfold readStrategy at h
  split at h
  · cases h
  · split at h
    · unfold decodeExecStrategyTargetState at h
      split at h
      · cases h
      · split at h
        · cases h
        · obtain ⟨_, -, h⟩ := bind_eq_ok.1 h
          cases h
          rfl
    · cases h

/-- A strategy in an index. -/
abbrev IndexEntry := (Market × ExecutionFamily) × String

def loadEntry (store : Store F) (snapshot : ExecTargetSnapshot F) (e : IndexEntry) :
    Except String (ExecTargetSnapshot F) :=
  loadStrategy store e.1.1 e.1.2 snapshot e.2

/-- Two entries of one strategy are of one family and share no symbol. -/
def Agree (store : Store F) (e e' : IndexEntry) : Prop :=
  e.1.2 = e'.1.2 ∧ ∀ state state', readStrategy store e.1.1 e.1.2 e.2 = .ok state →
    readStrategy store e'.1.1 e'.1.2 e'.2 = .ok state' →
      ∀ symbol ∈ state.targets, symbol ∉ state'.targets

/-- What a snapshot holds comes from the entries read before. -/
def From (store : Store F) (before : List IndexEntry) (snapshot : ExecTargetSnapshot F) : Prop :=
  ∀ name existing, snapshot.strategies[(name : String)]? = some existing →
    (∃ e ∈ before, e.2 = name ∧ existing.family = e.1.2.redisNamespace) ∧
      ∀ symbol ∈ existing.targets, ∃ e ∈ before, e.2 = name ∧
        ∃ state, readStrategy store e.1.1 e.1.2 e.2 = .ok state ∧ symbol ∈ state.targets

omit [DecidableEq F] in
/-- One more entry, which agrees with those read before. -/
theorem exists_loadEntry {store : Store F} {before : List IndexEntry} {e : IndexEntry}
    (hread : ∃ state, readStrategy store e.1.1 e.1.2 e.2 = .ok state)
    (hagree : ∀ e' ∈ before, e.2 = e'.2 → Agree store e e') {snapshot : ExecTargetSnapshot F}
    (hfrom : From store before snapshot) :
    ∃ snapshot', loadEntry store snapshot e = .ok snapshot' ∧ From store (before ++ [e]) snapshot' := by
  obtain ⟨strategy, hstrategy⟩ := hread
  have hlast : e ∈ before ++ [e] := List.mem_append_right _ (List.mem_singleton_self _)
  have hmerged : ∃ merged, mergeInto snapshot.strategies[e.2]? strategy e.2 = .ok merged ∧
      merged.family = e.1.2.redisNamespace ∧ ∀ symbol ∈ merged.targets, ∃ e' ∈ before ++ [e],
        e'.2 = e.2 ∧ ∃ state, readStrategy store e'.1.1 e'.1.2 e'.2 = .ok state ∧
          symbol ∈ state.targets := by
    cases hexisting : snapshot.strategies[e.2]? with
    | none =>
      exact ⟨strategy, rfl, readStrategy_family hstrategy,
        fun symbol hsymbol => ⟨e, hlast, rfl, strategy, hstrategy, hsymbol⟩⟩
    | some existing =>
      obtain ⟨⟨e', he', hname, hfamily⟩, htargets⟩ := hfrom e.2 existing hexisting
      have hsame : existing.family = strategy.family := by
        rw [hfamily, readStrategy_family hstrategy, (hagree e' he' hname.symm).1]
      have hdisjoint : ∀ symbol ∈ strategy.targets, symbol ∉ existing.targets := by
        intro symbol hs hx
        obtain ⟨e'', he'', hname'', state, hstate, hmem⟩ := htargets symbol hx
        exact (hagree e'' he'' hname''.symm).2 strategy state hstrategy hstate symbol hs hmem
      obtain ⟨targets, hinsert⟩ : ∃ merged,
          strategy.targets.toList.foldlM (insertTarget e.2) existing.targets = .ok merged :=
        exists_insertTargets hdisjoint
      refine ⟨{ existing with
        updatedAtUs := min existing.updatedAtUs strategy.updatedAtUs, targets }, ?_, ?_, ?_⟩
      · show existing.merge strategy e.2 = _
        unfold ExecStrategyTargetState.merge
        rw [hsame, beq_self_eq_true, ensure_true, ok_bind, hinsert]
        rfl
      · exact hsame.trans (readStrategy_family hstrategy)
      · intro symbol hsymbol
        have hor := insertTargets_eq_ok hinsert symbol
        rw [Std.ExtTreeMap.mem_iff_isSome_getElem?] at hsymbol
        have hsome : (targets[symbol]?).isSome = true := hsymbol
        cases hs : strategy.targets[symbol]? with
        | some qty =>
          refine ⟨e, hlast, rfl, strategy, hstrategy, ?_⟩
          rw [Std.ExtTreeMap.mem_iff_isSome_getElem?, hs]
          rfl
        | none =>
          rw [hor, hs, Option.none_or] at hsome
          obtain ⟨e'', he'', hname'', hstate⟩ :=
            htargets symbol (Std.ExtTreeMap.mem_iff_isSome_getElem?.2 hsome)
          exact ⟨e'', List.mem_append_left _ he'', hname'', hstate⟩
  obtain ⟨merged, hmerge, hfamily, htargets⟩ := hmerged
  refine ⟨_, bind_eq_ok.2 ⟨strategy, hstrategy, bind_eq_ok.2 ⟨merged, hmerge, rfl⟩⟩, ?_⟩
  intro name existing hexisting
  rw [OrdMap.getElem?_insert_of_key] at hexisting
  by_cases hname : e.2 = name
  · rw [if_pos hname, Option.some.injEq] at hexisting
    subst hexisting
    subst hname
    exact ⟨⟨e, hlast, rfl, hfamily⟩, htargets⟩
  · rw [if_neg hname] at hexisting
    obtain ⟨⟨e', he', hname', hfamily'⟩, htargets'⟩ := hfrom name existing hexisting
    refine ⟨⟨e', List.mem_append_left _ he', hname', hfamily'⟩, fun symbol hsymbol => ?_⟩
    obtain ⟨e'', he'', hrest⟩ := htargets' symbol hsymbol
    exact ⟨e'', List.mem_append_left _ he'', hrest⟩

omit [DecidableEq F] in
theorem exists_loadEntries {store : Store F} {entries : List IndexEntry} (hnodup : entries.Nodup)
    (hread : ∀ e ∈ entries, ∃ state, readStrategy store e.1.1 e.1.2 e.2 = .ok state)
    (hagree : ∀ e ∈ entries, ∀ e' ∈ entries, e ≠ e' → e.2 = e'.2 → Agree store e e') :
    ∃ snapshot, entries.foldlM (loadEntry store) ⟨∅, ∅⟩ = .ok snapshot ∧
      From store entries snapshot := by
  induction entries using List.reverseRecOn with
  | nil =>
    refine ⟨⟨∅, ∅⟩, rfl, fun name existing h => ?_⟩
    have hempty : (∅ : OrdMap String (ExecStrategyTargetState F))[name]? = none :=
      Std.ExtTreeMap.getElem?_empty
    rw [hempty] at h
    cases h
  | append_singleton before e ih =>
    rw [List.nodup_append] at hnodup
    obtain ⟨snapshot, hbefore, hfrom⟩ := ih hnodup.1
      (fun e' he' => hread e' (List.mem_append_left _ he'))
      (fun e' he' e'' he'' => hagree e' (List.mem_append_left _ he') e''
        (List.mem_append_left _ he''))
    have hlast : e ∈ before ++ [e] := List.mem_append_right _ (List.mem_singleton_self _)
    obtain ⟨snapshot', hstep, hfrom'⟩ := exists_loadEntry (hread e hlast)
      (fun e' he' hname => hagree e hlast e' (List.mem_append_left _ he')
        (fun heq => hnodup.2.2 e' he' e (List.mem_singleton_self _) heq.symm) hname) hfrom
    refine ⟨snapshot', ?_, hfrom'⟩
    rw [foldlM_append, hbefore, ok_bind, foldlM_cons, hstep, ok_bind]
    rfl

/-- Every other strategy in the indexes of the source can be read, in one family and
without a symbol in two markets. -/
structure OthersReadable (store : Store F) (source : SourceConfig) (venues : List String)
    (name : String) : Prop where
  decoded : ∀ index ∈ indexes source venues, ∃ names,
    decodeStrategyNames (store (.strategyNames index.1 index.2)) "strategy index" = .ok names
  read : ∀ index ∈ indexes source venues, ∀ other ≠ name, Indexed store index.1 index.2 other →
    ∃ state, readStrategy store index.1 index.2 other = .ok state
  agree : ∀ index ∈ indexes source venues, ∀ index' ∈ indexes source venues, index ≠ index' →
    ∀ other ≠ name, Indexed store index.1 index.2 other → Indexed store index'.1 index'.2 other →
      Agree store (index, other) (index', other)

omit [Text.Unicode] in
theorem mem_indexes {source : SourceConfig} {venues : List String}
    {index : Market × ExecutionFamily} :
    index ∈ indexes source venues ↔ ∃ venue ∈ venues, index.1 = ⟨source.id, venue⟩ := by
  obtain ⟨market, family⟩ := index
  unfold indexes
  rw [List.mem_flatMap]
  refine exists_congr fun venue => and_congr_right fun _ => ?_
  cases family <;> simp

omit [Text.Unicode] in
theorem indexes_nodup {source : SourceConfig} {venues : List String} (h : venues.Nodup) :
    (indexes source venues).Nodup := by
  unfold indexes
  rw [List.nodup_flatMap]
  refine ⟨fun venue _ => by simp, h.imp fun hne => ?_⟩
  simp [Function.onFun, hne.symm]

/-- Two markets of a published strategy share no symbol. -/
theorem agree_published {p : Publication F} {updatedAtUs : Int} {store : Store F}
    (hpos : 0 < updatedAtUs) {venues : List String} (hcheck : p.check = .ok venues)
    (hstored : ∀ venue ∈ venues, p.Stored updatedAtUs venue store) {venue venue' : String}
    (hv : venue ∈ venues) (hv' : venue' ∈ venues) (hne : venue ≠ venue') :
    Agree store ((p.market venue, p.family), p.strategyName)
      ((p.market venue', p.family), p.strategyName) := by
  obtain ⟨hmarkets, hsymbols⟩ := Publication.check_eq_ok hcheck
  refine ⟨rfl, fun state state' hstate hstate' symbol hsymbol hsymbol' => ?_⟩
  have hroute : ∀ (v : String) (s : ExecStrategyTargetState F), v ∈ venues →
      readStrategy store (p.market v) p.family p.strategyName = .ok s → symbol ∈ s.targets →
        symbolMarket p.source.venue symbol = .ok v := by
    intro v s hv hs hmem
    have htarget := (readStrategy_published hpos (hstored v hv) hs).2.2 symbol
    rw [Std.ExtTreeMap.mem_iff_isSome_getElem?, htarget] at hmem
    unfold Publication.reported at hmem
    split at hmem
    · next hscoped =>
      have hpublished : symbol ∈ p.targets := by
        rw [Std.ExtTreeMap.mem_iff_isSome_getElem?]
        rw [Option.isSome_map] at hmem
        exact hmem
      obtain ⟨market, -, hmarket⟩ := hsymbols symbol hpublished
      rw [hmarket, (symbolMarket_scoped hmarkets hmarket hv).1 hscoped]
    · cases hmem
  have h := hroute venue state hv hstate hsymbol
  rw [hroute venue' state' hv' hstate' hsymbol', Except.ok.injEq] at h
  exact hne h.symm

/-- The reading succeeds when it can read what was published and all the others. -/
theorem exists_loadExecTargetSnapshot {p : Publication F} {updatedAtUs : Int} {store : Store F}
    (hpos : 0 < updatedAtUs) {venues : List String} (hcheck : p.check = .ok venues)
    (hstored : ∀ venue ∈ venues, p.Stored updatedAtUs venue store)
    (howned : ∀ venue ∈ venues, Indexed store (p.market venue) p.family p.strategyName ∧
      ¬Indexed store (p.market venue) p.family.opposite p.strategyName)
    (hcanonical : p.Canonical) (hothers : OthersReadable store p.source venues p.strategyName) :
    ∃ snapshot, loadExecTargetSnapshot store p.source = .ok snapshot := by
  have hmarkets := (Publication.check_eq_ok hcheck).1
  -- the names of each index, as they are decoded
  let names (index : Market × ExecutionFamily) : List String :=
    (decodeStrategyNames (store (.strategyNames index.1 index.2)) "strategy index").toOption.getD []
  have hnames : ∀ index ∈ indexes p.source venues,
      decodeStrategyNames (store (.strategyNames index.1 index.2)) "strategy index" =
        .ok (names index) := by
    intro index hindex
    obtain ⟨decoded, hdecoded⟩ := hothers.decoded index hindex
    show _ = Except.ok ((decodeStrategyNames _ _).toOption.getD [])
    rw [hdecoded]
    rfl
  let entries := (indexes p.source venues).flatMap fun index =>
    (names index).map fun name => (index, name)
  have hentry : ∀ e ∈ entries, e.1 ∈ indexes p.source venues ∧ Indexed store e.1.1 e.1.2 e.2 := by
    intro e he
    obtain ⟨index, hindex, he⟩ := List.mem_flatMap.1 he
    obtain ⟨name, hname, rfl⟩ := List.mem_map.1 he
    exact ⟨hindex, (mem_strategyNames (hnames index hindex) name).1 hname⟩
  have hnodup : entries.Nodup := by
    refine List.nodup_flatMap.2 ⟨fun index hindex => ?_,
      (indexes_nodup (markets_nodup hmarkets)).imp fun hne => ?_⟩
    · refine (nodup_of_decodeStrategyNames (hnames index hindex)).map fun a b hab => ?_
      exact (Prod.mk.inj hab).2
    · intro e he he'
      obtain ⟨name, -, rfl⟩ := List.mem_map.1 he
      obtain ⟨name', -, heq⟩ := List.mem_map.1 he'
      exact hne (Prod.mk.inj heq).1.symm
  -- the published strategy is in the index of its family in each market
  have hown : ∀ e ∈ entries, e.2 = p.strategyName →
      ∃ venue ∈ venues, e.1 = (p.market venue, p.family) := by
    intro e he hname
    obtain ⟨hindex, hindexed⟩ := hentry e he
    obtain ⟨venue, hvenue, hmarket⟩ := mem_indexes.1 hindex
    refine ⟨venue, hvenue, Prod.ext hmarket ?_⟩
    rcases p.family.eq_or_eq_opposite e.1.2 with hfamily | hfamily
    · exact hfamily
    · rw [hmarket, hfamily, hname] at hindexed
      exact absurd hindexed (howned venue hvenue).2
  have hread : ∀ e ∈ entries, ∃ state, readStrategy store e.1.1 e.1.2 e.2 = .ok state := by
    intro e he
    by_cases hname : e.2 = p.strategyName
    · obtain ⟨venue, hvenue, hindex⟩ := hown e he hname
      rw [hindex, hname]
      exact exists_readStrategy_published hpos (hstored venue hvenue) hcanonical
    · exact hothers.read e.1 (hentry e he).1 e.2 hname (hentry e he).2
  have hagree : ∀ e ∈ entries, ∀ e' ∈ entries, e ≠ e' → e.2 = e'.2 → Agree store e e' := by
    intro e he e' he' hne hsame
    have hindex : e.1 ≠ e'.1 := fun h => hne (Prod.ext h hsame)
    by_cases hname : e.2 = p.strategyName
    · obtain ⟨venue, hvenue, hi⟩ := hown e he hname
      obtain ⟨venue', hvenue', hi'⟩ := hown e' he' (hsame ▸ hname)
      have he1 : e = ((p.market venue, p.family), p.strategyName) := Prod.ext hi hname
      have he2 : e' = ((p.market venue', p.family), p.strategyName) :=
        Prod.ext hi' (hsame.symm.trans hname)
      rw [he1, he2]
      refine agree_published hpos hcheck hstored hvenue hvenue' fun heq => hindex ?_
      rw [hi, hi', heq]
    · have he2 : e' = (e'.1, e.2) := Prod.ext rfl hsame.symm
      rw [he2]
      refine hothers.agree e.1 (hentry e he).1 e'.1 (hentry e' he').1 hindex e.2 hname
        (hentry e he).2 ?_
      rw [hsame]
      exact (hentry e' he').2
  obtain ⟨snapshot, hload, -⟩ := exists_loadEntries hnodup hread hagree
  refine ⟨snapshot, ?_⟩
  unfold loadExecTargetSnapshot
  rw [hmarkets, ok_bind]
  have hflat := foldlM_flatMap (f := fun index : Market × ExecutionFamily =>
    loadStrategy store index.1 index.2) hnames ⟨∅, ∅⟩
  exact hflat.trans hload

end

end CtaManager.Exec
