import CtaManager.Exec.RedisRuntime

/-!
Which family a strategy belongs to, in each market.

`Indexed`, `Removed` and `Unfinished` read the indexes, the removal sets and the switch
records of a store.  `MarketPlan.Correct` is all a publication does in one market;
`Owned` is what it leaves there: the strategy is in the index of its family alone, or in
the other one with a switch to its family under way.
-/

namespace CtaManager.Exec

open Check Catalog

section

variable {F : Type}

/-- The strategy is in the index of the family. -/
def Indexed (store : Store F) (market : Market) (family : ExecutionFamily) (name : String) :
    Prop :=
  ∃ names, store (.strategyNames market family) = some (.names names) ∧ name ∈ names

/-- The removal of the strategy is requested. -/
def Removed (store : Store F) (market : Market) (family : ExecutionFamily) (name : String) :
    Prop :=
  ∃ names, store (.removedStrategyNames market family) = some (.names names) ∧ name ∈ names

/-- A switch of the strategy away from the family is requested and not completed. -/
def Unfinished (store : Store F) (market : Market) (name : String) (source : ExecutionFamily) :
    Prop :=
  ∃ record, store (.switch market name) = some (.switch record) ∧ record.state ≠ "completed" ∧
    record.fromFamily = source.redisNamespace ∧ record.toFamily = source.opposite.redisNamespace

/-- No strategy is in both indexes of a market. -/
def SingleFamily (store : Store F) : Prop :=
  ∀ market family name, Indexed store market family name →
    ¬Indexed store market family.opposite name

/-- The strategy is in the index of `family` alone and not about to leave it, or in the
other index alone and about to come. -/
def Owned (store : Store F) (market : Market) (family : ExecutionFamily) (name : String) : Prop :=
  (Indexed store market family name ∧ ¬Indexed store market family.opposite name ∧
      ¬Unfinished store market name family) ∨
    (Indexed store market family.opposite name ∧ ¬Indexed store market family name ∧
      Unfinished store market name family.opposite)

theorem mem_decodeStrategyNames {raw : Option (Value F)} {label : String} {names : List String}
    (h : decodeStrategyNames raw label = .ok names) (name : String) :
    name ∈ names ↔ ∃ stored, raw = some (.names stored) ∧ name ∈ stored := by
  match raw, h with
  | none, h =>
    cases h
    simp
  | some (.names stored), h =>
    obtain ⟨-, -, h⟩ := bind_eq_ok.1 h
    obtain ⟨-, -, h⟩ := bind_eq_ok.1 h
    cases h
    simp

theorem nodup_of_decodeStrategyNames {raw : Option (Value F)} {label : String}
    {names : List String} (h : decodeStrategyNames raw label = .ok names) : names.Nodup := by
  match raw, h with
  | none, h =>
    cases h
    exact List.nodup_nil
  | some (.names stored), h =>
    obtain ⟨-, -, h⟩ := bind_eq_ok.1 h
    obtain ⟨_, hd, h⟩ := bind_eq_ok.1 h
    cases h
    rw [ensure_eq_ok, decide_eq_true_eq] at hd
    exact (List.perm_insertionSort (· ≤ ·) stored).nodup_iff.2 hd

/-- What is read of an index. -/
theorem mem_strategyNames {store : Store F} {market : Market} {family : ExecutionFamily}
    {label : String} {names : List String}
    (h : decodeStrategyNames (store (.strategyNames market family)) label = .ok names)
    (name : String) : name ∈ names ↔ Indexed store market family name :=
  mem_decodeStrategyNames h name

theorem Indexed.congr {store store' : Store F} {market : Market} {family : ExecutionFamily}
    (h : store' (.strategyNames market family) = store (.strategyNames market family))
    (name : String) : Indexed store' market family name ↔ Indexed store market family name := by
  unfold Indexed
  rw [h]

theorem indexed_of_eq {store : Store F} {market : Market} {family : ExecutionFamily}
    {names : List String} (h : store (.strategyNames market family) = some (.names names))
    (name : String) : Indexed store market family name ↔ name ∈ names := by
  constructor
  · rintro ⟨names', hn, hmem⟩
    rw [h, Option.some.injEq, Value.names.injEq] at hn
    exact hn ▸ hmem
  · intro hmem
    exact ⟨names, h, hmem⟩

theorem Unfinished.congr {store store' : Store F} {market : Market} {name : String}
    (h : store' (.switch market name) = store (.switch market name)) (family : ExecutionFamily) :
    Unfinished store' market name family ↔ Unfinished store market name family := by
  unfold Unfinished
  rw [h]

theorem Removed.congr {store store' : Store F} {market : Market} {family : ExecutionFamily}
    (h : store' (.removedStrategyNames market family) =
      store (.removedStrategyNames market family))
    (name : String) : Removed store' market family name ↔ Removed store market family name := by
  unfold Removed
  rw [h]

/-- Writes prepared market by market, each in its own market. -/
theorem exec_mapM {β : Type} {f : String → Except String β} {pipe : β → List (Key × Value F)}
    {id : String} {venues : List String} {plans : List β} (hvenues : venues.Nodup)
    (h : venues.mapM f = .ok plans)
    (hwrites : ∀ venue plan, f venue = .ok plan → ∀ w ∈ pipe plan, w.1.market = ⟨id, venue⟩)
    (store : Store F) :
    (∀ venue ∈ venues, ∃ plan, f venue = .ok plan ∧ ∀ key : Key, key.market = ⟨id, venue⟩ →
        store.exec (plans.flatMap pipe) key = store.exec (pipe plan) key) ∧
      ∀ key : Key, (∀ venue ∈ venues, key.market ≠ ⟨id, venue⟩) →
        store.exec (plans.flatMap pipe) key = store key := by
  have hall := mapM_eq_ok.1 h
  have hfst : (venues.zip plans).map Prod.fst = venues :=
    List.map_fst_zip hall.length_eq.le
  have hsnd : (venues.zip plans).map Prod.snd = plans :=
    List.map_snd_zip hall.length_eq.ge
  have hzip : ∀ x ∈ venues.zip plans, f x.1 = .ok x.2 := fun x hx =>
    (List.forall₂_iff_zip.1 hall).2 hx
  have hflat : plans.flatMap pipe = (venues.zip plans).flatMap fun x => pipe x.2 := by
    rw [← hsnd, List.flatMap_map, hsnd]
  have htags : (venues.zip plans).map (fun x => Market.mk id x.1) = venues.map (Market.mk id) := by
    rw [← hfst, List.map_map, hfst]
    rfl
  have hnodup : ((venues.zip plans).map fun x => Market.mk id x.1).Nodup := by
    rw [htags]
    refine hvenues.map fun a b hab => ?_
    cases hab
    rfl
  have hown : ∀ x ∈ venues.zip plans, ∀ w ∈ pipe x.2, w.1.market = Market.mk id x.1 :=
    fun x hx => hwrites x.1 x.2 (hzip x hx)
  obtain ⟨hin, hout⟩ := KeyValue.Store.exec_flatMap Key.market
    (fun x : String × β => Market.mk id x.1) hnodup hown store
  rw [hflat]
  refine ⟨fun venue hvenue => ?_, fun key hkey => hout key ?_⟩
  · rw [← hfst] at hvenue
    obtain ⟨x, hx, rfl⟩ := List.mem_map.1 hvenue
    exact ⟨x.2, hzip x hx, fun key hkey => hin x hx key hkey⟩
  · rw [htags]
    intro hmem
    obtain ⟨venue, hvenue, heq⟩ := List.mem_map.1 hmem
    exact hkey venue hvenue heq.symm

end

section

variable {F : Type} [F64 F] [DecidableEq F] [Text.Unicode]

omit [F64 F] [DecidableEq F] [Text.Unicode] in
/-- What the check of a switch record lets through. -/
theorem reusableCompletedSwitch_eq_ok {family : ExecutionFamily} {name : String} {store : Store F}
    {market : Market} {reusable : Bool}
    (h : reusableCompletedSwitch family name (store (.switch market name)) = .ok reusable) :
    ¬Unfinished store market name family ∧
      (((store (.switch market name)).isNone || reusable) = false →
        Unfinished store market name family.opposite) := by
  unfold reusableCompletedSwitch at h
  split at h
  · next hnone =>
    refine ⟨fun ⟨record, hr, _⟩ => ?_, fun hr => ?_⟩
    · rw [hnone] at hr
      cases hr
    · rw [hnone] at hr
      cases hr
  · next existing hsome =>
    obtain ⟨_, hcheck, h⟩ := bind_eq_ok.1 h
    cases h
    rw [ensure_eq_ok] at hcheck
    refine ⟨fun ⟨record, hr, hstate, hfrom, hto⟩ => ?_, fun hr => ?_⟩
    · rw [hsome, Option.some.injEq, Value.switch.injEq] at hr
      subst hr
      simp only [Bool.or_eq_true, beq_iff_eq, Bool.and_eq_true] at hcheck
      rcases hcheck with hdone | ⟨hfrom', -⟩
      · exact hstate hdone
      · exact family.opposite_ne
          (ExecutionFamily.redisNamespace_inj (hfrom'.symm.trans hfrom))
    · have hstate : existing.state ≠ "completed" := by
        intro hdone
        rw [hdone, hsome] at hr
        cases hr
      simp only [Bool.or_eq_true, beq_iff_eq, Bool.and_eq_true] at hcheck
      rcases hcheck with hdone | ⟨hfrom, hto⟩
      · exact absurd hdone hstate
      · exact ⟨existing, hsome, hstate, hfrom, by rw [ExecutionFamily.opposite_opposite]; exact hto⟩
  · cases h

/-- The configuration of a publication in one market: its runtime targets of that market,
under its version. -/
def Publication.Stored (p : Publication F) (updatedAtUs : Int) (venue : String)
    (store : Store F) : Prop :=
  ∃ targets, encodeTargets (ofMarket venue p.runtimeTargets) = .ok targets ∧
    store (.config (p.market venue) p.family p.strategyName) = some (.config
      { parameters := storedParameters p.orderParameters
        symbolOverrides := p.storedOverrides venue
        targets := some targets, updatedAtUs := some updatedAtUs })

/-- All a publication does in one market, from the store it read to the store after the
commit: the new configuration is there, and the strategy is owned by its family. -/
structure MarketPlan.Correct (p : Publication F) (updatedAtUs : Int) (venue : String)
    (store store' : Store F) : Prop where
  stored : p.Stored updatedAtUs venue store'
  notRemoved : ¬Removed store' (p.market venue) p.family p.strategyName
  owned : Owned store' (p.market venue) p.family p.strategyName
  others : ∀ family name, name ≠ p.strategyName →
    (Indexed store' (p.market venue) family name ↔ Indexed store (p.market venue) family name)

theorem Publication.prepareMarket_writes {p : Publication F} {store : Store F} {updatedAtUs : Int}
    {venue : String} {plan : MarketPlan F}
    (h : p.prepareMarket store updatedAtUs venue = .ok plan) :
    ∀ w ∈ plan.pipe, w.1.market = p.market venue := by
  obtain ⟨removed, -, h⟩ := bind_eq_ok.1 h
  obtain ⟨-, -, h⟩ := bind_eq_ok.1 h
  obtain ⟨names, -, h⟩ := bind_eq_ok.1 h
  obtain ⟨oppositeNames, -, h⟩ := bind_eq_ok.1 h
  obtain ⟨switchNames, -, h⟩ := bind_eq_ok.1 h
  obtain ⟨reusable, -, h⟩ := bind_eq_ok.1 h
  obtain ⟨-, -, h⟩ := bind_eq_ok.1 h
  obtain ⟨targets, -, h⟩ := bind_eq_ok.1 h
  cases h
  intro w hw
  rcases List.mem_cons.1 hw with rfl | hw
  · rfl
  · split at hw
    · rcases List.mem_cons.1 hw with rfl | hw
      · rfl
      · rw [List.mem_singleton.1 hw]
        rfl
    · split at hw
      · rw [List.mem_singleton.1 hw]
        rfl
      · cases hw

/-- The writes of one market, seen from the keys of that market. -/
theorem Publication.prepareMarket_correct {p : Publication F} {store store' : Store F}
    {updatedAtUs : Int} {venue : String} {plan : MarketPlan F}
    (h : p.prepareMarket store updatedAtUs venue = .ok plan)
    (hexec : ∀ key : Key, key.market = p.market venue → store' key = store.exec plan.pipe key) :
    MarketPlan.Correct p updatedAtUs venue store store' := by
  obtain ⟨removed, hremoved, h⟩ := bind_eq_ok.1 h
  obtain ⟨_, hnotRemoved, h⟩ := bind_eq_ok.1 h
  obtain ⟨names, hnames, h⟩ := bind_eq_ok.1 h
  obtain ⟨oppositeNames, hopposite, h⟩ := bind_eq_ok.1 h
  obtain ⟨switchNames, -, h⟩ := bind_eq_ok.1 h
  obtain ⟨reusable, hreusable, h⟩ := bind_eq_ok.1 h
  obtain ⟨_, hsingle, h⟩ := bind_eq_ok.1 h
  obtain ⟨targets, htargets, h⟩ := bind_eq_ok.1 h
  cases h
  have hown : ∀ name, name ∈ names ↔ Indexed store (p.market venue) p.family name :=
    mem_strategyNames hnames
  have hopp : ∀ name, name ∈ oppositeNames ↔
      Indexed store (p.market venue) p.family.opposite name := mem_strategyNames hopposite
  obtain ⟨hstay, hcome⟩ := reusableCompletedSwitch_eq_ok hreusable
  rw [ensure_eq_ok, Bool.not_eq_true', ← Bool.not_eq_true, List.contains_iff_mem] at hnotRemoved
  rw [ensure_eq_ok] at hsingle
  simp only [KeyValue.Store.exec_cons] at hexec
  have hboth : p.strategyName ∈ oppositeNames → p.strategyName ∉ names := by
    intro ho hn
    rw [List.contains_iff_mem.2 ho, List.contains_iff_mem.2 hn] at hsingle
    cases hsingle
  split at hexec
  · next hc =>
    -- a new request to switch: the indexes stay, and the record says so
    rw [Bool.and_eq_true, List.contains_iff_mem] at hc
    have hindex : ∀ family, store' (.strategyNames (p.market venue) family) =
        store (.strategyNames (p.market venue) family) := by
      intro family
      rw [hexec _ rfl]
      simp [KeyValue.Store.put]
    refine ⟨⟨targets, htargets, ?_⟩, ?_, Or.inr ⟨?_, ?_, ?_⟩, ?_⟩
    · rw [hexec _ rfl]
      simp [KeyValue.Store.put]
    · rw [Removed.congr, Removed, ← mem_decodeStrategyNames hremoved]
      · exact hnotRemoved
      · rw [hexec _ rfl]
        simp [KeyValue.Store.put]
    · exact (Indexed.congr (hindex _) _).2 ((hopp _).1 hc.1)
    · rw [Indexed.congr (hindex _), ← hown]
      exact hboth hc.1
    · refine ⟨⟨p.family.opposite.redisNamespace, p.family.redisNamespace, "requested", updatedAtUs,
        updatedAtUs, ∅, ∅⟩, ?_, ?_, rfl, ?_⟩
      · rw [hexec _ rfl]
        simp [KeyValue.Store.put]
      · show "requested" ≠ "completed"
        decide
      · rw [ExecutionFamily.opposite_opposite]
    · intro family name _
      exact Indexed.congr (hindex family) name
  · next hc =>
    have hswitch : store' (.switch (p.market venue) p.strategyName) =
        store (.switch (p.market venue) p.strategyName) := by
      rw [hexec _ rfl]
      split
      · simp [KeyValue.Store.put]
      · simp [KeyValue.Store.put]
    have hstay' : ¬Unfinished store' (p.market venue) p.strategyName p.family := by
      rw [Unfinished.congr hswitch]
      exact hstay
    have hremoved' : ¬Removed store' (p.market venue) p.family p.strategyName := by
      rw [Removed.congr, Removed, ← mem_decodeStrategyNames hremoved]
      · exact hnotRemoved
      · rw [hexec _ rfl]
        split
        · simp [KeyValue.Store.put]
        · simp [KeyValue.Store.put]
    split at hexec
    · next hfirst =>
      -- the first publication: the name enters the index of its family
      rw [Bool.and_eq_true, Bool.not_eq_true', Bool.not_eq_true', ← Bool.not_eq_true,
        ← Bool.not_eq_true, List.contains_iff_mem, List.contains_iff_mem] at hfirst
      have hopposite' : store' (.strategyNames (p.market venue) p.family.opposite) =
          store (.strategyNames (p.market venue) p.family.opposite) := by
        rw [hexec _ rfl]
        simp [KeyValue.Store.put, p.family.opposite_ne]
      have hindex : ∀ name, Indexed store' (p.market venue) p.family name ↔
          Indexed store (p.market venue) p.family name ∨ name = p.strategyName := by
        intro name
        have hnames' : store' (.strategyNames (p.market venue) p.family) = some (.names
            ((names ++ [p.strategyName]).insertionSort (· ≤ ·)).dedup) := by
          rw [hexec _ rfl]
          simp [KeyValue.Store.put]
        rw [← hown, indexed_of_eq hnames']
        simp
      refine ⟨⟨targets, htargets, ?_⟩, hremoved', Or.inl ⟨?_, ?_, hstay'⟩, ?_⟩
      · rw [hexec _ rfl]
        simp [KeyValue.Store.put]
      · exact (hindex _).2 (Or.inr rfl)
      · rw [Indexed.congr hopposite', ← hopp]
        exact hfirst.1
      · intro family name hname
        rcases p.family.eq_or_eq_opposite family with rfl | rfl
        · rw [hindex]
          exact or_iff_left hname
        · exact Indexed.congr hopposite' name
    · next hagain =>
      -- the name is in one index already, with a switch under way if it is the other one
      have hindex : ∀ family, store' (.strategyNames (p.market venue) family) =
          store (.strategyNames (p.market venue) family) := by
        intro family
        rw [hexec _ rfl]
        simp [KeyValue.Store.put]
      refine ⟨⟨targets, htargets, ?_⟩, hremoved', ?_, fun family name _ =>
        Indexed.congr (hindex family) name⟩
      · rw [hexec _ rfl]
        simp [KeyValue.Store.put]
      · unfold Owned
        rw [Indexed.congr (hindex _), Indexed.congr (hindex _), Unfinished.congr hswitch,
          Unfinished.congr hswitch, ← hown, ← hopp]
        by_cases ho : p.strategyName ∈ oppositeNames
        · refine Or.inr ⟨ho, hboth ho, hcome ?_⟩
          rw [List.contains_iff_mem.2 ho, Bool.true_and] at hc
          exact Bool.eq_false_iff.2 hc
        · refine Or.inl ⟨?_, ho, hstay⟩
          by_contra hn
          rw [← List.contains_iff_mem, Bool.not_eq_true] at ho hn
          rw [ho, hn] at hagain
          exact hagain rfl

omit [DecidableEq F] in
/-- The checks give every symbol a market of the source. -/
theorem Publication.check_eq_ok {p : Publication F} {venues : List String}
    (h : p.check = .ok venues) : markets p.source = .ok venues ∧ ∀ symbol ∈ p.targets,
      ∃ venue ∈ venues, symbolMarket p.source.venue symbol = .ok venue := by
  obtain ⟨-, -, h⟩ := bind_eq_ok.1 h
  obtain ⟨-, -, h⟩ := bind_eq_ok.1 h
  obtain ⟨-, -, h⟩ := bind_eq_ok.1 h
  obtain ⟨-, -, h⟩ := bind_eq_ok.1 h
  obtain ⟨-, -, h⟩ := bind_eq_ok.1 h
  obtain ⟨-, -, h⟩ := bind_eq_ok.1 h
  obtain ⟨venues', hvenues, h⟩ := bind_eq_ok.1 h
  obtain ⟨_, hsymbols, h⟩ := bind_eq_ok.1 h
  cases h
  refine ⟨hvenues, fun symbol hsymbol => ?_⟩
  have hkey : symbol ∈ p.targets.keys ++ p.symbolOrderParameters.keys :=
    List.mem_append_left _ (Std.ExtTreeMap.mem_keys.2 hsymbol)
  obtain ⟨market, hmarket, hs⟩ := bind_eq_ok.1 (forM_eq_ok.1 hsymbols symbol hkey)
  rw [ensure_eq_ok, List.contains_iff_mem] at hs
  exact ⟨market, hs, hmarket⟩

omit [F64 F] [DecidableEq F] [Text.Unicode] in
theorem nextUpdatedAtUs_pos (nowUs : Int) (current : Option Int) :
    0 < nextUpdatedAtUs nowUs current := by
  unfold nextUpdatedAtUs
  split
  · next value h =>
    obtain ⟨_, hpos⟩ := Option.filter_eq_some_iff.1 h
    rw [decide_eq_true_eq] at hpos
    have hmax : (0 : Int) < i64Max := by decide
    omega
  · omega

/-- What a publication leaves in the markets of its source, and elsewhere. -/
theorem Publication.prepare_eq_ok {p : Publication F} {nowUs : Int} {store : Store F}
    {prepared : Prepared F} (h : p.prepare nowUs store = .ok prepared) :
    0 < prepared.updatedAtUs ∧ ∃ venues, p.check = .ok venues ∧
      (∀ venue ∈ venues, MarketPlan.Correct p prepared.updatedAtUs venue store
        (store.exec prepared.pipe)) ∧
      ∀ key : Key, (∀ venue ∈ venues, key.market ≠ p.market venue) →
        store.exec prepared.pipe key = store key := by
  obtain ⟨venues, hcheck, h⟩ := bind_eq_ok.1 h
  obtain ⟨previous, -, h⟩ := bind_eq_ok.1 h
  obtain ⟨plans, hplans, h⟩ := bind_eq_ok.1 h
  cases h
  have hnodup := markets_nodup (Publication.check_eq_ok hcheck).1
  obtain ⟨hin, hout⟩ := exec_mapM hnodup hplans
    (fun venue plan hplan => Publication.prepareMarket_writes hplan) store
  refine ⟨nextUpdatedAtUs_pos _ _, venues, hcheck, fun venue hvenue => ?_, hout⟩
  obtain ⟨plan, hplan, hexec⟩ := hin venue hvenue
  exact Publication.prepareMarket_correct hplan hexec

omit [F64 F] [DecidableEq F] [Text.Unicode] in
theorem removalWrites_market {store : Store F} {market : Market} {name : String}
    {family : ExecutionFamily} {writes : List (Key × Value F)}
    (h : removalWrites store market name family = .ok writes) :
    ∀ w ∈ writes, w.1.market = market := by
  obtain ⟨names, -, h⟩ := bind_eq_ok.1 h
  obtain ⟨removed, -, h⟩ := bind_eq_ok.1 h
  cases h
  simp [Key.market]

omit [F64 F] [DecidableEq F] [Text.Unicode] in
/-- What a removal request leaves of the indexes of one market. -/
theorem removalWrites_correct {store store' : Store F} {market : Market} {name : String}
    {family : ExecutionFamily} {writes : List (Key × Value F)}
    (h : removalWrites store market name family = .ok writes)
    (hexec : ∀ key : Key, key.market = market → store' key = store.exec writes key) :
    (∀ n, Indexed store' market family n ↔ Indexed store market family n ∧ n ≠ name) ∧
      ∀ n, Indexed store' market family.opposite n ↔ Indexed store market family.opposite n := by
  obtain ⟨names, hnames, h⟩ := bind_eq_ok.1 h
  obtain ⟨removed, -, h⟩ := bind_eq_ok.1 h
  cases h
  constructor
  · intro n
    have hindex : store' (.strategyNames market family) =
        some (.names (names.filter (· != name))) := by
      rw [hexec _ rfl]
      simp [KeyValue.Store.put]
    rw [indexed_of_eq hindex, ← mem_strategyNames hnames]
    simp
  · intro n
    refine Indexed.congr ?_ n
    rw [hexec _ rfl]
    simp [KeyValue.Store.put, family.opposite_ne]

omit [F64 F] [DecidableEq F] [Text.Unicode] in
/-- One market at a time. -/
theorem singleFamily_of_markets {store store' : Store F} (hs : SingleFamily store)
    (h : ∀ market, (∀ family name, Indexed store' market family name →
        Indexed store market family name) ∨
      ∃ family name, Owned store' market family name ∧ ∀ family' name', name' ≠ name →
        (Indexed store' market family' name' ↔ Indexed store market family' name')) :
    SingleFamily store' := by
  intro market family name hown hopp
  rcases h market with hsub | ⟨owner, n, howned, hothers⟩
  · exact hs market family name (hsub _ _ hown) (hsub _ _ hopp)
  · by_cases hname : name = n
    · subst hname
      rcases howned with ⟨-, hnot, -⟩ | ⟨-, hnot, -⟩
      · rcases owner.eq_or_eq_opposite family with rfl | rfl
        · exact hnot hopp
        · exact hnot hown
      · rcases owner.eq_or_eq_opposite family with rfl | rfl
        · exact hnot hown
        · rw [ExecutionFamily.opposite_opposite] at hopp
          exact hnot hopp
    · exact hs market family name ((hothers _ _ hname).1 hown) ((hothers _ _ hname).1 hopp)

/-- The publication of a call is prepared as such. -/
theorem Call.prepare_publication {call : Call F} {p : Publication F}
    (hp : call.publication = some p) {nowUs : Int} {store : Store F} {prepared : Prepared F}
    (h : call.prepare nowUs store = .ok prepared) : p.prepare nowUs store = .ok prepared := by
  cases call with
  | publishStrategy bnbReserved publication =>
    cases hp
    obtain ⟨-, -, h⟩ := bind_eq_ok.1 h
    obtain ⟨-, -, h⟩ := bind_eq_ok.1 h
    exact h
  | publishBnbHedge source parameters targets =>
    cases hp
    obtain ⟨-, -, h⟩ := bind_eq_ok.1 h
    exact h
  | requestStrategyRemoval source name family => cases hp

/-- A commit on the store that the call has read. -/
theorem Call.singleFamily_exec {call : Call F} {nowUs : Int} {store : Store F}
    {prepared : Prepared F} (h : call.prepare nowUs store = .ok prepared)
    (hs : SingleFamily store) : SingleFamily (store.exec prepared.pipe) := by
  have hpublish : ∀ p : Publication F, p.prepare nowUs store = .ok prepared →
      SingleFamily (store.exec prepared.pipe) := by
    intro p hp
    obtain ⟨-, venues, -, hin, hout⟩ := Publication.prepare_eq_ok hp
    refine singleFamily_of_markets hs fun market => ?_
    by_cases hm : ∃ venue ∈ venues, market = p.market venue
    · obtain ⟨venue, hvenue, rfl⟩ := hm
      have hc := hin venue hvenue
      exact Or.inr ⟨p.family, p.strategyName, hc.owned, hc.others⟩
    · refine Or.inl fun family name => ?_
      refine (Indexed.congr (hout (.strategyNames market family) ?_) name).1
      intro venue hvenue heq
      exact hm ⟨venue, hvenue, heq⟩
  cases call with
  | publishStrategy bnbReserved p => exact hpublish p (Call.prepare_publication rfl h)
  | publishBnbHedge source parameters targets =>
    refine hpublish ⟨source, HEDGE_STRATEGY, parameters, ∅, targets⟩ ?_
    exact Call.prepare_publication rfl h
  | requestStrategyRemoval source name family =>
    obtain ⟨-, -, h⟩ := bind_eq_ok.1 h
    obtain ⟨venues, hvenues, h⟩ := bind_eq_ok.1 h
    obtain ⟨writes, hwrites, h⟩ := bind_eq_ok.1 h
    cases h
    obtain ⟨hin, hout⟩ := exec_mapM (markets_nodup hvenues) hwrites
      (fun venue plan hplan => removalWrites_market hplan) store
    have hflat : writes.flatMap (fun plan => plan) = writes.flatten := List.flatMap_id
    rw [hflat] at hin hout
    refine singleFamily_of_markets hs fun market => Or.inl fun owner n hindexed => ?_
    by_cases hm : ∃ venue ∈ venues, market = ⟨source.id, venue⟩
    · obtain ⟨venue, hvenue, rfl⟩ := hm
      obtain ⟨plan, hplan, hexec⟩ := hin venue hvenue
      obtain ⟨hown, hopp⟩ := removalWrites_correct hplan hexec
      rcases family.eq_or_eq_opposite owner with rfl | rfl
      · exact ((hown n).1 hindexed).1
      · exact (hopp n).1 hindexed
    · refine (Indexed.congr (hout (.strategyNames market owner) ?_) n).1 hindexed
      intro venue hvenue heq
      exact hm ⟨venue, hvenue, heq⟩

end

end CtaManager.Exec
