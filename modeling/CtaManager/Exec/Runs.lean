import CtaManager.Exec.Snapshot
import CtaManager.Library.Steps

/-!
Runs of the publication calls and of Exec.

The connection mutex lets one call run at a time: it prepares its writes, commits them,
and reads them back.  Exec is another process, which completes switches and removals at
any moment.  In a `Quiet` run it changes nothing that a call has read before the commit;
then no strategy is ever in both families, and a committed publication is stored
whole (`publication_complete`).  The reads are not watched, so a run that is not quiet
can put a strategy back into the index it has just left (`raceEvents`).
-/

namespace CtaManager.Exec

open Check Catalog Steps

section

variable {F : Type}

/-- The call that holds the connection. -/
inductive Status (F : Type) where
  | idle
  | pending (call : Call F) (prepared : Prepared F)
  | committed (call : Call F) (prepared : Prepared F)

structure System (F : Type) where
  store : Store F
  status : Status F

inductive Event (F : Type) where
  | start (call : Call F) (nowUs : Int)
  | commit
  /-- the call returns, fails or times out -/
  | leave
  /-- Exec moves a strategy to the other family -/
  | complete (market : Market) (family : ExecutionFamily) (name : String) (atUs : Int)
  /-- Exec has removed a strategy, and may delete its configuration -/
  | finishRemoval (market : Market) (family : ExecutionFamily) (name : String)
      (deleteConfig : Bool)

def Event.isExec : Event F → Bool
  | .complete .. | .finishRemoval .. => true
  | _ => false

/-- Exec completes a switch that is under way. -/
def completeSwitch (store : Store F) (market : Market) (family : ExecutionFamily) (name : String)
    (atUs : Int) : Store F :=
  match store (.switch market name), store (.strategyNames market family),
      (store (.strategyNames market family.opposite)).getD (.names []) with
  | some (.switch record), some (.names names), .names oppositeNames =>
    if record.state ≠ "completed" ∧ record.fromFamily = family.redisNamespace ∧
        record.toFamily = family.opposite.redisNamespace ∧ name ∈ names then
      ((store.put (.strategyNames market family) (some (.names (names.filter (· != name))))).put
        (.strategyNames market family.opposite)
          (some (.names (oppositeNames.filter (· != name) ++ [name])))).put
        (.switch market name)
          (some (.switch { record with state := "completed", updatedAtUs := atUs }))
    else store
  | _, _, _ => store

/-- Exec finishes a removal that is requested. -/
def finishRemoval (store : Store F) (market : Market) (family : ExecutionFamily) (name : String)
    (deleteConfig : Bool) : Store F :=
  match store (.removedStrategyNames market family) with
  | some (.names removed) =>
    if name ∈ removed then
      let store := store.put (.removedStrategyNames market family)
        (some (.names (removed.filter (· != name))))
      if deleteConfig then store.put (.config market family name) none else store
    else store
  | _ => store

end

section

variable {F : Type} [F64 F] [DecidableEq F] [Text.Unicode]

def System.step (sys : System F) : Event F → System F
  | .start call nowUs =>
    match sys.status, call.prepare nowUs sys.store with
    | .idle, .ok prepared => { sys with status := .pending call prepared }
    | _, _ => sys
  | .commit =>
    match sys.status with
    | .pending call prepared => ⟨sys.store.exec prepared.pipe, .committed call prepared⟩
    | _ => sys
  | .leave => { sys with status := .idle }
  | .complete market family name atUs =>
    { sys with store := completeSwitch sys.store market family name atUs }
  | .finishRemoval market family name deleteConfig =>
    { sys with store := finishRemoval sys.store market family name deleteConfig }

/-- The keys that a publication reads in its markets. -/
def Publication.Reads (p : Publication F) (key : Key) : Prop :=
  ∃ venues, markets p.source = .ok venues ∧ ∃ venue ∈ venues,
    key = .config (p.market venue) p.family p.strategyName ∨
    key = .removedStrategyNames (p.market venue) p.family ∨
    (∃ family, key = .strategyNames (p.market venue) family) ∨
    key = .switchNames (p.market venue) ∨ key = .switch (p.market venue) p.strategyName

/-- The keys that a call reads before its commit. -/
def Call.Reads : Call F → Key → Prop
  | .publishStrategy _ p, key => p.Reads key
  | .publishBnbHedge source parameters targets, key =>
    Publication.Reads ⟨source, HEDGE_STRATEGY, parameters, ∅, targets⟩ key
  | .requestStrategyRemoval source _ family, key =>
    ∃ venues, markets source = .ok venues ∧ ∃ venue ∈ venues,
      key = .strategyNames ⟨source.id, venue⟩ family ∨
        key = .removedStrategyNames ⟨source.id, venue⟩ family

/-- Exec changes no key that a call has read, before the call commits. -/
def Quiet (sys : System F) (event : Event F) : Prop :=
  event.isExec = true → ∀ call prepared, sys.status = .pending call prepared →
    ∀ key, call.Reads key → (sys.step event).store key = sys.store key

theorem Publication.prepareMarket_congr {p : Publication F} {store store' : Store F}
    {venues : List String} (hvenues : markets p.source = .ok venues)
    (h : ∀ key, p.Reads key → store' key = store key) {venue : String} (hvenue : venue ∈ venues)
    (updatedAtUs : Int) :
    p.prepareMarket store' updatedAtUs venue = p.prepareMarket store updatedAtUs venue := by
  have hremoved := h (.removedStrategyNames (p.market venue) p.family)
    ⟨venues, hvenues, venue, hvenue, Or.inr (Or.inl rfl)⟩
  have hnames := fun family => h (.strategyNames (p.market venue) family)
    ⟨venues, hvenues, venue, hvenue, Or.inr (Or.inr (Or.inl ⟨family, rfl⟩))⟩
  have hswitchNames := h (.switchNames (p.market venue))
    ⟨venues, hvenues, venue, hvenue, Or.inr (Or.inr (Or.inr (Or.inl rfl)))⟩
  have hswitch := h (.switch (p.market venue) p.strategyName)
    ⟨venues, hvenues, venue, hvenue, Or.inr (Or.inr (Or.inr (Or.inr rfl)))⟩
  unfold prepareMarket
  simp only [hremoved, hnames, hswitchNames, hswitch]

theorem Publication.prepare_congr {p : Publication F} {store store' : Store F}
    (h : ∀ key, p.Reads key → store' key = store key) (nowUs : Int) :
    p.prepare nowUs store' = p.prepare nowUs store := by
  unfold prepare
  refine bind_congr_ok fun venues hcheck => ?_
  have hvenues := (check_eq_ok hcheck).1
  have hprevious : p.previousVersion store' venues = p.previousVersion store venues := by
    unfold previousVersion
    refine foldlM_congr (fun venue hvenue previous => ?_) _
    rw [h (.config (p.market venue) p.family p.strategyName)
      ⟨venues, hvenues, venue, hvenue, Or.inl rfl⟩]
  rw [hprevious]
  refine bind_congr_ok fun previous _ => ?_
  dsimp only
  rw [mapM_congr fun venue hvenue => prepareMarket_congr hvenues h hvenue _]

/-- A call prepares the same writes from a store that agrees on what it reads. -/
theorem Call.prepare_congr {call : Call F} {store store' : Store F}
    (h : ∀ key, call.Reads key → store' key = store key) (nowUs : Int) :
    call.prepare nowUs store' = call.prepare nowUs store := by
  cases call with
  | publishStrategy bnbReserved p =>
    show (do
      validateStrategyName p.strategyName
      validateCtaTargets bnbReserved p
      p.prepare nowUs store') = _
    rw [Publication.prepare_congr h]
    rfl
  | publishBnbHedge source parameters targets =>
    show (do
      ensure (validBnbHedge targets) "invalid BNB reserve target"
      Publication.prepare ⟨source, HEDGE_STRATEGY, parameters, ∅, targets⟩ nowUs store') = _
    rw [Publication.prepare_congr h]
    rfl
  | requestStrategyRemoval source name family =>
    refine bind_congr_ok fun _ _ => bind_congr_ok fun venues hvenues => ?_
    rw [mapM_congr fun venue hvenue => ?_]
    unfold removalWrites
    rw [h (.strategyNames ⟨source.id, venue⟩ family) ⟨venues, hvenues, venue, hvenue, Or.inl rfl⟩,
      h (.removedStrategyNames ⟨source.id, venue⟩ family)
        ⟨venues, hvenues, venue, hvenue, Or.inr rfl⟩]

/-- A publication stands in every market of its source. -/
structure Committed (p : Publication F) (updatedAtUs : Int) (venues : List String)
    (store : Store F) : Prop where
  stored : ∀ venue ∈ venues, p.Stored updatedAtUs venue store
  notRemoved : ∀ venue ∈ venues, ¬Removed store (p.market venue) p.family p.strategyName
  owned : ∀ venue ∈ venues, Owned store (p.market venue) p.family p.strategyName

/-- What holds of every state of a quiet run. -/
def System.Sound (sys : System F) : Prop :=
  SingleFamily sys.store ∧
    match sys.status with
    | .idle => True
    | .pending call prepared => ∃ nowUs, call.prepare nowUs sys.store = .ok prepared
    | .committed call prepared => ∀ p, call.publication = some p →
      0 < prepared.updatedAtUs ∧ ∃ venues, p.check = .ok venues ∧
        Committed p prepared.updatedAtUs venues sys.store

omit [F64 F] [DecidableEq F] [Text.Unicode] in
/-- All that completing a switch does: nothing, or one strategy changes its family. -/
theorem completeSwitch_cases (store : Store F) (market : Market) (family : ExecutionFamily)
    (name : String) (atUs : Int) {store' : Store F}
    (h : completeSwitch store market family name atUs = store') :
    store' = store ∨
      (Indexed store market family name ∧ Unfinished store market name family ∧
        (∀ n, Indexed store' market family n ↔ Indexed store market family n ∧ n ≠ name) ∧
        (∀ n, Indexed store' market family.opposite n ↔
          Indexed store market family.opposite n ∨ n = name) ∧
        (∀ f, ¬Unfinished store' market name f) ∧
        ∀ key, key ≠ .strategyNames market family → key ≠ .strategyNames market family.opposite →
          key ≠ .switch market name → store' key = store key) := by
  unfold completeSwitch at h
  split at h
  · next record names oppositeNames hrecord hnames hopposite =>
    split at h
    · next hc =>
      subst h
      obtain ⟨hstate, hfrom, hto, hmem⟩ := hc
      have hopp : ∀ n, Indexed store market family.opposite n ↔ n ∈ oppositeNames := by
        intro n
        cases hs : store (.strategyNames market family.opposite) with
        | none =>
          rw [hs] at hopposite
          cases hopposite
          constructor
          · rintro ⟨names', hnames', -⟩
            rw [hs] at hnames'
            cases hnames'
          · intro hn
            cases hn
        | some value =>
          rw [hs, Option.getD_some] at hopposite
          exact indexed_of_eq (hopposite ▸ hs) n
      refine Or.inr ⟨⟨names, hnames, hmem⟩, ⟨record, hrecord, hstate, hfrom, hto⟩, ?_, ?_, ?_, ?_⟩
      · intro n
        rw [indexed_of_eq hnames]
        refine (indexed_of_eq ?_ n).trans (b := n ∈ names.filter (· != name)) ?_
        · simp [KeyValue.Store.put, family.opposite_ne.symm]
        · simp
      · intro n
        rw [hopp]
        refine (indexed_of_eq ?_ n).trans
          (b := n ∈ oppositeNames.filter (· != name) ++ [name]) ?_
        · simp [KeyValue.Store.put]
        · simp only [List.mem_append, List.mem_filter, List.mem_singleton, bne_iff_ne]
          by_cases hn : n = name
          · simp [hn]
          · simp [hn]
      · rintro f ⟨record', hr', hstate', -⟩
        rw [KeyValue.Store.put_self, Option.some.injEq, Value.switch.injEq] at hr'
        subst hr'
        exact hstate' rfl
      · intro key h₁ h₂ h₃
        rw [KeyValue.Store.put_of_ne _ _ h₃, KeyValue.Store.put_of_ne _ _ h₂,
          KeyValue.Store.put_of_ne _ _ h₁]
    · exact Or.inl h.symm
  · exact Or.inl h.symm

omit [F64 F] [DecidableEq F] [Text.Unicode] in
/-- All that finishing a removal does. -/
theorem finishRemoval_cases (store : Store F) (market : Market) (family : ExecutionFamily)
    (name : String) (deleteConfig : Bool) {store' : Store F}
    (h : finishRemoval store market family name deleteConfig = store') :
    store' = store ∨
      (Removed store market family name ∧
        (∀ n, Removed store' market family n → Removed store market family n) ∧
        ∀ key, key ≠ .removedStrategyNames market family → key ≠ .config market family name →
          store' key = store key) := by
  unfold finishRemoval at h
  split at h
  · next removed hremoved =>
    split at h
    · next hmem =>
      refine Or.inr ⟨⟨removed, hremoved, hmem⟩, ?_, ?_⟩
      · rintro n ⟨names, hnames, hn⟩
        refine ⟨removed, hremoved, ?_⟩
        have hkey : store' (.removedStrategyNames market family) =
            some (.names (removed.filter (· != name))) := by
          rw [← h]
          cases deleteConfig
          · simp
          · simp [KeyValue.Store.put]
        rw [hkey, Option.some.injEq, Value.names.injEq] at hnames
        subst hnames
        exact (List.mem_filter.1 hn).1
      · intro key h₁ h₂
        rw [← h]
        cases deleteConfig
        · exact KeyValue.Store.put_of_ne _ _ h₁
        · show ((store.put _ _).put _ none) key = _
          rw [KeyValue.Store.put_of_ne _ _ h₂, KeyValue.Store.put_of_ne _ _ h₁]
    · exact Or.inl h.symm
  · exact Or.inl h.symm

omit [F64 F] [DecidableEq F] [Text.Unicode] in
theorem Owned.congr {store store' : Store F} {market : Market} {family : ExecutionFamily}
    {name : String}
    (hindexed : ∀ f, Indexed store' market f name ↔ Indexed store market f name)
    (hswitch : store' (.switch market name) = store (.switch market name))
    (h : Owned store market family name) : Owned store' market family name := by
  unfold Owned
  rw [hindexed, hindexed, Unfinished.congr hswitch, Unfinished.congr hswitch]
  exact h

omit [F64 F] [DecidableEq F] [Text.Unicode] in
theorem completeSwitch_singleFamily {store : Store F} (hs : SingleFamily store) (market : Market)
    (family : ExecutionFamily) (name : String) (atUs : Int) :
    SingleFamily (completeSwitch store market family name atUs) := by
  rcases completeSwitch_cases store market family name atUs rfl with
    heq | ⟨-, -, hleft, hentered, -, hframe⟩
  · rw [heq]
    exact hs
  · intro m f n hown hopp
    by_cases hm : m = market
    · subst hm
      rcases family.eq_or_eq_opposite f with rfl | rfl
      · obtain ⟨hown, hne⟩ := (hleft n).1 hown
        rcases (hentered n).1 hopp with hopp | heq
        · exact hs _ _ _ hown hopp
        · exact hne heq
      · rw [ExecutionFamily.opposite_opposite] at hopp
        obtain ⟨hopp, hne⟩ := (hleft n).1 hopp
        rcases (hentered n).1 hown with hown | heq
        · exact hs _ _ _ hopp hown
        · exact hne heq
    · have hkey : ∀ f', completeSwitch store market family name atUs (.strategyNames m f') =
          store (.strategyNames m f') := by
        intro f'
        refine hframe _ ?_ ?_ ?_
        · simp [hm]
        · simp [hm]
        · simp
      exact hs m f n ((Indexed.congr (hkey f) n).1 hown) ((Indexed.congr (hkey _) n).1 hopp)

/-- A switch that Exec completes brings the strategy to the family that owns it. -/
theorem completeSwitch_committed {p : Publication F} {updatedAtUs : Int} {venues : List String}
    {store : Store F} (h : Committed p updatedAtUs venues store) (market : Market)
    (family : ExecutionFamily) (name : String) (atUs : Int) :
    Committed p updatedAtUs venues (completeSwitch store market family name atUs) := by
  rcases completeSwitch_cases store market family name atUs rfl with
    heq | ⟨hindexed, hunfinished, hleft, hentered, hdone, hframe⟩
  · rw [heq]
    exact h
  · refine ⟨fun venue hvenue => ?_, fun venue hvenue => ?_, fun venue hvenue => ?_⟩
    · obtain ⟨targets, htargets, hstored⟩ := h.stored venue hvenue
      refine ⟨targets, htargets, ?_⟩
      rw [hframe _ (by simp) (by simp) (by simp)]
      exact hstored
    · rw [Removed.congr (hframe _ (by simp) (by simp) (by simp))]
      exact h.notRemoved venue hvenue
    · by_cases hm : p.market venue = market
      · have howned := h.owned venue hvenue
        rw [hm] at howned ⊢
        by_cases hname : p.strategyName = name
        · rw [hname] at howned ⊢
          rcases p.family.eq_or_eq_opposite family with rfl | rfl
          · -- the strategy does not leave its own family
            rcases howned with ⟨-, -, hstay⟩ | ⟨-, hnot, -⟩
            · exact absurd hunfinished hstay
            · exact absurd hindexed hnot
          · rcases howned with ⟨-, hnot, -⟩ | ⟨-, -, -⟩
            · exact absurd hindexed hnot
            · rw [ExecutionFamily.opposite_opposite] at hentered
              exact Or.inl ⟨(hentered name).2 (Or.inr rfl), fun hopp => ((hleft name).1 hopp).2 rfl,
                hdone _⟩
        · refine Owned.congr (fun f => ?_) (hframe _ (by simp) (by simp) ?_) howned
          · rcases family.eq_or_eq_opposite f with rfl | rfl
            · rw [hleft]
              exact and_iff_left hname
            · rw [hentered]
              exact or_iff_left hname
          · simp [hname]
      · refine Owned.congr (fun f => Indexed.congr (hframe _ ?_ ?_ ?_) _)
          (hframe _ ?_ ?_ ?_) (h.owned venue hvenue)
        all_goals simp [hm]

omit [F64 F] [DecidableEq F] [Text.Unicode] in
theorem finishRemoval_indexed (store : Store F) (market : Market) (family : ExecutionFamily)
    (name : String) (deleteConfig : Bool) (m : Market) (f : ExecutionFamily) (n : String) :
    Indexed (finishRemoval store market family name deleteConfig) m f n ↔ Indexed store m f n := by
  rcases finishRemoval_cases store market family name deleteConfig rfl with heq | ⟨-, -, hframe⟩
  · rw [heq]
  · exact Indexed.congr (hframe _ (by simp) (by simp)) n

/-- A removal that Exec finishes is not the one of a strategy just published. -/
theorem finishRemoval_committed {p : Publication F} {updatedAtUs : Int} {venues : List String}
    {store : Store F} (h : Committed p updatedAtUs venues store) (market : Market)
    (family : ExecutionFamily) (name : String) (deleteConfig : Bool) :
    Committed p updatedAtUs venues (finishRemoval store market family name deleteConfig) := by
  rcases finishRemoval_cases store market family name deleteConfig rfl with
    heq | ⟨hremoved, hsub, hframe⟩
  · rw [heq]
    exact h
  · refine ⟨fun venue hvenue => ?_, fun venue hvenue => ?_, fun venue hvenue => ?_⟩
    · obtain ⟨targets, htargets, hstored⟩ := h.stored venue hvenue
      refine ⟨targets, htargets, ?_⟩
      rw [hframe _ (by simp)]
      · exact hstored
      · intro hkey
        cases hkey
        exact h.notRemoved venue hvenue hremoved
    · intro hr
      refine h.notRemoved venue hvenue ?_
      by_cases hkey : Key.removedStrategyNames (p.market venue) p.family =
          .removedStrategyNames market family
      · cases hkey
        exact hsub _ hr
      · exact (Removed.congr (hframe _ hkey (by simp)) _).1 hr
    · exact Owned.congr (fun f => finishRemoval_indexed ..) (hframe _ (by simp) (by simp))
        (h.owned venue hvenue)

/-- A quiet step of Exec leaves what a call has prepared. -/
theorem Quiet.prepare {sys : System F} {event : Event F} (hquiet : Quiet sys event)
    (hexec : event.isExec = true) {call : Call F} {prepared : Prepared F}
    (hpending : sys.status = .pending call prepared)
    (h : ∃ nowUs, call.prepare nowUs sys.store = .ok prepared) :
    ∃ nowUs, call.prepare nowUs (sys.step event).store = .ok prepared := by
  obtain ⟨nowUs, hprepared⟩ := h
  exact ⟨nowUs, (Call.prepare_congr (hquiet hexec call prepared hpending) nowUs).trans hprepared⟩

/-- One step of a quiet run. -/
theorem System.Sound.step {sys : System F} {event : Event F} (hs : sys.Sound)
    (hquiet : Quiet sys event) : (sys.step event).Sound := by
  obtain ⟨hsingle, hstatus⟩ := hs
  cases event with
  | start call nowUs =>
    show System.Sound (match sys.status, call.prepare nowUs sys.store with
      | .idle, .ok prepared => { sys with status := .pending call prepared }
      | _, _ => sys)
    split
    · next prepared hidle hprepared => exact ⟨hsingle, nowUs, hprepared⟩
    · exact ⟨hsingle, hstatus⟩
  | commit =>
    show System.Sound (match sys.status with
      | .pending call prepared => ⟨sys.store.exec prepared.pipe, .committed call prepared⟩
      | _ => sys)
    split
    · next call prepared hpending =>
      rw [hpending] at hstatus
      obtain ⟨nowUs, hprepared⟩ := hstatus
      refine ⟨Call.singleFamily_exec hprepared hsingle, fun p hp => ?_⟩
      obtain ⟨hpos, venues, hcheck, hin, -⟩ :=
        Publication.prepare_eq_ok (Call.prepare_publication hp hprepared)
      exact ⟨hpos, venues, hcheck, fun venue hvenue => (hin venue hvenue).stored,
        fun venue hvenue => (hin venue hvenue).notRemoved,
        fun venue hvenue => (hin venue hvenue).owned⟩
    · exact ⟨hsingle, hstatus⟩
  | leave => exact ⟨hsingle, trivial⟩
  | complete market family name atUs =>
    refine ⟨completeSwitch_singleFamily hsingle market family name atUs, ?_⟩
    show match sys.status with
      | .idle => True
      | .pending call prepared => _
      | .committed call prepared => _
    split
    · trivial
    · next call prepared hpending =>
      rw [hpending] at hstatus
      exact hquiet.prepare rfl hpending hstatus
    · next call prepared hcommitted =>
      intro p hp
      rw [hcommitted] at hstatus
      obtain ⟨hpos, venues, hcheck, hc⟩ := hstatus p hp
      exact ⟨hpos, venues, hcheck, completeSwitch_committed hc market family name atUs⟩
  | finishRemoval market family name deleteConfig =>
    constructor
    · intro m f n hown hopp
      exact hsingle m f n ((finishRemoval_indexed ..).1 hown) ((finishRemoval_indexed ..).1 hopp)
    · show match sys.status with
        | .idle => True
        | .pending call prepared => _
        | .committed call prepared => _
      split
      · trivial
      · next call prepared hpending =>
        rw [hpending] at hstatus
        exact hquiet.prepare rfl hpending hstatus
      · next call prepared hcommitted =>
        intro p hp
        rw [hcommitted] at hstatus
        obtain ⟨hpos, venues, hcheck, hc⟩ := hstatus p hp
        exact ⟨hpos, venues, hcheck, finishRemoval_committed hc market family name deleteConfig⟩

/-- The configuration of one market holds exactly the targets of that market. -/
theorem Publication.Stored.targets {p : Publication F} {updatedAtUs : Int} {venue : String}
    {store : Store F} (h : p.Stored updatedAtUs venue store) :
    ∃ config stored, store (.config (p.market venue) p.family p.strategyName) =
        some (.config config) ∧
      config.updatedAtUs = some updatedAtUs ∧ config.targets = some stored ∧
      ∀ symbol : String, stored[symbol]? =
        if symbolMarket venue symbol = .ok venue then (p.runtimeTargets[symbol]?).map encodeTarget
        else none := by
  obtain ⟨targets, htargets, hstored⟩ := h
  refine ⟨_, targets, hstored, rfl, rfl, fun symbol => ?_⟩
  rw [encodeTargets_eq_ok htargets, getElem?_ofMarket]
  split
  · rfl
  · rfl

/-- A switch of the strategy to its new family is under way in the market. -/
def SwitchInProgress (p : Publication F) (venue : String) (store : Store F) : Prop :=
  Indexed store (p.market venue) p.family.opposite p.strategyName ∧
    Unfinished store (p.market venue) p.strategyName p.family.opposite

omit [F64 F] [DecidableEq F] [Text.Unicode] in
theorem Owned.settled {p : Publication F} {venue : String} {store : Store F}
    (h : Owned store (p.market venue) p.family p.strategyName)
    (hswitch : ¬SwitchInProgress p venue store) :
    Indexed store (p.market venue) p.family p.strategyName ∧
      ¬Indexed store (p.market venue) p.family.opposite p.strategyName := by
  rcases h with ⟨hown, hopp, -⟩ | ⟨hopp, -, hunfinished⟩
  · exact ⟨hown, hopp⟩
  · exact absurd ⟨hopp, hunfinished⟩ hswitch

/-- Quiet runs of publications and removals, of any sources, with the steps of Exec: no
strategy is ever in both families of a market; nothing but a commit of the Manager
changes a key; and a committed publication replaces the targets of every market of its
source by exactly the published ones of that market, each symbol in one market.  With no
switch of the strategy under way, the snapshot reports its family, its version and exactly
the published quantities, if it can be read at all; and it can be read if the published
targets are canonical and every other indexed strategy can be read. -/
theorem publication_complete {store : Store F} (h : SingleFamily store) {events : List (Event F)}
    (hquiet : Along System.step Quiet ⟨store, .idle⟩ events) :
    SingleFamily (run System.step ⟨store, .idle⟩ events).store ∧
      (∀ event : Event F, event.isExec = false → event ≠ .commit →
        ((run System.step ⟨store, .idle⟩ events).step event).store =
          (run System.step ⟨store, .idle⟩ events).store) ∧
      ∀ call prepared p,
        (run System.step ⟨store, .idle⟩ events).status = .committed call prepared →
        call.publication = some p →
        ∃ venues, markets p.source = .ok venues ∧
          (∀ symbol ∈ p.targets, ∃! venue, venue ∈ venues ∧ symbolMarket venue symbol = .ok venue) ∧
          (∀ venue ∈ venues, ∃ config stored,
            (run System.step ⟨store, .idle⟩ events).store
                (.config (p.market venue) p.family p.strategyName) = some (.config config) ∧
              config.updatedAtUs = some prepared.updatedAtUs ∧ config.targets = some stored ∧
              ∀ symbol : String, stored[symbol]? =
                if symbolMarket venue symbol = .ok venue then
                  (p.runtimeTargets[symbol]?).map encodeTarget
                else none) ∧
          ((∀ venue ∈ venues,
              ¬SwitchInProgress p venue (run System.step ⟨store, .idle⟩ events).store) →
            (∀ snapshot, loadExecTargetSnapshot (run System.step ⟨store, .idle⟩ events).store
                p.source = .ok snapshot →
              snapshot.strategies[p.strategyName]? = some ⟨p.family.redisNamespace,
                prepared.updatedAtUs, p.targets.map fun _ target => reportedQty target⟩) ∧
            (p.Canonical → OthersReadable (run System.step ⟨store, .idle⟩ events).store p.source
                venues p.strategyName →
              ∃ snapshot, loadExecTargetSnapshot (run System.step ⟨store, .idle⟩ events).store
                p.source = .ok snapshot)) := by
  have hsound : (run System.step ⟨store, .idle⟩ events).Sound :=
    hquiet.invariant (fun _ _ hs hq => hs.step hq) ⟨h, trivial⟩
  generalize run System.step ⟨store, .idle⟩ events = sys at hsound
  obtain ⟨hsingle, hstatus⟩ := hsound
  refine ⟨hsingle, fun event hexec hcommit => ?_, fun call prepared p hcommitted hp => ?_⟩
  · cases event with
    | start call nowUs =>
      show (match sys.status, call.prepare nowUs sys.store with
        | .idle, .ok prepared => { sys with status := .pending call prepared }
        | _, _ => sys).store = sys.store
      split
      · rfl
      · rfl
    | commit => exact absurd rfl hcommit
    | leave => rfl
    | complete market family name atUs => cases hexec
    | finishRemoval market family name deleteConfig => cases hexec
  · rw [hcommitted] at hstatus
    obtain ⟨hpos, venues, hcheck, hc⟩ := hstatus p hp
    obtain ⟨hmarkets, hsymbols⟩ := Publication.check_eq_ok hcheck
    refine ⟨venues, hmarkets, fun symbol hsymbol => ?_,
      fun venue hvenue => (hc.stored venue hvenue).targets, fun hswitch => ?_⟩
    · obtain ⟨venue, hvenue, hroute⟩ := hsymbols symbol hsymbol
      refine ⟨venue, ⟨hvenue, (symbolMarket_scoped hmarkets hroute hvenue).2 rfl⟩, ?_⟩
      rintro other ⟨hother, hscoped⟩
      exact ((symbolMarket_scoped hmarkets hroute hother).1 hscoped).symm
    · have howned := fun venue hvenue => (hc.owned venue hvenue).settled (hswitch venue hvenue)
      exact ⟨fun snapshot hload =>
          loadExecTargetSnapshot_published hpos hcheck hc.stored howned hload,
        exists_loadExecTargetSnapshot hpos hcheck hc.stored howned⟩

end

/-! ## Sample runs -/

section Sample

instance {F : Type} (store : Store F) (market : Market) (family : ExecutionFamily)
    (name : String) : Decidable (Indexed store market family name) :=
  match h : store (.strategyNames market family) with
  | some (.names names) => decidable_of_iff (name ∈ names) (indexed_of_eq h name).symm
  | some (.config _) | some (.switch _) | some (.text _) | none => isFalse (by
      rintro ⟨names, hnames, -⟩
      rw [h] at hnames
      cases hnames)

attribute [local instance] Text.Unicode.ascii

def sampleMarket : Market := ⟨"model", "binance-futures"⟩

def sampleParameters : OrderParameters ℚ where
  algorithm := .batch
  pov := ⟨1 / 10, 300, 600, 5000, 1000, 3600000, "maker_then_taker", none⟩
  grid := ⟨⟨3, 1000, 1, some 2⟩, ⟨3, 1000, 1, none⟩⟩
  chase := ⟨100, 4, 2, 5, 1000, 120, 10, 0, 0⟩
  signalExecutionEnabled := true
  singleOrderUsdt := 100
  ordersPerBatch := 3
  maxBatch := 20
  makerPriceAnchor := "own_best"
  tickSpacing := 1
  batchIntervalMs := 500
  makerTimeoutMs := 1000
  maxMakerRequotes := 2
  targetToleranceUsdt := 10

def samplePublication : Publication ℚ where
  source := ⟨"model", "binance-futures", .ok ∅⟩
  strategyName := "alpha"
  orderParameters := sampleParameters
  symbolOrderParameters := ∅
  targets := (∅ : OrdMap String (TargetPosition ℚ)).insert "BTCUSDT" ⟨false, 2, 1⟩

def sampleCall : Call ℚ := .publishStrategy ∅ samplePublication

/-- A strategy `beta` that switches from batch to chase. -/
def switchingStore : Store ℚ :=
  (KeyValue.Store.put (fun _ => none) (.strategyNames sampleMarket .batchExec)
    (some (.names ["beta"]))).put (.switch sampleMarket "beta")
      (some (.switch ⟨"batch_exec", "chase_exec", "requested", 5, 5, ∅, ∅⟩))

/-- A strategy `beta` in the index without a configuration. -/
def unreadableStore : Store ℚ :=
  KeyValue.Store.put (fun _ => none) (.strategyNames sampleMarket .batchExec)
    (some (.names ["beta"]))

/-- Exec completes the switch of `beta` between the reads of a publication and its
commit. -/
def raceEvents : List (Event ℚ) :=
  [.start sampleCall 7, .complete sampleMarket .batchExec "beta" 8, .commit]

def publishEvents : List (Event ℚ) := [.start sampleCall 7, .commit]

/-- A publication from a store, committed at once. -/
theorem run_publishEvents {store : Store ℚ}
    (h : ((sampleCall.prepare 7 store).toOption.any fun prepared => prepared.updatedAtUs == 7) =
      true) :
    ∃ prepared, prepared.updatedAtUs = 7 ∧ (run System.step ⟨store, .idle⟩ publishEvents).status =
      .committed sampleCall prepared := by
  obtain ⟨prepared, hprepared, hversion⟩ := exists_ok_of_any h
  refine ⟨prepared, beq_iff_eq.1 hversion, ?_⟩
  simp only [publishEvents, run_cons, run_nil, System.step, hprepared]

theorem quiet_publishEvents (store : Store ℚ) :
    Along System.step Quiet ⟨store, .idle⟩ publishEvents := by
  refine ⟨?_, ?_, trivial⟩
  · intro hexec
    cases hexec
  · intro hexec
    cases hexec

/-- The reads of a publication are not watched: a switch that Exec completes before the
commit is undone in one index, and the strategy is in both.  And a strategy that cannot be
read hides the others from the snapshot. -/
theorem publication_unwatched :
    (SingleFamily switchingStore ∧
      Indexed (run System.step ⟨switchingStore, .idle⟩ raceEvents).store sampleMarket
        .batchExec "beta" ∧
      Indexed (run System.step ⟨switchingStore, .idle⟩ raceEvents).store sampleMarket
        .chaseExec "beta") ∧
    SingleFamily unreadableStore ∧
      Along System.step Quiet ⟨unreadableStore, .idle⟩ publishEvents ∧
      (∃ prepared, (run System.step ⟨unreadableStore, .idle⟩ publishEvents).status =
        .committed sampleCall prepared) ∧
      ¬SwitchInProgress samplePublication "binance-futures"
        (run System.step ⟨unreadableStore, .idle⟩ publishEvents).store ∧
      (loadExecTargetSnapshot (run System.step ⟨unreadableStore, .idle⟩ publishEvents).store
        samplePublication.source).toOption.isNone = true := by
  have hrace : SingleFamily switchingStore := by
    rintro market family name ⟨names, hnames, -⟩ ⟨names', hnames', -⟩
    cases family
    · simp [switchingStore, KeyValue.Store.put, Function.update, ExecutionFamily.opposite]
        at hnames'
    · simp [switchingStore, KeyValue.Store.put, Function.update] at hnames
  have hunreadable : SingleFamily unreadableStore := by
    rintro market family name ⟨names, hnames, -⟩ ⟨names', hnames', -⟩
    cases family
    · simp [unreadableStore, KeyValue.Store.put, Function.update, ExecutionFamily.opposite]
        at hnames'
    · simp [unreadableStore, KeyValue.Store.put, Function.update] at hnames
  have hcommitted : ∃ prepared,
      (run System.step ⟨unreadableStore, .idle⟩ publishEvents).status =
        .committed sampleCall prepared := by
    obtain ⟨prepared, -, h⟩ := run_publishEvents
      (by decide +kernel : ((sampleCall.prepare 7 unreadableStore).toOption.any fun prepared =>
        prepared.updatedAtUs == 7) = true)
    exact ⟨prepared, h⟩
  have hswitch : ¬Indexed (run System.step ⟨unreadableStore, .idle⟩ publishEvents).store
      sampleMarket .chaseExec "alpha" := by decide +kernel
  exact ⟨⟨hrace, by decide +kernel, by decide +kernel⟩, hunreadable, quiet_publishEvents _,
    hcommitted, fun h => hswitch h.1, by decide +kernel⟩

/-- A publication of a source with two markets. -/
def pairPublication (targets : OrdMap String (TargetPosition ℚ)) : Publication ℚ :=
  { samplePublication with source := ⟨"pair", "okex-futures", .ok ∅⟩, targets }

def pairMarket : Market := ⟨"pair", "okex-futures"⟩

/-- `alpha` is published, and the removal of `gamma` requested. -/
def earlierEvents : List (Event ℚ) :=
  [.start (.publishStrategy ∅ (pairPublication
      ((∅ : OrdMap String (TargetPosition ℚ)).insert "BTCUSDT" ⟨false, 2, 1⟩))) 5, .commit, .leave,
    .start (.requestStrategyRemoval (pairPublication ∅).source "gamma" .chaseExec) 6, .commit]

def earlierStore : Store ℚ := (run System.step ⟨fun _ => none, .idle⟩ earlierEvents).store

/-- One target less, and one in the other market. -/
def republication : Publication ℚ :=
  pairPublication ((∅ : OrdMap String (TargetPosition ℚ)).insert "BTCUSDT" ⟨false, -1, 1⟩
    |>.insert "ETH" ⟨false, 3, 1⟩)

/-- Between the reads and the commit Exec finishes the removal of `gamma`. -/
def republishEvents : List (Event ℚ) :=
  [.start (.publishStrategy ∅ republication) 3, .finishRemoval pairMarket .chaseExec "gamma" true,
    .commit]

theorem singleFamily_earlierStore : SingleFamily earlierStore := by
  have hempty : SingleFamily (fun _ => none : Store ℚ) := by
    rintro market family name ⟨names, hnames, -⟩
    cases hnames
  have hquiet : Along System.step Quiet ⟨fun _ => none, .idle⟩ earlierEvents := by
    refine ⟨?_, ?_, ?_, ?_, ?_, trivial⟩
    all_goals
      intro hexec
      cases hexec
  exact (publication_complete hempty hquiet).1

theorem quiet_republishEvents :
    Along System.step Quiet ⟨earlierStore, .idle⟩ republishEvents := by
  refine ⟨fun hexec => (nomatch hexec), fun _ call prepared hpending key hreads => ?_,
    fun hexec => (nomatch hexec), trivial⟩
  have hcall : call = .publishStrategy ∅ republication := by
    obtain ⟨prepared', hprepared, -⟩ := exists_ok_of_any
      (x := Call.prepare (.publishStrategy ∅ republication) 3 earlierStore) (P := fun _ => true)
      (by decide +kernel)
    simp only [System.step, hprepared] at hpending
    cases hpending
    rfl
  subst hcall
  rcases finishRemoval_cases _ pairMarket .chaseExec "gamma" true rfl with heq | ⟨-, -, hframe⟩
  · exact congrFun heq key
  · -- the publication reads what is of its own family, but for the other index
    have hfamily : republication.family = .batchExec := rfl
    obtain ⟨venues, -, venue, -, rfl | rfl | ⟨family, rfl⟩ | rfl | rfl⟩ := hreads
    · exact hframe _ (by simp) (by simp [hfamily])
    · exact hframe _ (by simp [hfamily]) (by simp)
    · exact hframe _ (by simp) (by simp)
    · exact hframe _ (by simp) (by simp)
    · exact hframe _ (by simp) (by simp)

theorem publication_complete_sample :
    ∃ snapshot, loadExecTargetSnapshot
        (run System.step ⟨earlierStore, .idle⟩ republishEvents).store republication.source =
          .ok snapshot ∧
      snapshot.strategies["alpha"]? = some (⟨"batch_exec", 6,
        republication.targets.map fun _ target => reportedQty target⟩ :
          ExecStrategyTargetState ℚ) := by
  obtain ⟨prepared, hprepared, hversion⟩ := exists_ok_of_any
    (x := Call.prepare (.publishStrategy ∅ republication) 3 earlierStore)
    (P := fun prepared => prepared.updatedAtUs == 6) (by decide +kernel)
  have hstatus : (run System.step ⟨earlierStore, .idle⟩ republishEvents).status =
      .committed (.publishStrategy ∅ republication) prepared := by
    simp only [republishEvents, run_cons, run_nil, System.step, hprepared]
  obtain ⟨venues, hmarkets, -, -, hload⟩ :=
    (publication_complete singleFamily_earlierStore quiet_republishEvents).2.2 _ prepared
      republication hstatus rfl
  have hvenues : venues = ["okex-futures", "okex-margin"] := by
    have hm : (markets republication.source).toOption = some ["okex-futures", "okex-margin"] := by
      decide +kernel
    rw [hmarkets] at hm
    exact Option.some.inj hm
  subst hvenues
  have hswitch : ∀ venue ∈ ["okex-futures", "okex-margin"],
      ¬Indexed (run System.step ⟨earlierStore, .idle⟩ republishEvents).store
        (republication.market venue) .chaseExec "alpha" := by decide +kernel
  obtain ⟨snapshot, hsnapshot, -⟩ := exists_ok_of_any
    (x := loadExecTargetSnapshot (run System.step ⟨earlierStore, .idle⟩ republishEvents).store
      republication.source) (P := fun _ => true) (by decide +kernel)
  refine ⟨snapshot, hsnapshot, ?_⟩
  have hentry := (hload fun venue hvenue h => hswitch venue hvenue h.1).1 snapshot hsnapshot
  rw [beq_iff_eq.1 hversion] at hentry
  exact hentry

end Sample

end CtaManager.Exec
