import CtaManager.Library.OrdMapFold
import CtaManager.Web.TargetSteps

/-!
Live targets are durable.

When a catalog has been read, memory has the last version of each strategy.  So the invariant holds
in every world, and a version that has left the queue of the archive is never lost.
-/

namespace CtaManager.Web

open Archive Catalog Check

variable {F : Type}

/-! ## Reading the catalog -/

theorem entry_ext {e e' : Entry F} (hstrategy : e.strategy = e'.strategy)
    (hid : e.createdAtUs = e'.createdAtUs) : e = e' := by
  cases e
  cases e'
  cases hstrategy
  cases hid
  rfl

section

variable (recovered : Option (PositionStrategy F)) (live : Option (Entry F)) (entry : Entry F)

@[simp] theorem mergeEntry_createdAtUs :
    (mergeEntry recovered live entry).createdAtUs = entry.createdAtUs := by
  unfold mergeEntry
  grind

theorem le_mergeEntry :
    entry.strategy.updatedAtUs ≤ (mergeEntry recovered live entry).strategy.updatedAtUs := by
  unfold mergeEntry
  grind

theorem recovered_le_mergeEntry {s : PositionStrategy F} (h : recovered = some s) :
    s.updatedAtUs ≤ (mergeEntry recovered live entry).strategy.updatedAtUs := by
  unfold mergeEntry
  grind

theorem live_le_mergeEntry {c : Entry F} (h : live = some c)
    (hid : c.createdAtUs = entry.createdAtUs) :
    c.strategy.updatedAtUs ≤ (mergeEntry recovered live entry).strategy.updatedAtUs := by
  unfold mergeEntry
  grind

/-- The merged entry is one of the three. -/
theorem mergeEntry_cases : mergeEntry recovered live entry = entry ∨
    recovered = some (mergeEntry recovered live entry).strategy ∨
      live = some (mergeEntry recovered live entry) := by
  unfold mergeEntry
  grind [Entry]

end

section

variable (targets : Targets F) (entries : OrdMap String (Entry F))
  (recovered : OrdMap String (Option (PositionStrategy F)))

theorem getElem?_install_current (name : String) :
    (targets.install entries recovered).current[name]? = (entries[name]?).map fun entry =>
      mergeEntry (recovered[name]?).join targets.current[name]? entry := by
  unfold Targets.install
  dsimp only
  rw [Std.ExtTreeMap.getElem?_map]

theorem getElem?_install_pending (name : String) :
    (targets.install entries recovered).pending[name]? =
      ((entries[name]?).bind fun entry =>
        if entry.strategy.updatedAtUs <
            (mergeEntry (recovered[name]?).join targets.current[name]? entry).strategy.updatedAtUs then
          some (mergeEntry (recovered[name]?).join targets.current[name]? entry)
        else none).or
      ((targets.pending[name]?).filter fun entry =>
        (entries[name]?).any fun e => e.createdAtUs == entry.createdAtUs) := by
  unfold Targets.install
  dsimp only
  rw [OrdMap.getElem?_foldl_insert_if entries (fun (name : String) (entry : Entry F) =>
      entry.strategy.updatedAtUs <
        (mergeEntry (recovered[name]?).join targets.current[name]? entry).strategy.updatedAtUs)
    (fun name entry => mergeEntry (recovered[name]?).join targets.current[name]? entry),
    Std.ExtTreeMap.getElem?_filter']

end

namespace Inv

variable {w : World F}

theorem install (h : Inv w) {loading : Loading F} (hloading : w.loading = some loading)
    (hall : ∀ name ∈ loading.entries, name ∈ loading.recovered) :
    Inv { w with
      targets := w.targets.install loading.entries loading.recovered, loading := none } := by
  set w' : World F := { w with
    targets := w.targets.install loading.entries loading.recovered, loading := none }
  have hmerged : ∀ (name : String) c, w'.targets.current[name]? = some c →
      ∃ d x, loading.entries[name]? = some d ∧ loading.recovered[name]? = some x ∧
        mergeEntry x w.targets.current[name]? d = c ∧ c.createdAtUs = d.createdAtUs := by
    intro name c hc
    rw [getElem?_install_current] at hc
    obtain ⟨d, hd, rfl⟩ := Option.map_eq_some_iff.1 hc
    have hmem := hall name (Std.ExtTreeMap.mem_iff_isSome_getElem?.2 (by rw [hd]; rfl))
    obtain ⟨x, hx⟩ := Option.isSome_iff_exists.1 (Std.ExtTreeMap.mem_iff_isSome_getElem?.1 hmem)
    refine ⟨d, x, hd, hx, ?_, mergeEntry_createdAtUs _ _ _⟩
    rw [hx]
    rfl
  have hpending : ∀ (name : String) e, w'.targets.pending[name]? = some e →
      w'.targets.current[name]? = some e ∨ w.targets.pending[name]? = some e := by
    intro name e he
    rw [getElem?_install_pending, Option.or_eq_some_iff] at he
    rcases he with he | ⟨-, he⟩
    · obtain ⟨d, hd, he⟩ := Option.bind_eq_some_iff.1 he
      rw [Option.ite_none_right_eq_some] at he
      rw [getElem?_install_current, hd, Option.map_some]
      exact Or.inl he.2
    · exact Or.inr (Option.filter_eq_some_iff.1 he).1
  have hrow : ∀ (name : String) c, w'.targets.current[name]? = some c →
      ∃ r, w.rows[name]? = some r ∧ r.createdAtUs = c.createdAtUs := by
    intro name c hc
    obtain ⟨d, x, hd, -, -, hid⟩ := hmerged name c hc
    have hsame := h.sameRows loading hloading name
    rw [hd, Option.map_some] at hsame
    obtain ⟨r, hr, hrid⟩ := Option.map_eq_some_iff.1 hsame.symm
    exact ⟨r, hr, hrid.trans hid.symm⟩
  have hlive : ∀ (name : String) r, w.rows[name]? = some r → Live w' name r.createdAtUs := by
    intro name r hr
    have hsame := h.sameRows loading hloading name
    rw [hr, Option.map_some] at hsame
    obtain ⟨d, hd, hid⟩ := Option.map_eq_some_iff.1 hsame
    refine ⟨_, (getElem?_install_current _ _ _ _).trans (by rw [hd]; rfl), ?_⟩
    rw [mergeEntry_createdAtUs, hid]
  -- what comes into memory was somewhere
  have hcurrent : ∀ (name : String) c, w'.targets.current[name]? = some c → Held w name c := by
    intro name c hc
    obtain ⟨d, x, hd, hx, hm, hid⟩ := hmerged name c hc
    rcases mergeEntry_cases x w.targets.current[name]? d with hsame | hsame | hsame
    · exact .read hloading (hd.trans (congrArg some (hsame.symm.trans hm)))
    · rw [hm] at hsame
      exact .recovered hloading hd (hx.trans (congrArg some hsame)) hid.symm
    · rw [hm] at hsame
      exact .current hsame
  have hheld : ∀ (name : String) e, Held w' name e → Held w name e := by
    intro name e he
    rcases he with he | he | he | ⟨l, hl, -⟩ | ⟨l, entry, hl, -⟩ | he
    · exact hcurrent name e he
    · exact .row he
    · exact .stored he
    · cases hl
    · cases hl
    · rcases he with he | he | he | he | he
      · exact .process (Or.inl he)
      · rcases hpending name e he with he | he
        · exact hcurrent name e he
        · exact .process (Or.inr (Or.inl he))
      · exact .process (Or.inr (Or.inr (Or.inl he)))
      · exact .process (Or.inr (Or.inr (Or.inr (Or.inl he))))
      · exact .process (Or.inr (Or.inr (Or.inr (Or.inr he))))
  -- of a strategy that was in memory the version stays
  have hstays : ∀ (name : String) c, w'.targets.current[name]? = some c →
      Live w name c.createdAtUs → w.targets.current[name]? = some c := by
    rintro name c hc ⟨c₀, hc₀, hid₀⟩
    obtain ⟨d, x, hd, hx, hm, hid⟩ := hmerged name c hc
    have hle := live_le_mergeEntry x w.targets.current[name]? d hc₀ (hid₀.trans hid)
    rw [hm] at hle
    have hge := h.versions.newest name c c₀ (hcurrent name c hc) hc₀ hid₀
    have hsame := h.versions.agree name c₀ c (.current hc₀) (hcurrent name c hc) hid₀
      (le_antisymm hle hge)
    rw [hc₀, show c₀ = c from entry_ext hsame hid₀]
  have hnewest : ∀ (name : String) e c, Held w name e → w'.targets.current[name]? = some c →
      c.createdAtUs = e.createdAtUs → e.strategy.updatedAtUs ≤ c.strategy.updatedAtUs := by
    intro name e c he hc hid
    by_cases hold : Live w name c.createdAtUs
    · exact h.versions.newest name e c he (hstays name c hc hold) hid
    · -- its row and its archived target are still the ones that were read
      obtain ⟨d, x, hd, hx, rfl, hdid⟩ := hmerged name c hc
      obtain ⟨r, hr, hrid⟩ := hrow name _ hc
      rw [← hrid] at hold
      obtain ⟨hread, hrecovered⟩ := h.unread loading name r hloading hr hold
      obtain rfl : d = r := Option.some.inj (hd.symm.trans hread)
      rw [hdid] at hid
      rcases he with he | he | he | ⟨l, hl, he⟩ | ⟨l, entry, hl, hentry, he, -⟩ | he
      · exact absurd ⟨e, he, hid.symm⟩ hold
      · obtain rfl : d = e := Option.some.inj (hr.symm.trans he)
        exact le_mergeEntry _ _ _
      · refine recovered_le_mergeEntry _ _ _ ?_
        rw [hrecovered x hx, hid]
        exact targetOf_eq_some.2 he
      · obtain rfl : loading = l := Option.some.inj (hloading.symm.trans hl)
        obtain rfl : d = e := Option.some.inj (hd.symm.trans he)
        exact le_mergeEntry _ _ _
      · obtain rfl : loading = l := Option.some.inj (hloading.symm.trans hl)
        exact recovered_le_mergeEntry _ _ _ (Option.some.inj (hx.symm.trans he))
      · rw [hid] at hold
        exact absurd (h.live name e d he hr hid) hold
  have hversions : Versions w' := {
    named := fun name e he => h.versions.named name e (hheld name e he)
    known := fun name e he => h.versions.known name e (hheld name e he)
    agree := fun name e e' he he' => h.versions.agree name e e' (hheld name e he) (hheld name e' he')
    newest := fun name e c he => hnewest name e c (hheld name e he) }
  exact {
    versions := hversions
    live := by
      intro name e r he hr hid
      rw [← hid]
      exact hlive name r hr
    sameRows := fun l hl => nomatch hl
    grown := fun l hl => nomatch hl
    unread := fun l _ _ hl => nomatch hl
    quiet := fun name r hr hnot => absurd (hlive name r hr) hnot
    published := fun _ => hrow
    catalogued := fun name => rfl
    accepting := by
      intro e c he hc hid
      obtain ⟨r, hr, hrid⟩ := h.admitted e he
      have hprocess : InProcess w e.strategy.strategyName e :=
        Or.inr (Or.inr (Or.inr (Or.inr ⟨he, rfl⟩)))
      have hold := h.live _ e r hprocess hr hrid
      rw [← hid] at hold
      exact h.accepting e c he (hstays _ c hc hold) hid
    admitted := h.admitted
    mirroring := by
      intro name c r hc hr hid
      obtain ⟨d, x, hd, hx, hm, hdid⟩ := hmerged name c hc
      by_cases hlate : d.strategy.updatedAtUs < c.strategy.updatedAtUs
      · refine Or.inr (Or.inl ⟨c, ?_, rfl, rfl⟩)
        rw [getElem?_install_pending, hd, Option.bind_some, hx, Option.join_some, hm, if_pos hlate]
        rfl
      · -- the row that was read was the version; the row has only grown since
        refine Or.inl (hversions.agree name r c (.row hr) (.current hc) hid ?_)
        refine le_antisymm (hversions.newest name r c (.row hr) hc hid.symm) ?_
        exact (not_lt.1 hlate).trans (h.grown loading hloading name d r hd hr)
    settled := h.settled
    order := h.order
    latest := by
      rintro name c hc ⟨job, hjob, hid⟩
      obtain ⟨r, hr, hrid⟩ := hrow name c hc
      obtain ⟨hmem, hname⟩ := List.mem_filter.1 hjob
      have hprocess : InProcess w name job.entry :=
        Or.inl ⟨job, hmem, of_decide_eq_true hname, rfl⟩
      have hold := h.live name job.entry r hprocess hr (hrid.trans hid.symm)
      rw [show job.entry.createdAtUs = c.createdAtUs from hid] at hold
      exact h.latest name c (hstays name c hc hold) ⟨job, hjob, hid⟩
    stored := h.stored
    recoverable := by
      intro name c r hc hr hid hjobs
      by_cases hold : Live w name c.createdAtUs
      · exact h.recoverable name c r (hstays name c hc hold) hr hid hjobs
      · -- it is the row, or the archived target that was read beside it
        obtain ⟨d, x, hd, hx, hm, hdid⟩ := hmerged name c hc
        rw [← hid] at hold
        obtain ⟨hread, hrecovered⟩ := h.unread loading name r hloading hr hold
        obtain rfl : d = r := Option.some.inj (hd.symm.trans hread)
        rw [hrecovered x hx] at hm
        rcases mergeEntry_cases (targetOf w.archive.db name d.createdAtUs)
          w.targets.current[name]? d with hsame | hsame | hsame
        · exact Or.inl (congrArg Entry.strategy (hsame.symm.trans hm))
        · rw [hm] at hsame
          rcases h.quiet name d hr hold with hnone | hqueue
          · rw [hnone] at hsame
            cases hsame
          · rw [← hid]
            exact Or.inr ⟨hsame, ofName_eq_nil hqueue⟩
        · rw [hm] at hsame
          exact absurd ⟨c, hsame, hid.symm⟩ hold }

end Inv

/-! ## Runs -/

/-- A version of `name` in a store. -/
def Stored (archive : PositionArchive F) (rows : OrdMap String (Entry F)) (name : String)
    (e : Entry F) : Prop :=
  rows[name]? = some e ∨ archive.db.current[name]? = some (e.createdAtUs, e.strategy)

/-- Stores that a process can start with. -/
structure Stores (archive : PositionArchive F) (rows : OrdMap String (Entry F))
    (identities : List (String × Int)) : Prop where
  named : ∀ name e, Stored archive rows name e → e.strategy.strategyName = name
  known : ∀ name e, Stored archive rows name e → (name, e.createdAtUs) ∈ identities
  agree : ∀ name e e', Stored archive rows name e → Stored archive rows name e' →
    e.createdAtUs = e'.createdAtUs → e.strategy.updatedAtUs = e'.strategy.updatedAtUs →
      e.strategy = e'.strategy

namespace Inv

theorem start {archive : PositionArchive F} {rows : OrdMap String (Entry F)}
    {identities : List (String × Int)} (h : Stores archive rows identities) :
    Inv (.start archive rows identities) := by
  have hempty : ∀ (name : String) (e : Entry F), (∅ : OrdMap String (Entry F))[name]? ≠ some e := by
    intro name e he
    rw [Std.ExtTreeMap.getElem?_empty] at he
    cases he
  have hprocess : ∀ (name : String) e, ¬InProcess (.start archive rows identities) name e := by
    intro name e he
    rcases he with ⟨job, hjob, -⟩ | he | he | he | ⟨he, -⟩
    · cases hjob
    · exact hempty name e he
    · cases he
    · cases he
    · cases he
  have hheld : ∀ (name : String) e, Held (.start archive rows identities) name e →
      Stored archive rows name e := by
    intro name e he
    rcases he with he | he | he | ⟨l, hl, -⟩ | ⟨l, entry, hl, -⟩ | he
    · exact absurd he (hempty name e)
    · exact Or.inl he
    · exact Or.inr he
    · cases hl
    · cases hl
    · exact absurd he (hprocess name e)
  exact {
    versions := {
      named := fun name e he => h.named name e (hheld name e he)
      known := fun name e he => h.known name e (hheld name e he)
      agree := fun name e e' he he' => h.agree name e e' (hheld name e he) (hheld name e' he')
      newest := fun name e c he hc => absurd hc (hempty name c) }
    live := fun name e r he => absurd he (hprocess name e)
    sameRows := fun l hl => nomatch hl
    grown := fun l hl => nomatch hl
    unread := fun l _ _ hl => nomatch hl
    quiet := fun name r _ _ => Or.inr fun job hjob => nomatch hjob
    published := fun hready => nomatch hready
    catalogued := fun name => rfl
    accepting := fun e c he => nomatch he
    admitted := fun e he => nomatch he
    mirroring := fun name c r hc => absurd hc (hempty name c)
    settled := fun name e r hm => nomatch hm
    order := rfl
    latest := fun name c hc => absurd hc (hempty name c)
    stored := fun name job hjob => nomatch hjob
    recoverable := fun name c r hc => absurd hc (hempty name c) }

/-- What a world leaves behind. -/
theorem stores {w : World F} (h : Inv w) :
    Stores (.openDb w.archive.db) w.rows w.identities := by
  have hheld : ∀ (name : String) e, Stored (.openDb w.archive.db) w.rows name e →
      Held w name e := fun name e he => he.elim .row .stored
  exact {
    named := fun name e he => h.versions.named name e (hheld name e he)
    known := fun name e he => h.versions.known name e (hheld name e he)
    agree := fun name e e' he he' =>
      h.versions.agree name e e' (hheld name e he) (hheld name e' he') }

end Inv

theorem identity_nextVersion {targets : Targets F} {request : PositionStrategy F} {nowUs : Int}
    {entry : Entry F} (h : targets.nextVersion request nowUs = some entry) :
    ∃ known, targets.catalog[entry.strategy.strategyName]? = some known ∧
      known.createdAtUs = entry.createdAtUs := by
  unfold Targets.nextVersion at h
  split at h
  · cases h
  · next known hknown =>
    cases h
    exact ⟨known, hknown, rfl⟩

theorem admitEntry_eq_ok {targets targets' : Targets F} {entry : Entry F}
    {accounts : List (ArchivedPublishedAccount F)} (h : targets.admitEntry entry accounts = .ok targets') :
    targets' = { targets with
      archivePending := targets.archivePending ++ [⟨entry.strategy, entry.createdAtUs, accounts⟩]
      current := targets.current.insert entry.strategy.strategyName entry } := by
  unfold Targets.admitEntry at h
  rw [bind_eq_ok] at h
  obtain ⟨_, -, h⟩ := h
  cases h
  rfl

section

variable [DecidableEq F] [F64 F] [Text.Unicode]

/-- Every step keeps the invariant. -/
theorem Inv.step {w w' : World F} (h : Inv w) (hstep : Step w w') : Inv w' := by
  cases hstep with
  | edit hidle => exact h.edit
  | close => exact h.close
  | create name entry hidle hname hnew hfresh => exact h.create hidle hname hnew hfresh
  | remove name hidle hclosed hlock => exact h.remove name hidle hclosed hlock
  | admission request nowUs entry accounts targets hready hlock hentry hadmitted =>
    obtain ⟨known, hknown, hid⟩ := identity_nextVersion hentry
    have hcatalog := h.catalogued entry.strategy.strategyName
    rw [hknown, Option.map_some] at hcatalog
    obtain ⟨c, hc, hcid⟩ := Option.map_eq_some_iff.1 hcatalog.symm
    obtain rfl := admitEntry_eq_ok hadmitted
    exact h.admission hready hlock hc (hcid.trans hid) (Targets.lt_nextVersion hentry hc)
  | accept entry haccepting => exact h.accept haccepting
  | flushFront outcome => exact h.flushFront outcome
  | append receivedAtUs strategy factualPositions publishedAccounts outcome =>
    exact h.append (append_current _ _ _ _ _ _)
  | flush hdone hsettled => exact h.flush
  | updated name entry rest hnext hsettled =>
    have hentry : InProcess w name entry :=
      Or.inr (Or.inr (Or.inl (by rw [hnext]; exact List.mem_cons_self)))
    refine (h.update hentry hsettled).next (fun p hp => ?_) fun name' e hm => ?_
    · show p ∈ w.flushing
      rw [hnext]
      exact List.mem_cons_of_mem _ hp
    · obtain ⟨rfl, rfl⟩ := Prod.mk.inj (Option.some.inj hm)
      refine ⟨hentry, fun r hr hid => ?_⟩
      obtain ⟨row, hrow, hrid, -, ⟨rfl, hle⟩ | ⟨-, rfl⟩⟩ := row_of_updateRow hr
        (fun row hrow => h.versions.named _ row (.row hrow))
        (h.versions.named _ _ (.process hentry))
      · exact hle rfl hid
      · exact le_refl _
  | updateFailed name entry rest applied hnext hsettled =>
    have hentry : InProcess w name entry :=
      Or.inr (Or.inr (Or.inl (by rw [hnext]; exact List.mem_cons_self)))
    have hrest : ∀ p ∈ rest, p ∈ w.flushing := by
      intro p hp
      rw [hnext]
      exact List.mem_cons_of_mem _ hp
    have hnone : ∀ (name' : String) (e : Entry F), w.mirrored ≠ some (name', e) := by
      intro name' e hm
      rw [hsettled] at hm
      cases hm
    cases applied with
    | false => exact h.next hrest fun name' e hm => absurd hm (hnone name' e)
    | true => exact (h.update hentry hsettled).next hrest fun name' e hm => absurd hm (hnone name' e)
  | settle name entry hmirrored => exact h.settle hmirrored
  | read hidle => exact h.read
  | recover loading name entry target hloading hentry htarget =>
    obtain ⟨rfl, -⟩ := currentTarget_eq_ok.1 htarget
    exact h.recover hloading hentry
  | abort => exact h.abort
  | install loading hloading hall => exact h.install hloading hall
  | restart => exact Inv.start h.stores

/-- A world that a process reaches from its stores. -/
def Reached (w : World F) : Prop :=
  ∃ archive rows identities, Stores archive rows identities ∧
    Relation.ReflTransGen Step (.start archive rows identities) w

theorem Reached.inv {w : World F} (h : Reached w) : Inv w := by
  obtain ⟨archive, rows, identities, hstores, hrun⟩ := h
  induction hrun with
  | refl => exact Inv.start hstores
  | tail _ hstep ih => exact ih.step hstep

/-- Nothing is later than the version in memory, neither in a store nor in a queue. -/
theorem memory_newest {w : World F} (h : Reached w) {name : String} {c e : Entry F}
    (hc : w.targets.current[name]? = some c) (he : Held w name e)
    (hid : e.createdAtUs = c.createdAtUs) :
    e.strategy.updatedAtUs ≤ c.strategy.updatedAtUs ∧
      (e.strategy.updatedAtUs = c.strategy.updatedAtUs → e = c) := by
  have hversions := h.inv.versions
  refine ⟨hversions.newest name e c he hc hid.symm, fun hat => ?_⟩
  exact entry_ext (hversions.agree name e c he (.current hc) hid hat) hid

/-- The archive loses no accepted version and keeps their order; PostgreSQL has the version in
memory, or is to get it. -/
theorem accepted_durable {w : World F} (h : Reached w) :
    w.accepted = w.archived ++ w.targets.archivePending ∧
      ∀ (name : String) (c r : Entry F), w.targets.current[name]? = some c →
        w.rows[name]? = some r → r.createdAtUs = c.createdAtUs →
          r = c ∨ w.targets.pending[name]? = some c ∨ w.accepting = some c := by
  refine ⟨h.inv.order, fun name c r hc hr hid => ?_⟩
  rcases h.inv.mirroring name c r hc hr hid with hsame | ⟨p, hp, hpid, hps⟩ | ⟨e, he, -, heid, hes⟩
  · exact Or.inl (entry_ext hsame hid)
  · rw [show p = c from entry_ext hps hpid] at hp
    exact Or.inr (Or.inl hp)
  · rw [show e = c from entry_ext hes heid] at he
    exact Or.inr (Or.inr he)

/-- Every archived target passes the check of a target. -/
def ValidTargets (db : ArchiveDb F) : Prop :=
  ∀ (name : String) p, db.current[name]? = some p → p.2.validate = .ok ()

omit [DecidableEq F] in
theorem ValidTargets.of_current {db db' : ArchiveDb F} (h : ValidTargets db)
    (hcurrent : db'.current = db.current) : ValidTargets db' := by
  intro name p hp
  rw [hcurrent] at hp
  exact h name p hp

theorem ValidTargets.step {w w' : World F} (h : ValidTargets w.archive.db) (hstep : Step w w') :
    ValidTargets w'.archive.db := by
  cases hstep with
  | flushFront outcome =>
    intro name p hp
    unfold Targets.flushFront at hp
    cases hqueue : w.targets.archivePending with
    | nil =>
      rw [hqueue] at hp
      exact h name p hp
    | cons front rest =>
      rw [hqueue] at hp
      dsimp only at hp
      have hstored := @validate_appendTarget F _ _ _ w.archive front.strategy front.createdAtUs
        front.accounts outcome name p
      generalize w.archive.appendTarget front.strategy front.createdAtUs front.accounts outcome =
        result at hp hstored
      obtain ⟨archive, message | message⟩ := result
      · exact (hstored hp).elim (h name p) id
      · exact (hstored hp).elim (h name p) id
  | append receivedAtUs strategy factualPositions publishedAccounts outcome =>
    exact h.of_current (append_current _ _ _ _ _ _)
  | _ => exact h

theorem ValidTargets.run {w w' : World F} (h : ValidTargets w.archive.db)
    (hrun : Relation.ReflTransGen Step w w') : ValidTargets w'.archive.db := by
  induction hrun with
  | refl => exact h
  | tail _ hstep ih => exact ih.step hstep

/-- The targets of a process that is started again and reads the catalog. -/
def World.reloaded (w : World F) : Except ArchiveError (Targets F) := do
  let w := World.start (.openDb w.archive.db) w.rows w.identities
  let recovered ← recoverTargets w.archive w.rows
  return w.targets.install w.rows recovered

omit [DecidableEq F] in
/-- When all archived targets pass their checks, the ones of the rows are read. -/
theorem recoverTargets_eq_ok (archive : PositionArchive F) (entries : OrdMap String (Entry F))
    (h : ∀ (name : String) p, archive.db.current[name]? = some p →
      p.2.strategyName = name ∧ p.2.validate = .ok ()) :
    ∃ recovered, recoverTargets archive entries = .ok recovered ∧
      ∀ name : String, recovered[name]? =
        (entries[name]?).map fun entry => targetOf archive.db name entry.createdAtUs := by
  have hread : recoverTargets archive entries = entries.toList.foldlM (fun recovered p =>
      (pure (recovered.insert p.1 (targetOf archive.db p.1 p.2.createdAtUs)) :
        Except ArchiveError (OrdMap String (Option (PositionStrategy F))))) ∅ := by
    unfold recoverTargets
    refine foldlM_congr (fun p _ recovered => ?_) _
    rw [currentTarget_eq_ok.2 ⟨rfl, h p.1⟩]
    rfl
  rw [List.foldlM_pure] at hread
  refine ⟨_, hread, fun name => ?_⟩
  have hget := OrdMap.getElem?_foldl_insert_if entries (fun _ _ => True)
    (fun name entry => targetOf archive.db name entry.createdAtUs) ∅ name
  simp only [if_true] at hget
  rw [hget, Std.ExtTreeMap.getElem?_empty, Option.or_none]
  cases entries[name]? with
  | none => rfl
  | some entry => rfl

/-- The later of the row and the archived target is the version in memory. -/
theorem mergeEntry_reloaded {w : World F} (h : Reached w) {name : String} {c r : Entry F}
    (hc : w.targets.current[name]? = some c) (hr : w.rows[name]? = some r)
    (hid : r.createdAtUs = c.createdAtUs)
    (hdrained : ∀ job ∈ w.targets.archivePending, job.name ≠ name) :
    mergeEntry (targetOf w.archive.db name r.createdAtUs) none r = c := by
  have hnone : ∀ job ∈ ofName name w.targets.archivePending, job.createdAtUs ≠ c.createdAtUs := by
    rw [ofName_eq_nil hdrained]
    exact fun job hjob => nomatch hjob
  have hmid := mergeEntry_createdAtUs (targetOf w.archive.db name r.createdAtUs) none r
  -- one of the two is the version in memory
  have hge : c.strategy.updatedAtUs ≤
      (mergeEntry (targetOf w.archive.db name r.createdAtUs) none r).strategy.updatedAtUs := by
    rcases h.inv.recoverable name c r hc hr hid hnone with hsame | ⟨hsame, -⟩
    · rw [← hsame]
      exact le_mergeEntry _ _ _
    · rw [← hid] at hsame
      exact recovered_le_mergeEntry _ _ _ hsame
  -- and what is merged is in a store, so it is not later
  have hheld : Held w name (mergeEntry (targetOf w.archive.db name r.createdAtUs) none r) := by
    rcases mergeEntry_cases (targetOf w.archive.db name r.createdAtUs) none r with
      hsame | hsame | hsame
    · rw [hsame]
      exact .row hr
    · refine .stored ?_
      rw [hmid]
      exact targetOf_eq_some.1 hsame
    · cases hsame
  obtain ⟨hle, heq⟩ := memory_newest h hc hheld (hmid.trans hid)
  exact heq (le_antisymm hle hge)

/-- A restart loses no version that has left the queue, also when PostgreSQL has never had it. -/
theorem reloaded_current {archive : PositionArchive F} {rows : OrdMap String (Entry F)}
    {identities : List (String × Int)} (hstores : Stores archive rows identities)
    (hvalid : ValidTargets archive.db) {w : World F}
    (hrun : Relation.ReflTransGen Step (.start archive rows identities) w) {name : String}
    {c r : Entry F} (hc : w.targets.current[name]? = some c) (hr : w.rows[name]? = some r)
    (hid : r.createdAtUs = c.createdAtUs)
    (hdrained : ∀ job ∈ w.targets.archivePending, job.name ≠ name) :
    ∃ targets, w.reloaded = .ok targets ∧ targets.current[name]? = some c := by
  have hreached : Reached w := ⟨archive, rows, identities, hstores, hrun⟩
  have hinv := hreached.inv
  have hchecked : ValidTargets w.archive.db := ValidTargets.run (w := .start archive rows identities)
    hvalid hrun
  obtain ⟨recovered, hread, hrecovered⟩ := recoverTargets_eq_ok (.openDb w.archive.db) w.rows
    fun name p hp =>
      ⟨hinv.versions.named name ⟨p.2, p.1⟩ (.stored hp), hchecked name p hp⟩
  refine ⟨Targets.default.install w.rows recovered, ?_, ?_⟩
  · unfold World.reloaded
    dsimp only [World.start]
    rw [hread]
    rfl
  · rw [getElem?_install_current, hr, Option.map_some, hrecovered, hr, Option.map_some,
      Option.join_some]
    exact congrArg some (mergeEntry_reloaded hreached hc hr hid hdrained)

end

section

attribute [local instance] Text.Unicode.ascii

def sampleEntry (updatedAtUs : Int) : Entry ℚ := ⟨⟨"trend", ∅, ∅, updatedAtUs⟩, 7⟩

def sampleRows : OrdMap String (Entry ℚ) :=
  (∅ : OrdMap String (Entry ℚ)).insert "trend" (sampleEntry 1)

/-- A process that has read the catalog of one strategy. -/
def sampleLoaded (archive : PositionArchive ℚ) (target : Option (PositionStrategy ℚ)) : World ℚ :=
  { World.start archive sampleRows [("trend", 7)] with
    targets := Targets.default.install sampleRows
      ((∅ : OrdMap String (Option (PositionStrategy ℚ))).insert "trend" target) }

theorem sampleLoaded_run {archive : PositionArchive ℚ} {target : Option (PositionStrategy ℚ)}
    (htarget : archive.currentTarget "trend" 7 = .ok target) :
    Relation.ReflTransGen Step (.start archive sampleRows [("trend", 7)])
      (sampleLoaded archive target) := by
  have hread : Step (.start archive sampleRows [("trend", 7)])
      { World.start archive sampleRows [("trend", 7)] with
        loading := some ⟨sampleRows, ∅⟩ } := .read _ rfl
  have hrecover := Step.recover
    { World.start archive sampleRows [("trend", 7)] with loading := some ⟨sampleRows, ∅⟩ }
    ⟨sampleRows, ∅⟩ "trend" (sampleEntry 1) target rfl (OrdMap.getElem?_insert_of_key _ _ _ _)
    htarget
  have hall : ∀ name ∈ sampleRows,
      name ∈ (∅ : OrdMap String (Option (PositionStrategy ℚ))).insert "trend" target := by
    intro name hname
    unfold sampleRows at hname
    rw [Std.ExtTreeMap.mem_insert] at hname
    refine Std.ExtTreeMap.mem_insert.2 (hname.imp_right fun hempty => ?_)
    exact absurd hempty Std.ExtTreeMap.not_mem_empty
  have hinstall := Step.install
    { World.start archive sampleRows [("trend", 7)] with
      loading := some ⟨sampleRows, (∅ : OrdMap String _).insert "trend" target⟩ }
    ⟨sampleRows, (∅ : OrdMap String _).insert "trend" target⟩ rfl hall
  exact .tail (.tail (.single hread) hrecover) hinstall

/-- A request was accepted. -/
def sampleAccepted : World ℚ :=
  let w := sampleLoaded (.openDb .empty) none
  { w with
    targets := ({ w.targets with
      archivePending := [⟨(sampleEntry 2).strategy, 7, []⟩]
      current := w.targets.current.insert "trend" (sampleEntry 2) }).acceptPending (sampleEntry 2)
    accepted := [⟨(sampleEntry 2).strategy, 7, []⟩] }

/-- The archive has stored it, and PostgreSQL has not. -/
def sampleArchived : World ℚ :=
  { sampleAccepted with
    targets := (sampleAccepted.targets.flushFront sampleAccepted.archive .committed).1
    archive := (sampleAccepted.targets.flushFront sampleAccepted.archive .committed).2.1
    archived := sampleAccepted.accepted }

theorem sampleArchived_run : Relation.ReflTransGen Step
    (.start (.openDb .empty) sampleRows [("trend", 7)]) sampleArchived := by
  have hloaded := @sampleLoaded_run (.openDb .empty) none (by decide +kernel)
  have haccepted : Relation.ReflTransGen Step (sampleLoaded (.openDb .empty) none) sampleAccepted :=
    .tail (.tail .refl (.admission _ (sampleEntry 2).strategy 2 (sampleEntry 2) [] _ rfl rfl
      (by decide +kernel) rfl)) (.accept _ _ rfl)
  exact (hloaded.trans haccepted).tail (.flushFront sampleAccepted .committed)

theorem sampleStores : Stores (F := ℚ) (.openDb .empty) sampleRows [("trend", 7)] := by
  have hrow : ∀ name e, Stored (.openDb .empty) sampleRows name e →
      name = "trend" ∧ e = sampleEntry 1 := by
    intro name e he
    unfold sampleRows at he
    rcases he with he | he
    · rw [OrdMap.getElem?_insert_of_key] at he
      split at he
      · next hname => exact ⟨hname.symm, (Option.some.inj he).symm⟩
      · rw [Std.ExtTreeMap.getElem?_empty] at he
        cases he
    · rw [show (PositionArchive.openDb (ArchiveDb.empty (F := ℚ))).db.current = ∅ from rfl,
        Std.ExtTreeMap.getElem?_empty] at he
      cases he
  exact {
    named := by
      intro name e he
      obtain ⟨rfl, rfl⟩ := hrow name e he
      rfl
    known := by
      intro name e he
      obtain ⟨rfl, rfl⟩ := hrow name e he
      exact List.mem_singleton_self _
    agree := by
      intro name e e' he he' _ _
      rw [(hrow name e he).2, (hrow name e' he').2] }

theorem sampleArchived_reached : Reached sampleArchived :=
  ⟨_, _, _, sampleStores, sampleArchived_run⟩

theorem memory_newest_sample :
    (sampleEntry 1).strategy.updatedAtUs ≤ (sampleEntry 2).strategy.updatedAtUs ∧
      ((sampleEntry 1).strategy.updatedAtUs = (sampleEntry 2).strategy.updatedAtUs →
        sampleEntry 1 = sampleEntry 2) :=
  have hrow : Held sampleArchived "trend" (sampleEntry 1) := .row (by decide +kernel)
  memory_newest sampleArchived_reached (by decide +kernel) hrow rfl

theorem accepted_durable_sample :
    sampleArchived.accepted = sampleArchived.archived ++ sampleArchived.targets.archivePending ∧
      (sampleEntry 1 = sampleEntry 2 ∨
        sampleArchived.targets.pending["trend"]? = some (sampleEntry 2) ∨
          sampleArchived.accepting = some (sampleEntry 2)) := by
  obtain ⟨horder, hmirror⟩ := accepted_durable sampleArchived_reached
  exact ⟨horder, hmirror "trend" (sampleEntry 2) (sampleEntry 1) (by decide +kernel)
    (by decide +kernel) rfl⟩

/-- The process was started again.  No version was accepted since. -/
def sampleRestarted : World ℚ :=
  sampleLoaded (.openDb sampleArchived.archive.db) (some (sampleEntry 2).strategy)

/-- A second restart, with the first version still in PostgreSQL. -/
theorem reloaded_current_sample :
    ∃ targets, sampleRestarted.reloaded = .ok targets ∧
      targets.current["trend"]? = some (sampleEntry 2) := by
  have hrun : Relation.ReflTransGen Step (.start (.openDb .empty) sampleRows [("trend", 7)])
      sampleRestarted :=
    (sampleArchived_run.tail (.restart sampleArchived)).trans
      (sampleLoaded_run (by decide +kernel))
  have hvalid : ValidTargets (F := ℚ) (PositionArchive.openDb .empty).db := by
    intro name p hp
    rw [show (PositionArchive.openDb (ArchiveDb.empty (F := ℚ))).db.current = ∅ from rfl,
      Std.ExtTreeMap.getElem?_empty] at hp
    cases hp
  exact reloaded_current (r := sampleEntry 1) sampleStores hvalid hrun (by decide +kernel)
    (by decide +kernel) rfl (by decide +kernel)

end

end CtaManager.Web
