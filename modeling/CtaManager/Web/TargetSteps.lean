import CtaManager.Web.TargetRuns

/-!
The steps of the live targets.

Each keeps the invariant, but for the end of a reading of the catalog, which is in
`Web.TargetDurable`.
-/

namespace CtaManager.Web

open Archive Catalog Check

variable {F : Type}

namespace Inv

variable {w : World F}

theorem edit (h : Inv w) : Inv { w with targets := w.targets.edit } :=
  { h with published := fun hready => nomatch hready
           versions := ⟨h.versions.named, h.versions.known, h.versions.agree, h.versions.newest⟩ }

theorem close (h : Inv w) : Inv { w with targets := w.targets.close } :=
  { h with versions := ⟨h.versions.named, h.versions.known, h.versions.agree, h.versions.newest⟩ }

/-- Another message in the archive. -/
theorem append (h : Inv w) {archive : PositionArchive F}
    (hcurrent : archive.db.current = w.archive.db.current) : Inv { w with archive } := by
  obtain ⟨⟨updates, current⟩, head, writes⟩ := archive
  obtain rfl : current = w.archive.db.current := hcurrent
  exact { h with
    versions := ⟨h.versions.named, h.versions.known, h.versions.agree, h.versions.newest⟩ }

theorem abort (h : Inv w) : Inv { w with loading := none } where
  versions := h.versions.of_held (fun name e he => by
    rcases he with he | he | he | ⟨l, hl, -⟩ | ⟨l, entry, hl, -⟩ | he
    · exact .current he
    · exact .row he
    · exact .stored he
    · cases hl
    · cases hl
    · exact .process he) rfl rfl
  live := h.live
  sameRows := fun l hl => nomatch hl
  grown := fun l hl => nomatch hl
  unread := fun l _ _ hl => nomatch hl
  quiet := h.quiet
  published := h.published
  catalogued := h.catalogued
  accepting := h.accepting
  admitted := h.admitted
  mirroring := h.mirroring
  settled := h.settled
  order := h.order
  latest := h.latest
  stored := h.stored
  recoverable := h.recoverable

theorem read (h : Inv w) : Inv { w with loading := some ⟨w.rows, ∅⟩ } where
  versions := h.versions.of_held (fun name e he => by
    rcases he with he | he | he | ⟨l, hl, he⟩ | ⟨l, entry, hl, -, he, -⟩ | he
    · exact .current he
    · exact .row he
    · exact .stored he
    · cases hl
      exact .row he
    · cases hl
      rw [Std.ExtTreeMap.getElem?_empty] at he
      cases he
    · exact .process he) rfl rfl
  live := h.live
  sameRows := by
    intro l hl name
    cases hl
    rfl
  grown := by
    intro l hl name e r he hr
    cases hl
    rw [Option.some.inj (he.symm.trans hr)]
  unread := by
    intro l name r hl hr _
    cases hl
    refine ⟨hr, fun x hx => ?_⟩
    rw [Std.ExtTreeMap.getElem?_empty] at hx
    cases hx
  quiet := h.quiet
  published := h.published
  catalogued := h.catalogued
  accepting := h.accepting
  admitted := h.admitted
  mirroring := h.mirroring
  settled := h.settled
  order := h.order
  latest := h.latest
  stored := h.stored
  recoverable := h.recoverable

theorem recover (h : Inv w) {loading : Loading F} {name : String} {entry : Entry F}
    (hloading : w.loading = some loading) (hentry : loading.entries[name]? = some entry) :
    Inv { w with loading := some { loading with
      recovered := loading.recovered.insert name
        (targetOf w.archive.db name entry.createdAtUs) } } where
  versions := h.versions.of_held (fun name' e he => by
    rcases he with he | he | he | ⟨l, hl, he⟩ | ⟨l, entry', hl, hentry', he, hid⟩ | he
    · exact .current he
    · exact .row he
    · exact .stored he
    · cases hl
      exact .read hloading he
    · cases hl
      dsimp only at he hentry'
      rw [OrdMap.getElem?_insert_of_key] at he
      split at he
      · next hname =>
        -- the target that was just read
        subst hname
        obtain rfl : entry = entry' := Option.some.inj (hentry.symm.trans hentry')
        refine .stored (targetOf_eq_some.1 ?_)
        rw [← hid]
        exact Option.some.inj he
      · exact .recovered hloading hentry' he hid
    · exact .process he) rfl rfl
  live := h.live
  sameRows := by
    intro l hl
    cases hl
    exact h.sameRows loading hloading
  grown := by
    intro l hl
    cases hl
    exact h.grown loading hloading
  unread := by
    intro l name' r hl hr hlive
    cases hl
    obtain ⟨hread, hrecovered⟩ := h.unread loading name' r hloading hr hlive
    refine ⟨hread, fun x hx => ?_⟩
    dsimp only at hx
    rw [OrdMap.getElem?_insert_of_key] at hx
    split at hx
    · next hname =>
      subst hname
      obtain rfl : entry = r := Option.some.inj (hentry.symm.trans hread)
      exact (Option.some.inj hx).symm
    · exact hrecovered x hx
  quiet := h.quiet
  published := h.published
  catalogued := h.catalogued
  accepting := h.accepting
  admitted := h.admitted
  mirroring := h.mirroring
  settled := h.settled
  order := h.order
  latest := h.latest
  stored := h.stored
  recoverable := h.recoverable

/-! ### The writer of PostgreSQL -/

theorem flush (h : Inv w) : Inv { w with flushing := w.targets.pending.toList } where
  versions := h.versions.of_held (fun name e he => by
    rcases he with he | he | he | ⟨l, hl, he⟩ | ⟨l, entry, hl, hentry, he, hid⟩ | he
    · exact .current he
    · exact .row he
    · exact .stored he
    · exact .read hl he
    · exact .recovered hl hentry he hid
    · rcases he with he | he | he | he | he
      · exact .process (Or.inl he)
      · exact .process (Or.inr (Or.inl he))
      · exact .process (Or.inr (Or.inl (OrdMap.mem_toList.1 he)))
      · exact .process (Or.inr (Or.inr (Or.inr (Or.inl he))))
      · exact .process (Or.inr (Or.inr (Or.inr (Or.inr he))))) rfl rfl
  live name e r he := by
    refine h.live name e r ?_
    rcases he with he | he | he | he | he
    · exact Or.inl he
    · exact Or.inr (Or.inl he)
    · exact Or.inr (Or.inl (OrdMap.mem_toList.1 he))
    · exact Or.inr (Or.inr (Or.inr (Or.inl he)))
    · exact Or.inr (Or.inr (Or.inr (Or.inr he)))
  sameRows := h.sameRows
  grown := h.grown
  unread := h.unread
  quiet := h.quiet
  published := h.published
  catalogued := h.catalogued
  accepting := h.accepting
  admitted := h.admitted
  mirroring := h.mirroring
  settled := h.settled
  order := h.order
  latest := h.latest
  stored := h.stored
  recoverable := h.recoverable

end Inv

theorem getElem?_updateRow (rows : OrdMap String (Entry F)) (name : String) (entry : Entry F)
    (name' : String) : (updateRow rows name entry)[name']? =
      (rows[name']?).map fun row =>
        if name = name' ∧ row.createdAtUs = entry.createdAtUs ∧
            row.strategy.updatedAtUs ≤ entry.strategy.updatedAtUs then
          { row with strategy := { entry.strategy with strategyName := row.strategy.strategyName } }
        else row := by
  unfold updateRow
  by_cases hname : name = name'
  · subst hname
    cases hrow : rows[name]? with
    | none => exact hrow
    | some row =>
      dsimp only [Option.map_some]
      by_cases hlate : row.createdAtUs = entry.createdAtUs ∧
          row.strategy.updatedAtUs ≤ entry.strategy.updatedAtUs
      · rw [if_pos hlate, if_pos ⟨rfl, hlate⟩, OrdMap.getElem?_insert_of_key, if_pos rfl]
      · rw [if_neg hlate, if_neg fun h => hlate h.2, hrow]
  · have hsame : ∀ row : Entry F, (if name = name' ∧ row.createdAtUs = entry.createdAtUs ∧
        row.strategy.updatedAtUs ≤ entry.strategy.updatedAtUs then
          { row with strategy := { entry.strategy with strategyName := row.strategy.strategyName } }
        else row) = row := fun row => if_neg fun h => hname h.1
    simp only [hsame, Option.map_id']
    cases rows[name]? with
    | none => rfl
    | some row =>
      dsimp only
      split
      · rw [OrdMap.getElem?_insert_of_key, if_neg hname]
      · rfl

/-- A row after the `UPDATE`: what it was, or the written version. -/
theorem row_of_updateRow {rows : OrdMap String (Entry F)} {name name' : String} {entry r : Entry F}
    (h : (updateRow rows name entry)[name']? = some r)
    (hrow : ∀ row, rows[name']? = some row → row.strategy.strategyName = name')
    (hentry : entry.strategy.strategyName = name) :
    ∃ row, rows[name']? = some row ∧ row.createdAtUs = r.createdAtUs ∧
      row.strategy.updatedAtUs ≤ r.strategy.updatedAtUs ∧
      (r = row ∧ (name = name' → row.createdAtUs = entry.createdAtUs →
        entry.strategy.updatedAtUs ≤ row.strategy.updatedAtUs) ∨ name' = name ∧ r = entry) := by
  rw [getElem?_updateRow] at h
  obtain ⟨row, hr, rfl⟩ := Option.map_eq_some_iff.1 h
  refine ⟨row, hr, ?_⟩
  by_cases hlate : name = name' ∧ row.createdAtUs = entry.createdAtUs ∧
      row.strategy.updatedAtUs ≤ entry.strategy.updatedAtUs
  · rw [if_pos hlate]
    obtain ⟨rfl, hid, hle⟩ := hlate
    refine ⟨rfl, hle, Or.inr ⟨rfl, ?_⟩⟩
    obtain ⟨⟨n, t, o, u⟩, c⟩ := entry
    obtain ⟨⟨n', t', o', u'⟩, c'⟩ := row
    have hname := hrow _ hr
    dsimp only at hname hentry hid
    subst hname hentry hid
    rfl
  · rw [if_neg hlate]
    refine ⟨rfl, le_refl _, Or.inl ⟨rfl, fun hname hid => ?_⟩⟩
    exact le_of_lt (not_le.1 fun hle => hlate ⟨hname, hid, hle⟩)

namespace Inv

variable {w : World F}

/-- Some version of the process is written to its row. -/
theorem update (h : Inv w) {name : String} {entry : Entry F} (hentry : InProcess w name entry)
    (hsettled : w.mirrored = none) :
    Inv { w with rows := updateRow w.rows name entry } := by
  have hrow : ∀ (name' : String) r, (updateRow w.rows name entry)[name']? = some r →
      ∃ row, w.rows[name']? = some row ∧ row.createdAtUs = r.createdAtUs ∧
        row.strategy.updatedAtUs ≤ r.strategy.updatedAtUs ∧ (r = row ∨ name' = name ∧ r = entry) := by
    intro name' r hr
    obtain ⟨row, h₁, h₂, h₃, h₄⟩ := row_of_updateRow hr
      (fun row hrow => h.versions.named name' row (.row hrow))
      (h.versions.named name entry (.process hentry))
    exact ⟨row, h₁, h₂, h₃, h₄.imp_left And.left⟩
  have hids : ∀ name' : String, ((updateRow w.rows name entry)[name']?).map Entry.createdAtUs =
      (w.rows[name']?).map Entry.createdAtUs := by
    intro name'
    rw [getElem?_updateRow, Option.map_map]
    congr 1
    funext row
    dsimp only [Function.comp_apply]
    split
    · rfl
    · rfl
  have hkept : ∀ (name' : String) r, w.rows[name']? = some r →
      ∃ r', (updateRow w.rows name entry)[name']? = some r' ∧ r'.createdAtUs = r.createdAtUs := by
    intro name' r hr
    have hsame := hids name'
    rw [hr] at hsame
    exact Option.map_eq_some_iff.1 hsame
  have hversions : Versions { w with rows := updateRow w.rows name entry } :=
    h.versions.of_held (fun name' e he => by
      rcases he with he | he | he | ⟨l, hl, he⟩ | ⟨l, entry', hl, hentry', he, hid⟩ | he
      · exact .current he
      · obtain ⟨row, hr, -, -, rfl | ⟨rfl, rfl⟩⟩ := hrow name' e he
        · exact .row hr
        · exact .process hentry
      · exact .stored he
      · exact .read hl he
      · exact .recovered hl hentry' he hid
      · exact .process he) rfl rfl
  -- a row that has the version in memory keeps it: the written one is between the two
  have hstays : ∀ (name' : String) c r, w.targets.current[name']? = some c →
      (updateRow w.rows name entry)[name']? = some r → r.createdAtUs = c.createdAtUs →
        ∃ row, w.rows[name']? = some row ∧ row.createdAtUs = c.createdAtUs ∧
          (row.strategy = c.strategy → r.strategy = c.strategy) := by
    intro name' c r hc hr hid
    obtain ⟨row, hrow', hrid, hle, rfl | ⟨rfl, rfl⟩⟩ := hrow name' r hr
    · exact ⟨r, hrow', hid, id⟩
    · refine ⟨row, hrow', hrid.trans hid, fun hsame => ?_⟩
      refine hversions.agree name' r c (.row hr) (.current hc) hid ?_
      refine le_antisymm (h.versions.newest name' r c (.process hentry) hc hid.symm) ?_
      rw [← hsame]
      exact hle
  exact {
    versions := hversions
    live := by
      intro name' e r he hr hid
      obtain ⟨row, hr, hrid, -⟩ := hrow name' r hr
      exact h.live name' e row he hr (hrid.trans hid)
    sameRows := fun l hl name' => (h.sameRows l hl name').trans (hids name').symm
    grown := by
      intro l hl name' e r he hr
      obtain ⟨row, hr, -, hle, -⟩ := hrow name' r hr
      exact (h.grown l hl name' e row he hr).trans hle
    unread := by
      intro l name' r hl hr hlive
      obtain ⟨row, hrow', hid, -, rfl | ⟨rfl, rfl⟩⟩ := hrow name' r hr
      · exact h.unread l name' r hl hrow' hlive
      · exact absurd (h.live name' r row hentry hrow' hid) hlive
    quiet := by
      intro name' r hr hlive
      obtain ⟨row, hrow', hid, -, rfl | ⟨rfl, rfl⟩⟩ := hrow name' r hr
      · exact h.quiet name' r hrow' hlive
      · exact absurd (h.live name' r row hentry hrow' hid) hlive
    published := by
      intro hready name' c hc
      obtain ⟨r, hr, hid⟩ := h.published hready name' c hc
      obtain ⟨r', hr', hid'⟩ := hkept name' r hr
      exact ⟨r', hr', hid'.trans hid⟩
    catalogued := h.catalogued
    accepting := h.accepting
    admitted := by
      intro e he
      obtain ⟨r, hr, hid⟩ := h.admitted e he
      obtain ⟨r', hr', hid'⟩ := hkept _ r hr
      exact ⟨r', hr', hid'.trans hid⟩
    mirroring := by
      intro name' c r hc hr hid
      obtain ⟨row, hrow', hrid, hsame⟩ := hstays name' c r hc hr hid
      exact (h.mirroring name' c row hc hrow' hrid).imp_left hsame
    settled := by
      intro name' e r hm
      rw [hsettled] at hm
      cases hm
    order := h.order
    latest := h.latest
    stored := h.stored
    recoverable := by
      intro name' c r hc hr hid hjobs
      obtain ⟨row, hrow', hrid, hsame⟩ := hstays name' c r hc hr hid
      exact (h.recoverable name' c row hc hrow' hrid hjobs).imp_left hsame }

/-- The writer goes on to the next version; what it has written may wait to be settled. -/
theorem next (h : Inv w) {rest : List (String × Entry F)} {mirrored : Option (String × Entry F)}
    (hrest : ∀ p ∈ rest, p ∈ w.flushing)
    (hmirrored : ∀ name e, mirrored = some (name, e) → InProcess w name e ∧
      ∀ r, w.rows[name]? = some r → r.createdAtUs = e.createdAtUs →
        e.strategy.updatedAtUs ≤ r.strategy.updatedAtUs) :
    Inv { w with flushing := rest, mirrored } := by
  have hprocess : ∀ (name : String) e, InProcess { w with flushing := rest, mirrored } name e →
      InProcess w name e := by
    intro name e he
    rcases he with he | he | he | he | he
    · exact Or.inl he
    · exact Or.inr (Or.inl he)
    · exact Or.inr (Or.inr (Or.inl (hrest _ he)))
    · exact (hmirrored name e he).1
    · exact Or.inr (Or.inr (Or.inr (Or.inr he)))
  exact {
    versions := h.versions.of_held (fun name e he => by
      rcases he with he | he | he | ⟨l, hl, he⟩ | ⟨l, entry, hl, hentry, he, hid⟩ | he
      · exact .current he
      · exact .row he
      · exact .stored he
      · exact .read hl he
      · exact .recovered hl hentry he hid
      · exact .process (hprocess name e he)) rfl rfl
    live := fun name e r he => h.live name e r (hprocess name e he)
    sameRows := h.sameRows
    grown := h.grown
    unread := h.unread
    quiet := h.quiet
    published := h.published
    catalogued := h.catalogued
    accepting := h.accepting
    admitted := h.admitted
    mirroring := h.mirroring
    settled := fun name e r hm => (hmirrored name e hm).2 r
    order := h.order
    latest := h.latest
    stored := h.stored
    recoverable := h.recoverable }

theorem settle (h : Inv w) {name : String} {entry : Entry F}
    (hmirrored : w.mirrored = some (name, entry)) :
    Inv { w with targets := w.targets.settle name entry, mirrored := none } := by
  have hcases : w.targets.settle name entry = w.targets ∨
      (∃ p, w.targets.pending[name]? = some p ∧ p.createdAtUs = entry.createdAtUs ∧
        p.strategy.updatedAtUs = entry.strategy.updatedAtUs) ∧
      w.targets.settle name entry =
        { w.targets with pending := w.targets.pending.erase name } := by
    unfold Targets.settle
    split
    · next hmatch =>
      obtain ⟨p, hp, hmatch⟩ := (Option.any_eq_true _ _).1 hmatch
      simp only [Bool.and_eq_true, beq_iff_eq] at hmatch
      exact Or.inr ⟨⟨p, hp, hmatch⟩, rfl⟩
    · exact Or.inl rfl
  have hgone := h.next (fun p hp => hp)
    fun name e (hm : (none : Option (String × Entry F)) = some (name, e)) => nomatch hm
  rcases hcases with heq | ⟨⟨p, hp, hpid, hpat⟩, heq⟩
  · rw [heq]
    exact hgone
  · rw [heq]
    have herase : ∀ (name' : String) (e : Entry F),
        (w.targets.pending.erase name)[name']? = some e → w.targets.pending[name']? = some e := by
      intro name' e he
      rw [Std.ExtTreeMap.getElem?_erase] at he
      split at he
      · cases he
      · exact he
    have hprocess : ∀ (name' : String) e, InProcess { w with
          targets := { w.targets with pending := w.targets.pending.erase name }
          mirrored := none } name' e → InProcess w name' e := by
      intro name' e he
      rcases he with he | he | he | he | he
      · exact Or.inl he
      · exact Or.inr (Or.inl (herase name' e he))
      · exact Or.inr (Or.inr (Or.inl he))
      · cases he
      · exact Or.inr (Or.inr (Or.inr (Or.inr he)))
    exact { hgone with
      versions := h.versions.of_held (fun name' e he => by
        rcases he with he | he | he | ⟨l, hl, he⟩ | ⟨l, entry, hl, hentry, he, hid⟩ | he
        · exact .current he
        · exact .row he
        · exact .stored he
        · exact .read hl he
        · exact .recovered hl hentry he hid
        · exact .process (hprocess name' e he)) rfl rfl
      live := fun name' e r he => h.live name' e r (hprocess name' e he)
      mirroring := by
        intro name' c r hc hr hid
        rcases h.mirroring name' c r hc hr hid with hsame | ⟨q, hq, hqid, hqs⟩ | haccepting
        · exact Or.inl hsame
        · by_cases hname : name = name'
          · -- the row has at least the version that is taken off
            subst hname
            obtain rfl : p = q := Option.some.inj (hp.symm.trans hq)
            have hle := h.settled name entry r hmirrored hr (by rw [hid, ← hqid, hpid])
            rw [← hpat, hqs] at hle
            refine Or.inl (h.versions.agree name r c (.row hr) (.current hc) hid ?_)
            exact le_antisymm (h.versions.newest name r c (.row hr) hc hid.symm) hle
          · refine Or.inr (Or.inl ⟨q, ?_, hqid, hqs⟩)
            dsimp only
            rw [Std.ExtTreeMap.getElem?_erase, if_neg (by simpa using hname)]
            exact hq
        · exact Or.inr (Or.inr haccepting) }

/-! ### Requests -/

theorem accept (h : Inv w) {entry : Entry F} (haccepting : w.accepting = some entry) :
    Inv { w with targets := w.targets.acceptPending entry, accepting := none } := by
  have hentry : InProcess w entry.strategy.strategyName entry :=
    Or.inr (Or.inr (Or.inr (Or.inr ⟨haccepting, rfl⟩)))
  have hprocess : ∀ (name : String) e, InProcess { w with
      targets := w.targets.acceptPending entry, accepting := none } name e →
        InProcess w name e := by
    intro name e he
    rcases he with he | he | he | he | ⟨he, -⟩
    · exact Or.inl he
    · replace he : (w.targets.pending.insert entry.strategy.strategyName entry)[name]? = some e := he
      rw [OrdMap.getElem?_insert_of_key] at he
      split at he
      · next hname =>
        subst hname
        rw [← Option.some.inj he]
        exact hentry
      · exact Or.inr (Or.inl he)
    · exact Or.inr (Or.inr (Or.inl he))
    · exact Or.inr (Or.inr (Or.inr (Or.inl he)))
    · cases he
  exact {
    versions := h.versions.of_held (fun name e he => by
      rcases he with he | he | he | ⟨l, hl, he⟩ | ⟨l, entry, hl, hentry, he, hid⟩ | he
      · exact .current he
      · exact .row he
      · exact .stored he
      · exact .read hl he
      · exact .recovered hl hentry he hid
      · exact .process (hprocess name e he)) rfl rfl
    live := fun name e r he => h.live name e r (hprocess name e he)
    sameRows := h.sameRows
    grown := h.grown
    unread := h.unread
    quiet := h.quiet
    published := h.published
    catalogued := h.catalogued
    accepting := fun e c he => nomatch he
    admitted := fun e he => nomatch he
    mirroring := by
      intro name c r hc hr hid
      rcases h.mirroring name c r hc hr hid with hsame | hmirror
      · exact Or.inl hsame
      · refine Or.inr (Or.inl ?_)
        show ∃ p, (w.targets.pending.insert entry.strategy.strategyName entry)[name]? = some p ∧ _
        rw [OrdMap.getElem?_insert_of_key]
        by_cases hname : entry.strategy.strategyName = name
        · subst hname
          rw [if_pos rfl]
          refine ⟨entry, rfl, ?_⟩
          rcases hmirror with ⟨p, -, -, -⟩ | ⟨e, he, -, heid, hes⟩
          · obtain ⟨row, hrow, hrid⟩ := h.admitted entry haccepting
            obtain rfl : r = row := Option.some.inj (hr.symm.trans hrow)
            exact ⟨hrid.symm.trans hid,
              (h.accepting entry c haccepting hc (hid.symm.trans hrid)).symm⟩
          · obtain rfl : entry = e := Option.some.inj (haccepting.symm.trans he)
            exact ⟨heid, hes⟩
        · rw [if_neg hname]
          rcases hmirror with hp | ⟨e, he, hename, -⟩
          · exact hp
          · obtain rfl : entry = e := Option.some.inj (haccepting.symm.trans he)
            exact absurd hename hname
    settled := h.settled
    order := h.order
    latest := h.latest
    stored := h.stored
    recoverable := h.recoverable }

/-- The version in memory is another one of the same strategy. -/
theorem admission (h : Inv w) {entry c : Entry F} {accounts : List (ArchivedPublishedAccount F)}
    (hready : w.targets.ready = true) (hlock : w.accepting = none)
    (hcurrent : w.targets.current[entry.strategy.strategyName]? = some c)
    (hid : c.createdAtUs = entry.createdAtUs)
    (hlater : c.strategy.updatedAtUs < entry.strategy.updatedAtUs) :
    Inv { w with
      targets := { w.targets with
        archivePending := w.targets.archivePending ++ [⟨entry.strategy, entry.createdAtUs, accounts⟩]
        current := w.targets.current.insert entry.strategy.strategyName entry }
      accepting := some entry
      accepted := w.accepted ++ [⟨entry.strategy, entry.createdAtUs, accounts⟩] } := by
  set job : ArchiveWrite F := ⟨entry.strategy, entry.createdAtUs, accounts⟩
  set w' : World F := { w with
      targets := { w.targets with
        archivePending := w.targets.archivePending ++ [job]
        current := w.targets.current.insert entry.strategy.strategyName entry }
      accepting := some entry
      accepted := w.accepted ++ [job] }
  have hget : ∀ name' : String, w'.targets.current[name']? =
      if entry.strategy.strategyName = name' then some entry else w.targets.current[name']? :=
    fun name' => OrdMap.getElem?_insert_of_key _ _ _ _
  have hprocess : ∀ (name' : String) e, InProcess w' name' e →
      InProcess w name' e ∨ entry.strategy.strategyName = name' ∧ e = entry := by
    intro name' e he
    rcases he with ⟨j, hj, hname, rfl⟩ | he | he | he | ⟨he, hname⟩
    · rcases List.mem_append.1 hj with hj | hj
      · exact Or.inl (Or.inl ⟨j, hj, hname, rfl⟩)
      · obtain rfl := List.mem_singleton.1 hj
        exact Or.inr ⟨hname, rfl⟩
    · exact Or.inl (Or.inr (Or.inl he))
    · exact Or.inl (Or.inr (Or.inr (Or.inl he)))
    · exact Or.inl (Or.inr (Or.inr (Or.inr (Or.inl he))))
    · obtain rfl : entry = e := Option.some.inj he
      exact Or.inr ⟨hname, rfl⟩
  have hheld : ∀ (name' : String) e, Held w' name' e →
      Held w name' e ∨ entry.strategy.strategyName = name' ∧ e = entry := by
    intro name' e he
    rcases he with he | he | he | ⟨l, hl, he⟩ | ⟨l, entry', hl, hentry', he, hid⟩ | he
    · rw [hget] at he
      split at he
      · next hname => exact Or.inr ⟨hname, (Option.some.inj he).symm⟩
      · exact Or.inl (.current he)
    · exact Or.inl (.row he)
    · exact Or.inl (.stored he)
    · exact Or.inl (.read hl he)
    · exact Or.inl (.recovered hl hentry' he hid)
    · exact (hprocess name' e he).imp_left .process
  have hlive : ∀ (name' : String) id, Live w name' id → Live w' name' id := by
    rintro name' id ⟨c', hc', rfl⟩
    by_cases hname : entry.strategy.strategyName = name'
    · subst hname
      obtain rfl : c = c' := Option.some.inj (hcurrent.symm.trans hc')
      exact ⟨entry, (hget _).trans (if_pos rfl), hid.symm⟩
    · exact ⟨c', (hget _).trans ((if_neg hname).trans hc'), rfl⟩
  have holder : ∀ e, Held w entry.strategy.strategyName e → e.createdAtUs = entry.createdAtUs →
      e.strategy.updatedAtUs < entry.strategy.updatedAtUs := fun e he hide =>
    lt_of_le_of_lt (h.versions.newest _ e c he hcurrent (hid.trans hide.symm)) hlater
  exact {
    versions := {
      named := by
        intro name' e he
        rcases hheld name' e he with he | ⟨hname, rfl⟩
        · exact h.versions.named name' e he
        · exact hname
      known := by
        intro name' e he
        rcases hheld name' e he with he | ⟨rfl, rfl⟩
        · exact h.versions.known name' e he
        · rw [← hid]
          exact h.versions.known _ c (.current hcurrent)
      agree := by
        intro name' e e' he he' hide hat
        rcases hheld name' e he with he | ⟨rfl, rfl⟩
        · rcases hheld name' e' he' with he' | ⟨rfl, rfl⟩
          · exact h.versions.agree name' e e' he he' hide hat
          · exact absurd hat (ne_of_lt (holder e he hide))
        · rcases hheld _ e' he' with he' | ⟨-, rfl⟩
          · exact absurd hat.symm (ne_of_lt (holder e' he' hide.symm))
          · rfl
      newest := by
        intro name' e c' he hc' hide
        rw [hget] at hc'
        split at hc'
        · next hname =>
          subst hname
          obtain rfl : entry = c' := Option.some.inj hc'
          rcases hheld _ e he with he | ⟨-, rfl⟩
          · exact le_of_lt (holder e he hide.symm)
          · exact le_refl _
        · next hname =>
          rcases hheld name' e he with he | ⟨hsame, -⟩
          · exact h.versions.newest name' e c' he hc' hide
          · exact absurd hsame hname }
    live := by
      intro name' e r he hr hide
      rcases hprocess name' e he with he | ⟨rfl, rfl⟩
      · exact hlive name' _ (h.live name' e r he hr hide)
      · exact ⟨e, (hget _).trans (if_pos rfl), rfl⟩
    sameRows := h.sameRows
    grown := h.grown
    unread := fun l name' r hl hr hnot =>
      h.unread l name' r hl hr fun hold => hnot (hlive name' _ hold)
    quiet := by
      intro name' r hr hnot
      refine (h.quiet name' r hr fun hold => hnot (hlive name' _ hold)).imp_right
        fun hjobs j hj => ?_
      rcases List.mem_append.1 hj with hj | hj
      · exact hjobs j hj
      · obtain rfl := List.mem_singleton.1 hj
        rintro rfl
        obtain ⟨r', hr', hrid⟩ := h.published hready _ c hcurrent
        obtain rfl : r = r' := Option.some.inj (hr.symm.trans hr')
        exact hnot ⟨entry, (hget _).trans (if_pos rfl), (hrid.trans hid).symm⟩
    published := by
      intro _ name' c' hc'
      rw [hget] at hc'
      split at hc'
      · next hname =>
        subst hname
        obtain rfl : entry = c' := Option.some.inj hc'
        obtain ⟨r, hr, hrid⟩ := h.published hready _ c hcurrent
        exact ⟨r, hr, hrid.trans hid⟩
      · exact h.published hready name' c' hc'
    catalogued := by
      intro name'
      rw [hget]
      split
      · next hname =>
        subst hname
        refine (h.catalogued _).trans ?_
        rw [hcurrent, Option.map_some, Option.map_some, hid]
      · exact h.catalogued name'
    accepting := by
      intro e c' he hc' _
      obtain rfl : entry = e := Option.some.inj he
      rw [hget, if_pos rfl] at hc'
      rw [← Option.some.inj hc']
    admitted := by
      intro e he
      obtain rfl : entry = e := Option.some.inj he
      obtain ⟨r, hr, hrid⟩ := h.published hready _ c hcurrent
      exact ⟨r, hr, hrid.trans hid⟩
    mirroring := by
      intro name' c' r hc' hr hrid
      rw [hget] at hc'
      split at hc'
      · next hname =>
        obtain rfl : entry = c' := Option.some.inj hc'
        exact Or.inr (Or.inr ⟨entry, rfl, hname, rfl, rfl⟩)
      · rcases h.mirroring name' c' r hc' hr hrid with hsame | hp | ⟨e, he, -⟩
        · exact Or.inl hsame
        · exact Or.inr (Or.inl hp)
        · rw [hlock] at he
          cases he
    settled := h.settled
    order := by
      show w.accepted ++ [job] = w.archived ++ (w.targets.archivePending ++ [job])
      rw [h.order, List.append_assoc]
    latest := by
      intro name' c' hc' hsome
      rw [hget] at hc'
      show ((ofName name' (w.accepted ++ [job])).getLast?).map ArchiveWrite.entry = some c'
      split at hc'
      · next hname =>
        obtain rfl : entry = c' := Option.some.inj hc'
        rw [ofName_append_singleton, show job.name = _ from hname, if_pos rfl, List.getLast?_concat]
        rfl
      · next hname =>
        change ∃ j ∈ ofName name' (w.accepted ++ [job]), _ at hsome
        rw [ofName_append_singleton, if_neg (show job.name ≠ _ from hname)] at hsome ⊢
        exact h.latest name' c' hc' hsome
    stored := by
      intro name' j hj
      rcases h.stored name' j hj with hsame | ⟨front, rest, hqueue, hfront⟩
      · exact Or.inl hsame
      · refine Or.inr ⟨front, rest ++ [job], ?_, hfront⟩
        show w.targets.archivePending ++ [job] = _
        rw [hqueue, List.cons_append]
    recoverable := by
      intro name' c' r hc' hr hrid hjobs
      change ∀ j ∈ ofName name' (w.targets.archivePending ++ [job]), _ at hjobs
      show _ ∨ _ ∧ ofName name' (w.targets.archivePending ++ [job]) = []
      rw [hget] at hc'
      rw [ofName_append_singleton] at hjobs ⊢
      split at hc'
      · next hname =>
        -- the new version waits
        obtain rfl : entry = c' := Option.some.inj hc'
        rw [if_pos (show job.name = name' from hname)] at hjobs
        exact absurd rfl (hjobs job (List.mem_append_right _ (List.mem_singleton_self _)))
      · next hname =>
        rw [if_neg (show job.name ≠ name' from hname)] at hjobs ⊢
        exact h.recoverable name' c' r hc' hr hrid hjobs }

end Inv

/-! ## The archive -/

section

variable [DecidableEq F] [F64 F] [Text.Unicode]

/-- A call of `append_target` stores the target, or changes no target and is refused. -/
theorem appendTarget_current (archive : PositionArchive F) (strategy : PositionStrategy F)
    (createdAtUs : Int) (accounts : List (ArchivedPublishedAccount F)) (outcome : WriteOutcome) :
    (∀ name : String,
      (archive.appendTarget strategy createdAtUs accounts outcome).1.db.current[name]? =
        if strategy.strategyName = name then some (createdAtUs, strategy)
        else archive.db.current[name]?) ∨
    ((archive.appendTarget strategy createdAtUs accounts outcome).1.db.current =
        archive.db.current ∧
      ∃ e, (archive.appendTarget strategy createdAtUs accounts outcome).2 = .error e) := by
  have hwrite : ∀ (message : PositionUpdateMsg F), message.strategy = strategy →
      ∀ name : String, (archive.db.write message (some createdAtUs)).current[name]? =
        if strategy.strategyName = name then some (createdAtUs, strategy)
        else archive.db.current[name]? := by
    intro message hsame name
    subst hsame
    exact OrdMap.getElem?_insert_of_key _ _ _ _
  have happ := archive.appendInner_appended
    ⟨strategy.updatedAtUs, strategy, [], accounts, some createdAtUs, outcome⟩
  unfold PositionArchive.appendTarget
  dsimp only at happ
  generalize archive.appendInner strategy.updatedAtUs strategy [] accounts (some createdAtUs)
    outcome = result at happ ⊢
  cases happ with
  | refused e _ => exact Or.inr ⟨rfl, e, rfl⟩
  | retried key message writes hretry _ _ =>
    -- the target that is stored is the one of the call
    refine Or.inl fun name => ?_
    have hsame : archive.db.current[strategy.strategyName]? = some (createdAtUs, strategy) := by
      simpa [PositionArchive.retries] using hretry
    split
    · next hname =>
      rw [← hname]
      exact hsame
    · rfl
  | stored message _ hbatch =>
    exact Or.inl (hwrite message (PositionArchive.batch_eq_some hbatch).2.2.2.2.2.1)
  | unacknowledged message _ hbatch _ =>
    exact Or.inl (hwrite message (PositionArchive.batch_eq_some hbatch).2.2.2.2.2.1)

theorem append_current (archive : PositionArchive F) (receivedAtUs : Int)
    (strategy : PositionStrategy F) (factualPositions : List (ArchivedSourcePositions F))
    (publishedAccounts : List (ArchivedPublishedAccount F)) (outcome : WriteOutcome) :
    (archive.append receivedAtUs strategy factualPositions publishedAccounts
      outcome).1.db.current = archive.db.current := by
  have happ := archive.appendInner_appended
    ⟨receivedAtUs, strategy, factualPositions, publishedAccounts, none, outcome⟩
  unfold PositionArchive.append
  dsimp only at happ
  generalize archive.appendInner receivedAtUs strategy factualPositions publishedAccounts none
    outcome = result at happ ⊢
  cases happ with
  | refused e _ => rfl
  | retried => rfl
  | stored message _ _ => rfl
  | unacknowledged message _ _ _ => rfl

/-- A call stores no target that fails the check of a target. -/
theorem validate_appendTarget {archive : PositionArchive F} {strategy : PositionStrategy F}
    {createdAtUs : Int} {accounts : List (ArchivedPublishedAccount F)} {outcome : WriteOutcome}
    {name : String} {p : Int × PositionStrategy F}
    (h : (archive.appendTarget strategy createdAtUs accounts outcome).1.db.current[name]? = some p) :
    archive.db.current[name]? = some p ∨ p.2.validate = .ok () := by
  have hwrite : ∀ message,
      archive.batch ⟨strategy.updatedAtUs, strategy, [], accounts, some createdAtUs, outcome⟩ =
        some message →
      (archive.db.write message (some createdAtUs)).current[name]? = some p →
        archive.db.current[name]? = some p ∨ p.2.validate = .ok () := by
    intro message hbatch hp
    obtain ⟨-, hvalid, -, -, -, hsame, -⟩ := PositionArchive.batch_eq_some hbatch
    change (archive.db.current.insert message.strategy.strategyName
      (createdAtUs, message.strategy))[name]? = some p at hp
    rw [OrdMap.getElem?_insert_of_key] at hp
    split at hp
    · cases hp
      dsimp only at hsame
      rw [hsame]
      exact Or.inr hvalid
    · exact Or.inl hp
  have happ := archive.appendInner_appended
    ⟨strategy.updatedAtUs, strategy, [], accounts, some createdAtUs, outcome⟩
  unfold PositionArchive.appendTarget at h
  dsimp only at happ
  generalize archive.appendInner strategy.updatedAtUs strategy [] accounts (some createdAtUs)
    outcome = result at happ h
  cases happ with
  | refused e _ => exact Or.inl h
  | retried => exact Or.inl h
  | stored message _ hbatch => exact hwrite message hbatch h
  | unacknowledged message _ hbatch _ => exact hwrite message hbatch h

end

namespace Inv

variable {w : World F}

/-- The front of the queue is put into the archive; it stays in the queue. -/
theorem store (h : Inv w) {front : ArchiveWrite F} {rest : List (ArchiveWrite F)}
    {archive : PositionArchive F} (hqueue : w.targets.archivePending = front :: rest)
    (hcurrent : ∀ name : String, archive.db.current[name]? =
      if front.name = name then some (front.createdAtUs, front.strategy)
      else w.archive.db.current[name]?) : Inv { w with archive } := by
  have hfront : InProcess w front.name front.entry := by
    refine Or.inl ⟨front, ?_, rfl, rfl⟩
    rw [h.order, hqueue]
    exact List.mem_append_right _ List.mem_cons_self
  have hother : ∀ name : String, front.name ≠ name → ∀ createdAtUs,
      targetOf archive.db name createdAtUs = targetOf w.archive.db name createdAtUs := by
    intro name hname createdAtUs
    unfold targetOf
    rw [hcurrent, if_neg hname]
  -- an unread strategy of that name has another creation time
  have hunread : ∀ r, w.rows[front.name]? = some r → ¬Live w front.name r.createdAtUs →
      targetOf archive.db front.name r.createdAtUs = none := by
    intro r hr hlive
    refine Option.eq_none_iff_forall_ne_some.2 fun s hs => hlive ?_
    rw [targetOf_eq_some, hcurrent, if_pos rfl] at hs
    have hid : r.createdAtUs = front.entry.createdAtUs := (congrArg Prod.fst (Option.some.inj hs)).symm
    rw [hid]
    exact h.live _ _ r hfront hr hid
  exact {
    versions := h.versions.of_held (fun name e he => by
      rcases he with he | he | he | ⟨l, hl, he⟩ | ⟨l, entry, hl, hentry, he, hid⟩ | he
      · exact .current he
      · exact .row he
      · dsimp only at he
        rw [hcurrent] at he
        split at he
        · next hname =>
          subst hname
          obtain ⟨strategy, createdAtUs⟩ := e
          cases he
          exact .process hfront
        · exact .stored he
      · exact .read hl he
      · exact .recovered hl hentry he hid
      · exact .process he) rfl rfl
    live := h.live
    sameRows := h.sameRows
    grown := h.grown
    unread := by
      intro l name r hl hr hlive
      obtain ⟨hread, hrecovered⟩ := h.unread l name r hl hr hlive
      refine ⟨hread, fun x hx => ?_⟩
      by_cases hname : front.name = name
      · subst hname
        dsimp only
        rw [hunread r hr hlive, hrecovered x hx]
        rcases h.quiet _ r hr hlive with hnone | hjobs
        · exact hnone
        · exact absurd rfl (hjobs front (by rw [hqueue]; exact List.mem_cons_self))
      · rw [hrecovered x hx]
        exact (hother name hname _).symm
    quiet := by
      intro name r hr hlive
      by_cases hname : front.name = name
      · subst hname
        exact Or.inl (hunread r hr hlive)
      · refine (h.quiet name r hr hlive).imp_left fun hnone => ?_
        rw [← hnone]
        exact hother name hname _
    published := h.published
    catalogued := h.catalogued
    accepting := h.accepting
    admitted := h.admitted
    mirroring := h.mirroring
    settled := h.settled
    order := h.order
    latest := h.latest
    stored := by
      intro name job hjob
      dsimp only
      by_cases hname : front.name = name
      · subst hname
        exact Or.inr ⟨front, rest, hqueue, rfl, (hcurrent _).trans (if_pos rfl)⟩
      · rcases h.stored name job hjob with hsame | ⟨front', rest', hqueue', hname', -⟩
        · exact Or.inl ((hcurrent _).trans ((if_neg hname).trans hsame))
        · rw [hqueue] at hqueue'
          obtain ⟨rfl, -⟩ := List.cons.inj hqueue'
          exact absurd hname' hname
    recoverable := by
      intro name c r hc hr hid hjobs
      refine (h.recoverable name c r hc hr hid hjobs).imp_right fun ⟨htarget, hnone⟩ => ⟨?_, hnone⟩
      have hname : front.name ≠ name := by
        rintro rfl
        have hmem : front ∈ ofName front.name w.targets.archivePending := by
          rw [hqueue]
          exact List.mem_filter.2 ⟨List.mem_cons_self, decide_eq_true rfl⟩
        rw [hnone] at hmem
        cases hmem
      rw [← htarget]
      exact hother name hname _ }

/-- The front leaves the queue when it is in the archive. -/
theorem pop (h : Inv w) {front : ArchiveWrite F} {rest : List (ArchiveWrite F)}
    (hqueue : w.targets.archivePending = front :: rest)
    (hstored : w.archive.db.current[front.name]? = some (front.createdAtUs, front.strategy)) :
    Inv { w with
      targets := { w.targets with archivePending := rest }, archived := w.archived ++ [front] } :=
  { h with
    versions := ⟨h.versions.named, h.versions.known, h.versions.agree, h.versions.newest⟩
    quiet := by
      intro name r hr hlive
      refine (h.quiet name r hr hlive).imp_right fun hjobs job hjob => hjobs job ?_
      rw [hqueue]
      exact List.mem_cons_of_mem _ hjob
    order := by
      show w.accepted = (w.archived ++ [front]) ++ rest
      rw [h.order, hqueue, List.append_assoc]
      rfl
    stored := by
      intro name job hjob
      change (ofName name (w.archived ++ [front])).getLast? = some job at hjob
      rw [ofName_append_singleton] at hjob
      split at hjob
      · next hname =>
        subst hname
        rw [List.getLast?_concat] at hjob
        obtain rfl := Option.some.inj hjob
        exact Or.inl hstored
      · next hname =>
        rcases h.stored name job hjob with hsame | ⟨front', rest', hqueue', hname', -⟩
        · exact Or.inl hsame
        · rw [hqueue] at hqueue'
          obtain ⟨rfl, -⟩ := List.cons.inj hqueue'
          exact absurd hname' hname
    recoverable := by
      intro name c r hc hr hid hjobs
      change ∀ job ∈ ofName name rest, _ at hjobs
      show _ ∨ _ ∧ ofName name rest = []
      have hsplit : ofName name w.targets.archivePending =
          (if front.name = name then [front] else []) ++ ofName name rest := by
        rw [hqueue]
        unfold ofName
        by_cases hname : front.name = name
        · simp [hname]
        · simp [hname]
      by_cases hfront : front.name = name ∧ front.createdAtUs = c.createdAtUs
      · -- it is the last version of its creation, so the one in memory
        obtain ⟨rfl, hfid⟩ := hfront
        rw [if_pos rfl] at hsplit
        have haccepted : ofName front.name w.accepted =
            ofName front.name w.archived ++ ([front] ++ ofName front.name rest) := by
          rw [h.order, ← hsplit]
          exact List.filter_append _ _
        have hlast := h.latest _ c hc ⟨front, by rw [haccepted]; simp, hfid⟩
        rw [haccepted] at hlast
        rcases List.eq_nil_or_concat' (ofName front.name rest) with hnil | ⟨init, last, hconcat⟩
        · rw [hnil, List.append_nil, List.getLast?_concat] at hlast
          obtain rfl : front.entry = c := Option.some.inj hlast
          exact Or.inr ⟨targetOf_eq_some.2 hstored, hnil⟩
        · rw [hconcat, ← List.append_assoc, ← List.append_assoc, List.getLast?_concat] at hlast
          obtain rfl : last.entry = c := Option.some.inj hlast
          exact absurd rfl (hjobs last (by rw [hconcat]; simp))
      · have hbefore : ∀ job ∈ ofName name w.targets.archivePending,
            job.createdAtUs ≠ c.createdAtUs := by
          intro job hjob
          rw [hsplit] at hjob
          rcases List.mem_append.1 hjob with hjob | hjob
          · split at hjob
            · next hname =>
              obtain rfl := List.mem_singleton.1 hjob
              exact fun hfid => hfront ⟨hname, hfid⟩
            · cases hjob
          · exact hjobs job hjob
        refine (h.recoverable name c r hc hr hid hbefore).imp_right fun ⟨htarget, hnone⟩ => ?_
        rw [hsplit, List.append_eq_nil_iff] at hnone
        exact ⟨htarget, hnone.2⟩ }

end Inv

section

variable [DecidableEq F] [F64 F] [Text.Unicode]

theorem Inv.flushFront {w : World F} (h : Inv w) (outcome : WriteOutcome) :
    Inv { w with
      targets := (w.targets.flushFront w.archive outcome).1
      archive := (w.targets.flushFront w.archive outcome).2.1
      archived := match (w.targets.flushFront w.archive outcome).2.2 with
        | .ok (some _) => w.archived ++ w.targets.archivePending.head?.toList
        | _ => w.archived } := by
  unfold Targets.flushFront
  cases hqueue : w.targets.archivePending with
  | nil => exact h
  | cons front rest =>
    dsimp only
    have happ := appendTarget_current w.archive front.strategy front.createdAtUs front.accounts
      outcome
    generalize w.archive.appendTarget front.strategy front.createdAtUs front.accounts outcome =
      result at happ ⊢
    obtain ⟨archive, message | message⟩ := result
    · -- the front stays, whether it was written or not
      rcases happ with hcurrent | ⟨hcurrent, -⟩
      · exact h.store hqueue hcurrent
      · exact h.append hcurrent
    · rcases happ with hcurrent | ⟨-, e, he⟩
      · exact (h.store hqueue hcurrent).pop hqueue ((hcurrent _).trans (if_pos rfl))
      · cases he

end

/-! ## The rows -/

namespace Inv

variable {w : World F}

theorem remove (h : Inv w) (name : String) (hidle : w.loading = none)
    (hclosed : w.targets.ready = false) (hlock : w.accepting = none) :
    Inv { w with rows := w.rows.erase name } := by
  have hrow : ∀ (name' : String) (r : Entry F), (w.rows.erase name)[name']? = some r →
      w.rows[name']? = some r := by
    intro name' r hr
    rw [Std.ExtTreeMap.getElem?_erase] at hr
    split at hr
    · cases hr
    · exact hr
  exact {
    versions := h.versions.of_held (fun name' e he => by
      rcases he with he | he | he | ⟨l, hl, he⟩ | ⟨l, entry, hl, hentry, he, hid⟩ | he
      · exact .current he
      · exact .row (hrow name' e he)
      · exact .stored he
      · exact .read hl he
      · exact .recovered hl hentry he hid
      · exact .process he) rfl rfl
    live := fun name' e r he hr => h.live name' e r he (hrow name' r hr)
    sameRows := fun l hl => by rw [hidle] at hl; cases hl
    grown := fun l hl => by rw [hidle] at hl; cases hl
    unread := fun l _ _ hl => by rw [hidle] at hl; cases hl
    quiet := fun name' r hr => h.quiet name' r (hrow name' r hr)
    published := fun hready => by rw [hclosed] at hready; cases hready
    catalogued := h.catalogued
    accepting := h.accepting
    admitted := fun e he => by rw [hlock] at he; cases he
    mirroring := fun name' c r hc hr => h.mirroring name' c r hc (hrow name' r hr)
    settled := fun name' e r hm hr => h.settled name' e r hm (hrow name' r hr)
    order := h.order
    latest := h.latest
    stored := h.stored
    recoverable := fun name' c r hc hr => h.recoverable name' c r hc (hrow name' r hr) }

/-- A strategy is created, for the first time or again. -/
theorem create (h : Inv w) {name : String} {entry : Entry F} (hidle : w.loading = none)
    (hname : entry.strategy.strategyName = name) (hnew : w.rows[name]? = none)
    (hfresh : (name, entry.createdAtUs) ∉ w.identities) :
    Inv { w with
      rows := w.rows.insert name entry
      identities := (name, entry.createdAtUs) :: w.identities } := by
  have hrow : ∀ (name' : String) (r : Entry F), (w.rows.insert name entry)[name']? = some r →
      w.rows[name']? = some r ∨ name = name' ∧ r = entry := by
    intro name' r hr
    rw [OrdMap.getElem?_insert_of_key] at hr
    split at hr
    · next hsame => exact Or.inr ⟨hsame, (Option.some.inj hr).symm⟩
    · exact Or.inl hr
  have hkept : ∀ (name' : String) (r : Entry F), w.rows[name']? = some r →
      (w.rows.insert name entry)[name']? = some r := by
    intro name' r hr
    rw [OrdMap.getElem?_insert_of_key, if_neg]
    · exact hr
    · rintro rfl
      rw [hnew] at hr
      cases hr
  -- nobody has a version of the new creation
  have hnone : ∀ e, Held w name e → e.createdAtUs ≠ entry.createdAtUs := by
    intro e he hid
    refine hfresh ?_
    rw [← hid]
    exact h.versions.known name e he
  have hheld : ∀ (name' : String) e, Held { w with
      rows := w.rows.insert name entry
      identities := (name, entry.createdAtUs) :: w.identities } name' e →
        Held w name' e ∨ name = name' ∧ e = entry := by
    intro name' e he
    rcases he with he | he | he | ⟨l, hl, -⟩ | ⟨l, entry, hl, -⟩ | he
    · exact Or.inl (.current he)
    · exact (hrow name' e he).imp_left .row
    · exact Or.inl (.stored he)
    · rw [show w.loading = some l from hl] at hidle
      cases hidle
    · rw [show w.loading = some l from hl] at hidle
      cases hidle
    · exact Or.inl (.process he)
  exact {
    versions := {
      named := by
        intro name' e he
        rcases hheld name' e he with he | ⟨rfl, rfl⟩
        · exact h.versions.named name' e he
        · exact hname
      known := by
        intro name' e he
        rcases hheld name' e he with he | ⟨rfl, rfl⟩
        · exact List.mem_cons_of_mem _ (h.versions.known name' e he)
        · exact List.mem_cons_self
      agree := by
        intro name' e e' he he' hid hat
        rcases hheld name' e he with hold | ⟨rfl, rfl⟩
        · rcases hheld name' e' he' with hold' | ⟨rfl, rfl⟩
          · exact h.versions.agree name' e e' hold hold' hid hat
          · exact absurd hid (hnone e hold)
        · rcases hheld _ e' he' with hold' | ⟨-, rfl⟩
          · exact absurd hid.symm (hnone e' hold')
          · rfl
      newest := by
        intro name' e c he hc hid
        rcases hheld name' e he with he | ⟨rfl, rfl⟩
        · exact h.versions.newest name' e c he hc hid
        · exact absurd hid (hnone c (.current hc)) }
    live := by
      intro name' e r he hr hid
      rcases hrow name' r hr with hr | ⟨rfl, rfl⟩
      · exact h.live name' e r he hr hid
      · exact absurd hid.symm (hnone e (.process he))
    sameRows := fun l hl => by rw [hidle] at hl; cases hl
    grown := fun l hl => by rw [hidle] at hl; cases hl
    unread := fun l _ _ hl => by rw [hidle] at hl; cases hl
    quiet := by
      intro name' r hr hlive
      rcases hrow name' r hr with hr | ⟨rfl, rfl⟩
      · exact h.quiet name' r hr hlive
      · refine Or.inl (Option.eq_none_iff_forall_ne_some.2 fun s hs => ?_)
        have he : Held w name ⟨s, r.createdAtUs⟩ := .stored (targetOf_eq_some.1 hs)
        exact hnone _ he rfl
    published := by
      intro hready name' c hc
      obtain ⟨r, hr, hid⟩ := h.published hready name' c hc
      exact ⟨r, hkept name' r hr, hid⟩
    catalogued := h.catalogued
    accepting := h.accepting
    admitted := by
      intro e he
      obtain ⟨r, hr, hid⟩ := h.admitted e he
      exact ⟨r, hkept _ r hr, hid⟩
    mirroring := by
      intro name' c r hc hr hid
      rcases hrow name' r hr with hr | ⟨rfl, rfl⟩
      · exact h.mirroring name' c r hc hr hid
      · exact absurd hid.symm (hnone c (.current hc))
    settled := by
      intro name' e r hm hr hid
      rcases hrow name' r hr with hr | ⟨rfl, rfl⟩
      · exact h.settled name' e r hm hr hid
      · have he : Held w name e := .process (Or.inr (Or.inr (Or.inr (Or.inl hm))))
        exact absurd hid.symm (hnone e he)
    order := h.order
    latest := h.latest
    stored := h.stored
    recoverable := by
      intro name' c r hc hr hid
      rcases hrow name' r hr with hr | ⟨rfl, rfl⟩
      · exact h.recoverable name' c r hc hr hid
      · exact absurd hid.symm (hnone c (.current hc)) }

end Inv

end CtaManager.Web
