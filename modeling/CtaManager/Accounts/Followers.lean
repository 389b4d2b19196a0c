import CtaManager.Accounts.Materialize

/-!
Following accounts over whole histories.

A history is any sequence of operations on virtual accounts, each committed or rolled
back, between which other writers may change every table but the templates, the follow
rows and the bindings of following sources.  In every state reached, a following source
holds exactly its combined template (`following_accounts_hold_template`).
-/

namespace CtaManager.Accounts

open Check Catalog

section

variable {F : Type} [F64 F]

def Db.Following (db : Db F) (source : String) : Prop := db.loadFollows source ≠ []

/-- The source holds the combined bindings of its stored follows. -/
def Db.HoldsTemplate (db : Db F) (source : String) : Prop :=
  ∃ combined, db.loadCombinedBindings (db.loadFollows source) none = .ok combined ∧
    Meets (db.rows source) combined

/-- What writers outside of this module may do. -/
structure OtherWriters (db db' : Db F) : Prop where
  accounts : db'.accounts = db.accounts
  follows : db'.follows = db.follows
  bindings : ∀ source, db.Following source → (db'.rows source).bindings = (db.rows source).bindings

inductive History (db₀ : Db F) : Db F → Prop
  | start : History db₀ db₀
  | operation {db : Db F} (h : History db₀ db) (operation : Operation F) :
    History db₀ (db.commit operation)
  | elsewhere {db db' : Db F} (h : History db₀ db) (hw : OtherWriters db db') : History db₀ db'

/-! ## Reading templates -/

omit [F64 F] in
/-- The templates a query loads. -/
theorem loadTemplate_fold {db : Db F} {follows : List (AccountFollow F)}
    {t t' : OrdMap String (List (VirtualBinding F))} :
    follows.foldlM (db.loadTemplate none) t = .ok t' ↔
      (∀ f ∈ follows, db.accounts[f.virtualId]?.isSome = true) ∧
      ∀ k : String, t'[k]? = if k ∈ follows.map AccountFollow.virtualId
        then db.accounts[k]?.map AccountRow.template else t[k]? := by
  induction follows generalizing t with
  | nil =>
    rw [foldlM_nil, Except.ok.injEq]
    constructor
    · rintro rfl
      exact ⟨fun f hf => absurd hf List.not_mem_nil, fun k => by simp⟩
    · rintro ⟨-, h⟩
      refine Std.ExtTreeMap.ext_getElem? fun k => ?_
      have := h k
      simp only [List.map_nil, List.not_mem_nil, if_false] at this
      exact this.symm
  | cons f follows ih =>
    rw [foldlM_cons, Db.loadTemplate]
    cases hf : db.accounts[f.virtualId]? with
    | none =>
      refine iff_of_false (fun h => by cases h) fun h => ?_
      have := h.1 f List.mem_cons_self
      rw [hf] at this
      cases this
    | some account =>
      refine ih.trans ?_
      have hlookup : ∀ k : String, (if k ∈ follows.map AccountFollow.virtualId
            then db.accounts[k]?.map AccountRow.template
            else (t.insert f.virtualId account.template)[k]?) =
          if k ∈ (f :: follows).map AccountFollow.virtualId
            then db.accounts[k]?.map AccountRow.template else t[k]? := by
        intro k
        rw [List.map_cons, OrdMap.getElem?_insert_of_key]
        by_cases hk : k ∈ follows.map AccountFollow.virtualId
        · rw [if_pos hk, if_pos (List.mem_cons_of_mem _ hk)]
        · by_cases hfk : f.virtualId = k
          · subst hfk
            rw [if_neg hk, if_pos rfl, if_pos List.mem_cons_self, hf]
            rfl
          · rw [if_neg hk, if_neg hfk, if_neg]
            intro h
            rcases List.mem_cons.1 h with h | h
            · exact hfk h.symm
            · exact hk h
      constructor
      · rintro ⟨hall, ht'⟩
        refine ⟨List.forall_mem_cons.2 ⟨by rw [hf]; rfl, hall⟩, fun k => ?_⟩
        rw [← hlookup k]
        exact ht' k
      · rintro ⟨hall, ht'⟩
        refine ⟨(List.forall_mem_cons.1 hall).2, fun k => ?_⟩
        have := ht' k
        rw [← hlookup k] at this
        exact this

omit [F64 F] in
theorem loadTemplate_fold_perm {db : Db F} {follows follows' : List (AccountFollow F)}
    (hp : follows.Perm follows') {t : OrdMap String (List (VirtualBinding F))}
    (h : follows.foldlM (db.loadTemplate none) ∅ = .ok t) :
    follows'.foldlM (db.loadTemplate none) ∅ = .ok t := by
  obtain ⟨hall, ht⟩ := loadTemplate_fold.1 h
  refine loadTemplate_fold.2 ⟨fun f hf => hall f (hp.mem_iff.2 hf), fun k => ?_⟩
  have hmem : k ∈ follows.map AccountFollow.virtualId ↔ k ∈ follows'.map AccountFollow.virtualId :=
    (hp.map _).mem_iff
  rw [ht k, if_congr hmem rfl rfl]

theorem loadCombinedBindings_perm {db : Db F} {follows follows' : List (AccountFollow F)}
    (hp : follows.Perm follows') {l : List (VirtualBinding F)}
    (h : db.loadCombinedBindings follows none = .ok l) :
    db.loadCombinedBindings follows' none = .ok l := by
  obtain ⟨t, ht, h⟩ := bind_eq_ok.1 h
  rw [Db.loadCombinedBindings, loadTemplate_fold_perm hp ht]
  exact combinedBindings_perm hp h

/-- A query only reads the templates it follows. -/
theorem loadCombinedBindings_congr {db db' : Db F} {follows : List (AccountFollow F)}
    (h : ∀ f ∈ follows, db'.accounts[f.virtualId]?.map AccountRow.template =
      db.accounts[f.virtualId]?.map AccountRow.template) :
    db'.loadCombinedBindings follows none = db.loadCombinedBindings follows none := by
  unfold Db.loadCombinedBindings
  rw [foldlM_congr (g := db.loadTemplate none) fun f hf t => ?_]
  have hf := h f hf
  rw [Db.loadTemplate, Db.loadTemplate]
  cases ha : db.accounts[f.virtualId]? with
  | none =>
    rw [ha, Option.map_none, Option.map_eq_none_iff] at hf
    rw [hf]
  | some a =>
    rw [ha, Option.map_some, Option.map_eq_some_iff] at hf
    obtain ⟨a', ha', htemplate⟩ := hf
    rw [ha']
    show pure (t.insert f.virtualId a'.template) = pure (t.insert f.virtualId a.template)
    rw [htemplate]

/-! ## One source -/

omit [F64 F] in
theorem rows_setRows (db : Db F) (source other : String) (rows : SourceRows F) :
    (db.setRows source rows).rows other = if source = other then rows else db.rows other := by
  unfold Db.rows Db.setRows
  simp only [Std.ExtTreeMap.getD_eq_getD_getElem?, OrdMap.getElem?_insert_of_key]
  split
  · rfl
  · rfl

/-- What a source must see of an operation: its bindings hold the template when it
follows one, every change is announced, and positions are kept. -/
structure Refreshed (db db' : Db F) (source : String) : Prop where
  holds : db'.HoldsTemplate source
  positions : KeepsPositions (db.rows source) (db'.rows source)
  announces : Announces (db.rows source) (db'.rows source)

theorem refreshFollower_eq_ok [ShareLaws F] {db db' : Db F} {atUs : Int} {source : String}
    (h : Db.refreshFollower atUs db source = .ok db') :
    db'.accounts = db.accounts ∧ db'.follows = db.follows ∧ Refreshed db db' source ∧
      ∀ other, other ≠ source → db'.rows other = db.rows other := by
  obtain ⟨combined, hcombined, h⟩ := bind_eq_ok.1 h
  obtain ⟨rows, hrows, h⟩ := bind_eq_ok.1 h
  cases h
  obtain ⟨hmeets, hpositions, hannounces⟩ := materialize_eq_ok hrows
  have hself : (db.setRows source rows).rows source = rows := by
    rw [rows_setRows, if_pos rfl]
  refine ⟨rfl, rfl, ⟨⟨combined, hcombined, ?_⟩, ?_, ?_⟩, fun other hother => ?_⟩
  · rw [hself]
    exact hmeets
  · rw [hself]
    exact hpositions
  · rw [hself]
    exact hannounces
  · rw [rows_setRows, if_neg hother.symm]

/-- The loop of `save_in_transaction`, source by source. -/
theorem refreshFollowers_eq_ok [ShareLaws F] {db db' : Db F} {atUs : Int} {sources : List String}
    (hnodup : sources.Nodup) (h : sources.foldlM (Db.refreshFollower atUs) db = .ok db') :
    db'.accounts = db.accounts ∧ db'.follows = db.follows ∧
      (∀ source ∈ sources, Refreshed db db' source) ∧
      ∀ source, source ∉ sources → db'.rows source = db.rows source := by
  obtain ⟨⟨haccounts, hfollows⟩, hout, hin⟩ := Keyed.foldlM_keyed id Db.rows
    (fun t => t.accounts = db.accounts ∧ t.follows = db.follows)
    (by rw [List.map_id]; exact hnodup)
    (fun a _ s s' hs hstep => by
      obtain ⟨haccounts, hfollows, -, -⟩ := refreshFollower_eq_ok hstep
      exact ⟨haccounts.trans hs.1, hfollows.trans hs.2⟩)
    (fun a _ s s' k _ hstep hk => (refreshFollower_eq_ok hstep).2.2.2 k hk) ⟨rfl, rfl⟩ h
  rw [List.map_id] at hout
  refine ⟨haccounts, hfollows, fun source hs => ?_, hout⟩
  obtain ⟨t, t', ⟨hta, htf⟩, hstep, hbefore, hafter⟩ := hin source hs
  obtain ⟨ha, hf, ⟨⟨combined, hcombined, hmeets⟩, hpositions, hannounces⟩, -⟩ :=
    refreshFollower_eq_ok hstep
  rw [id_eq] at hbefore hafter
  refine ⟨⟨combined, ?_, hafter ▸ hmeets⟩, ?_, ?_⟩
  · have hread : db'.loadFollows source = t'.loadFollows source := by
      rw [Db.loadFollows, Db.loadFollows, hfollows, hf, htf]
    rw [hread, ← hcombined]
    exact loadCombinedBindings_congr fun f _ => by rw [haccounts, ha, hta]
  · rw [hafter, ← hbefore]
    exact hpositions
  · rw [hafter, ← hbefore]
    exact hannounces

/-! ## One operation -/

omit [F64 F] in
theorem mem_followers {db : Db F} {id source : String} :
    source ∈ db.followers id ↔
      id ∈ (db.loadFollows source).map AccountFollow.virtualId := by
  have hids : (db.loadFollows source).map AccountFollow.virtualId =
      (db.follows.getD source ∅).toList.map Prod.fst := by
    rw [Db.loadFollows, List.map_map]
    rfl
  rw [hids, Db.followers, List.mem_map, List.mem_map, Std.ExtTreeMap.getD_eq_getD_getElem?]
  constructor
  · rintro ⟨p, hp, rfl⟩
    rw [List.mem_filter] at hp
    obtain ⟨row, hrow⟩ := Option.isSome_iff_exists.1
      (Std.ExtTreeMap.contains_eq_isSome_getElem? (t := p.2) (a := id) ▸ hp.2)
    refine ⟨(id, row), ?_, rfl⟩
    rw [OrdMap.mem_toList.1 hp.1]
    exact OrdMap.mem_toList.2 hrow
  · rintro ⟨q, hq, rfl⟩
    cases hf : db.follows[source]? with
    | none =>
      rw [hf] at hq
      have := OrdMap.mem_toList.1 hq
      simp at this
    | some m =>
      rw [hf] at hq
      have hq' : m[q.1]? = some q.2 := OrdMap.mem_toList.1 hq
      refine ⟨(source, m), List.mem_filter.2 ⟨OrdMap.mem_toList.2 hf, ?_⟩, rfl⟩
      show m.contains q.1 = true
      rw [Std.ExtTreeMap.contains_eq_isSome_getElem?, hq']
      rfl

omit [F64 F] in
theorem nodup_followers (db : Db F) (id : String) : (db.followers id).Nodup :=
  (OrdMap.nodup_keys_toList db.follows).sublist (List.filter_sublist.map _)

/-- Every following source holds its template. -/
def Db.Sound (db : Db F) : Prop := ∀ source, db.Following source → db.HoldsTemplate source

/-- A source whose rows, follows and followed templates stay as they were. -/
theorem holdsTemplate_frame {db db' : Db F} {source : String} (h : db.HoldsTemplate source)
    (hrows : (db'.rows source).bindings = (db.rows source).bindings)
    (hfollows : db'.loadFollows source = db.loadFollows source)
    (haccounts : ∀ f ∈ db.loadFollows source, db'.accounts[f.virtualId]?.map AccountRow.template =
      db.accounts[f.virtualId]?.map AccountRow.template) : db'.HoldsTemplate source := by
  obtain ⟨combined, hcombined, hmeets⟩ := h
  refine ⟨combined, ?_, ?_⟩
  · rw [hfollows, loadCombinedBindings_congr haccounts]
    exact hcombined
  · unfold Meets at hmeets ⊢
    rw [hrows]
    exact hmeets

theorem saveInTransaction_eq_ok [ShareLaws F] {db db' : Db F} {id : String}
    {request : SaveVirtualAccount F} {atUs : Int}
    (h : db.saveInTransaction id request atUs = .ok db') :
    db'.follows = db.follows ∧
      (∀ other : String, other ≠ id → db'.accounts[other]? = db.accounts[other]?) ∧
      (∀ source ∈ db.followers id, Refreshed db db' source) ∧
      ∀ source, source ∉ db.followers id → db'.rows source = db.rows source := by
  obtain ⟨mid, hmid, h⟩ := bind_eq_ok.1 h
  obtain ⟨_, -, hmid⟩ := bind_eq_ok.1 hmid
  cases hmid
  obtain ⟨haccounts, hfollows, hin, hout⟩ := refreshFollowers_eq_ok (nodup_followers _ id) h
  refine ⟨hfollows, fun other hother => ?_, fun source hs =>
    ⟨(hin source hs).holds, (hin source hs).positions, (hin source hs).announces⟩, hout⟩
  rw [haccounts]
  show (db.accounts.insert id _)[other]? = _
  rw [OrdMap.getElem?_insert_of_key, if_neg hother.symm]

/-- What every operation does to a source, and that it keeps the invariant. -/
structure Correct (db db' : Db F) : Prop where
  sound : db.Sound → db'.Sound
  positions : ∀ source, KeepsPositions (db.rows source) (db'.rows source)
  announces : ∀ source, Announces (db.rows source) (db'.rows source)

theorem saveInTransaction_correct [ShareLaws F] {db db' : Db F} {id : String}
    {request : SaveVirtualAccount F} {atUs : Int}
    (h : db.saveInTransaction id request atUs = .ok db') : Correct db db' := by
  obtain ⟨hfollows, haccounts, hin, hout⟩ := saveInTransaction_eq_ok h
  have hread : ∀ source, db'.loadFollows source = db.loadFollows source := fun source => by
    rw [Db.loadFollows, Db.loadFollows, hfollows]
  refine ⟨fun hsound source hfollowing => ?_, fun source => ?_, fun source => ?_⟩
  · by_cases hs : source ∈ db.followers id
    · exact (hin source hs).holds
    · rw [Db.Following, hread] at hfollowing
      refine holdsTemplate_frame (hsound source hfollowing) (by rw [hout source hs])
        (hread source) fun f hf => ?_
      rw [haccounts f.virtualId]
      rintro rfl
      exact hs (mem_followers.2 (List.mem_map_of_mem hf))
  · by_cases hs : source ∈ db.followers id
    · exact (hin source hs).positions
    · rw [hout source hs]
      exact KeepsPositions.refl _
  · by_cases hs : source ∈ db.followers id
    · exact (hin source hs).announces
    · rw [hout source hs]
      exact Announces.refl _

omit [F64 F] in
theorem loadFollows_erase (db : Db F) (source other : String) :
    Db.loadFollows { db with follows := db.follows.erase source } other =
      if source = other then [] else db.loadFollows other := by
  unfold Db.loadFollows
  rw [Std.ExtTreeMap.getD_eq_getD_getElem?, Std.ExtTreeMap.getElem?_erase,
    Std.ExtTreeMap.getD_eq_getD_getElem?]
  by_cases ho : source = other
  · rw [if_pos ho, if_pos (Std.compare_eq_iff_eq.2 ho)]
    rfl
  · rw [if_neg ho, if_neg (by rwa [Std.compare_eq_iff_eq])]

omit [F64 F] in
theorem loadFollows_setFollows (db : Db F) (source other : String)
    (rows : OrdMap String (FollowRow F)) :
    (db.setFollows source rows).loadFollows other =
      if source = other then rows.toList.map fun p => AccountFollow.mk p.1 p.2.multiplier
      else db.loadFollows other := by
  unfold Db.loadFollows Db.setFollows
  rw [Std.ExtTreeMap.getD_eq_getD_getElem?, OrdMap.getElem?_insert_of_key,
    Std.ExtTreeMap.getD_eq_getD_getElem?]
  split
  · rfl
  · rfl

omit [F64 F] in
/-- The stored follow rows are the follows, in the order of their ids. -/
theorem perm_followRows {follows : List (AccountFollow F)}
    (hnodup : (follows.map AccountFollow.virtualId).Nodup) (atUs : Int) :
    ((followRows follows atUs).toList.map fun p => AccountFollow.mk p.1 p.2.multiplier).Perm
      follows := by
  have hkeys : (((followRows follows atUs).toList.map fun p =>
      AccountFollow.mk p.1 p.2.multiplier).map AccountFollow.virtualId).Nodup := by
    rw [List.map_map]
    exact OrdMap.nodup_keys_toList _
  refine (List.perm_ext_iff_of_nodup hkeys.of_map hnodup.of_map).2 fun f => ?_
  have hcollect := fun row => Keyed.getElem?_collect AccountFollow.virtualId
    (fun f => FollowRow.mk f.multiplier atUs) hnodup (k := f.virtualId) (v := row)
  rw [List.mem_map]
  constructor
  · rintro ⟨p, hp, rfl⟩
    obtain ⟨g, hg, hid, hrow⟩ := (hcollect p.2).1 (OrdMap.mem_toList.1 hp)
    have hmultiplier : g.multiplier = p.2.multiplier := congrArg FollowRow.multiplier hrow
    have hgf : g = AccountFollow.mk p.1 p.2.multiplier := by
      rw [← hmultiplier]
      exact congrArg (AccountFollow.mk · g.multiplier) hid
    exact hgf ▸ hg
  · intro hf
    exact ⟨(f.virtualId, ⟨f.multiplier, atUs⟩),
      OrdMap.mem_toList.2 ((hcollect _).2 ⟨f, hf, rfl, rfl⟩), rfl⟩

theorem setConfiguration_correct [ShareLaws F] {db db' : Db F} {source : String}
    {config : AccountConfiguration F} {atUs : Int}
    (h : db.setConfiguration source config atUs = .ok db') : Correct db db' := by
  cases config with
  | independent =>
    cases h
    refine ⟨fun hsound other hfollowing => ?_, fun _ => KeepsPositions.refl _,
      fun _ => Announces.refl _⟩
    have hread := loadFollows_erase db source other
    by_cases ho : source = other
    · rw [if_pos ho] at hread
      exact absurd hread hfollowing
    · rw [if_neg ho] at hread
      rw [Db.Following, hread] at hfollowing
      exact holdsTemplate_frame (hsound other hfollowing) rfl hread fun _ _ => rfl
  | follow follows =>
    obtain ⟨bindings, hbindings, h⟩ := bind_eq_ok.1 h
    obtain ⟨rows, hrows, h⟩ := bind_eq_ok.1 h
    obtain ⟨_, -, h⟩ := bind_eq_ok.1 h
    cases h
    obtain ⟨hmeets, hpositions, hannounces⟩ := materialize_eq_ok hrows
    have hnodup : (follows.map AccountFollow.virtualId).Nodup := by
      obtain ⟨t, -, hcombined⟩ := bind_eq_ok.1 hbindings
      exact (nodup_of_combinedBindings hcombined).1
    have hrows' : ∀ other, (db.setRows source rows).rows other =
        if source = other then rows else db.rows other := fun other => rows_setRows db source other rows
    refine ⟨fun hsound other hfollowing => ?_, fun other => ?_, fun other => ?_⟩
    · have hread := loadFollows_setFollows (db.setRows source rows) source other
        (followRows follows atUs)
      by_cases ho : source = other
      · subst ho
        rw [if_pos rfl] at hread
        refine ⟨bindings, ?_, ?_⟩
        · rw [hread]
          refine loadCombinedBindings_perm (perm_followRows hnodup atUs).symm ?_
          rw [← hbindings]
          exact loadCombinedBindings_congr fun _ _ => rfl
        · show Meets ((db.setRows source rows).rows source) bindings
          rw [hrows', if_pos rfl]
          exact hmeets
      · rw [if_neg ho] at hread
        rw [Db.Following, hread] at hfollowing
        refine holdsTemplate_frame (hsound other hfollowing) ?_ hread fun _ _ => rfl
        show ((db.setRows source rows).rows other).bindings = _
        rw [hrows', if_neg ho]
    · show KeepsPositions (db.rows other) ((db.setRows source rows).rows other)
      rw [hrows']
      split
      next ho => exact ho ▸ hpositions
      next => exact KeepsPositions.refl _
    · show Announces (db.rows other) ((db.setRows source rows).rows other)
      rw [hrows']
      split
      next ho => exact ho ▸ hannounces
      next => exact Announces.refl _

theorem delete_correct {db : Db F} {r : Db F × Bool} {id : String}
    (h : db.delete id = .ok r) : Correct db r.1 := by
  obtain ⟨_, hnone, h⟩ := bind_eq_ok.1 h
  rw [ensure_eq_ok, List.isEmpty_iff] at hnone
  cases h
  refine ⟨fun hsound source hfollowing => ?_, fun _ => KeepsPositions.refl _,
    fun _ => Announces.refl _⟩
  refine holdsTemplate_frame (hsound source hfollowing) rfl rfl fun f hf => ?_
  have hne : id ≠ f.virtualId := by
    rintro rfl
    have := mem_followers.2 (List.mem_map_of_mem hf)
    rw [hnone] at this
    exact absurd this List.not_mem_nil
  show (db.accounts.erase id)[f.virtualId]?.map _ = _
  rw [Std.ExtTreeMap.getElem?_erase, if_neg (by rwa [Std.compare_eq_iff_eq])]

theorem apply_correct [ShareLaws F] {db db' : Db F} {operation : Operation F}
    (h : db.apply operation = .ok db') : Correct db db' := by
  cases operation with
  | create request atUs =>
    obtain ⟨r, hr, rfl⟩ := map_eq_ok.1 h
    obtain ⟨_, -, hr⟩ := bind_eq_ok.1 hr
    obtain ⟨id, -, hr⟩ := bind_eq_ok.1 hr
    obtain ⟨db', hsave, hr⟩ := bind_eq_ok.1 hr
    cases hr
    exact saveInTransaction_correct hsave
  | save id request atUs =>
    obtain ⟨_, -, h⟩ := bind_eq_ok.1 h
    obtain ⟨_, -, h⟩ := bind_eq_ok.1 h
    exact saveInTransaction_correct h
  | setConfiguration source config atUs => exact setConfiguration_correct h
  | delete id =>
    obtain ⟨r, hr, rfl⟩ := map_eq_ok.1 h
    exact delete_correct hr

/-- Saving a template with the bindings it has puts nothing in the queue. -/
theorem save_unchanged [ShareLaws F] {db db' : Db F} (hsound : db.Sound) {id : String}
    {request : SaveVirtualAccount F} {atUs : Int} {account : AccountRow F}
    (haccount : db.accounts[id]? = some account)
    (hsame : account.bindings = templateRows request.bindings)
    (h : db.save id request atUs = .ok db') (source : String) :
    db'.rows source = db.rows source := by
  obtain ⟨_, -, h⟩ := bind_eq_ok.1 h
  obtain ⟨_, -, h⟩ := bind_eq_ok.1 h
  obtain ⟨mid, hmid, h⟩ := bind_eq_ok.1 h
  obtain ⟨_, -, hmid⟩ := bind_eq_ok.1 hmid
  cases hmid
  have htemplate : ∀ k : String, (db.accounts.insert id
      { name := Text.trim request.name, updatedAtUs := atUs,
        bindings := templateRows request.bindings })[k]?.map AccountRow.template =
      db.accounts[k]?.map AccountRow.template := by
    intro k
    rw [OrdMap.getElem?_insert_of_key]
    split
    next hk =>
      rw [← hk, haccount, Option.map_some, Option.map_some, AccountRow.template,
        AccountRow.template, hsame]
    next => rfl
  -- no round of the loop changes a row
  refine (foldlM_invariant (P := fun t : Db F => (∀ k : String,
      t.accounts[k]?.map AccountRow.template = db.accounts[k]?.map AccountRow.template) ∧
      t.follows = db.follows ∧ ∀ source, t.rows source = db.rows source)
    (fun other hother t t' ht hstep => ?_) h ⟨htemplate, rfl, fun _ => rfl⟩).2.2 source
  obtain ⟨haccounts, hfollows, hrows⟩ := ht
  have hread : t.loadFollows other = db.loadFollows other := by
    rw [Db.loadFollows, Db.loadFollows, hfollows]
  have hfollowing : db.Following other := by
    intro hnil
    have := mem_followers.1 hother
    change id ∈ (db.loadFollows other).map _ at this
    rw [hnil] at this
    exact absurd this List.not_mem_nil
  obtain ⟨combined, hcombined, hmeets⟩ := hsound other hfollowing
  obtain ⟨combined', hcombined', hstep⟩ := bind_eq_ok.1 hstep
  obtain ⟨rows, hrows', hstep⟩ := bind_eq_ok.1 hstep
  cases hstep
  rw [hread, loadCombinedBindings_congr fun f _ => haccounts f.virtualId, hcombined,
    Except.ok.injEq] at hcombined'
  subst hcombined'
  rw [hrows other] at hrows'
  have hkept := materialize_of_meets hmeets hrows'
  refine ⟨haccounts, hfollows, fun k => ?_⟩
  rw [rows_setRows]
  split
  next hk => rw [hkept, hk]
  next => exact hrows k

/-! ## Histories -/

theorem history_sound [ShareLaws F] {db₀ db : Db F} (h₀ : db₀.follows = ∅)
    (h : History db₀ db) : db.Sound := by
  induction h with
  | start =>
    intro source hfollowing
    refine absurd ?_ hfollowing
    rw [Db.loadFollows, h₀]
    simp
  | @operation db h op ih =>
    unfold Db.commit
    split
    next db' happly => exact (apply_correct happly).sound ih
    next => exact ih
  | @elsewhere db db' h hw ih =>
    intro source hfollowing
    have hread : ∀ source, db'.loadFollows source = db.loadFollows source := fun source => by
      rw [Db.loadFollows, Db.loadFollows, hw.follows]
    rw [Db.Following, hread] at hfollowing
    refine holdsTemplate_frame (ih source hfollowing) (hw.bindings source hfollowing)
      (hread source) fun f _ => by rw [hw.accounts]

/-- Following accounts always hold exactly their combined template. -/
theorem following_accounts_hold_template [ShareLaws F] {db₀ db : Db F} (h₀ : db₀.follows = ∅)
    (h : History db₀ db) :
    (∀ source, db.Following source → db.HoldsTemplate source) ∧
    (∀ (operation : Operation F) (db' : Db F), db.apply operation = .ok db' → ∀ source,
      KeepsPositions (db.rows source) (db'.rows source) ∧
      Announces (db.rows source) (db'.rows source)) ∧
    (∀ (id : String) (request : SaveVirtualAccount F) (atUs : Int) (account : AccountRow F)
      (db' : Db F), db.accounts[id]? = some account →
      account.bindings = templateRows request.bindings →
      db.apply (.save id request atUs) = .ok db' → ∀ source, db'.rows source = db.rows source) ∧
    (∀ (operation : Operation F) (e : String), db.apply operation = .error e →
      db.commit operation = db) ∧
    ∀ (follows follows' : List (AccountFollow F))
      (templates : OrdMap String (List (VirtualBinding F))), follows.Perm follows' →
      (combinedBindings follows templates).toOption =
        (combinedBindings follows' templates).toOption ∧
      ((follows.map AccountFollow.virtualId).Nodup →
        combinedBindings follows templates = combinedBindings follows' templates) := by
  have hsound := history_sound h₀ h
  refine ⟨hsound, fun operation db' happly source => ?_,
    fun id request atUs account db' haccount hsame hsave =>
      save_unchanged hsound haccount hsame hsave,
    fun operation e he => ?_, fun follows follows' templates hp =>
      ⟨combinedBindings_toOption_perm hp templates,
        fun hnodup => combinedBindings_perm_of_nodup hp hnodup templates⟩⟩
  · exact ⟨(apply_correct happly).positions source, (apply_correct happly).announces source⟩
  · rw [Db.commit, he]

end

/-- One account followed twice: the order of the follows decides which error is reported. -/
theorem combinedBindings_error_of_order :
    let follows : List (AccountFollow ℚ) := [⟨"a", 1⟩, ⟨"a", -1⟩]
    let templates : OrdMap String (List (VirtualBinding ℚ)) := (∅ : OrdMap _ _).insert "a" []
    follows.Perm follows.reverse ∧
      combinedBindings follows templates = .error "duplicate virtual account: a" ∧
      combinedBindings follows.reverse templates =
        .error "multiplier must be finite and non-negative" ∧
      combinedBindings follows templates ≠ combinedBindings follows.reverse templates := by
  intro follows templates
  have h₁ : combinedBindings follows templates = .error "duplicate virtual account: a" := by
    decide +kernel
  have h₂ : combinedBindings follows.reverse templates =
      .error "multiplier must be finite and non-negative" := by
    decide +kernel
  refine ⟨(List.reverse_perm follows).symm, h₁, h₂, fun heq => ?_⟩
  rw [h₁, h₂] at heq
  exact absurd heq (by decide)

/-- A database with one source and the strategies it may use. -/
def catalogOf (source position order : String) : Db ℚ where
  orderSources := (∅ : OrdSet String).insert source
  positionStrategies := (∅ : OrdSet String).insert position
  orderStrategies := (∅ : OrdSet String).insert order
  accounts := ∅
  follows := ∅
  bindings := ∅
  queue := ∅

/-- A source follows a template, which is then edited. -/
def sampleOperations : List (Operation ℚ) :=
  [.create ⟨"model", [⟨"long", "trend", "twap", 2⟩]⟩ 1,
    .setConfiguration "binance" (.follow [⟨"virtual01", 3⟩]) 2,
    .save "virtual01" ⟨"model", [⟨"short", "trend", "twap", 5⟩]⟩ 3]

def sampleDb : Db ℚ := sampleOperations.foldl Db.commit (catalogOf "binance" "trend" "twap")

theorem following_accounts_hold_template_sample :
    sampleDb.HoldsTemplate "binance" ∧ (sampleDb.rows "binance").bindings.toList =
      [("long", ⟨"trend", "twap", 0, 3⟩), ("short", ⟨"trend", "twap", 15, 3⟩)] := by
  refine ⟨?_, by decide +kernel⟩
  have hrun : History (catalogOf "binance" "trend" "twap") sampleDb :=
    ((History.start.operation _).operation _).operation _
  refine (following_accounts_hold_template rfl hrun).1 "binance" ?_
  show Db.loadFollows _ _ ≠ []
  decide +kernel

end CtaManager.Accounts
