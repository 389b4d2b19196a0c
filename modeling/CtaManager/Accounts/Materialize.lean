import CtaManager.Accounts.VirtualAccounts
import CtaManager.Library.Keyed

/-!
What the transactions on virtual accounts do to the bindings of one source.

`effectiveBindings` scales a template whose names are distinct, `combinedBindings`
does not depend on the order of the follows, and `materialize` leaves the source with
exactly the bindings it is given (`Meets`): every change is announced in the queue
(`Announces`), no position strategy changes (`KeepsPositions`), and a source that
already meets the bindings is left alone.
-/

namespace CtaManager.Accounts

open Check Catalog

/-- The two laws of `f64` the published shares rest on. -/
class ShareLaws (F : Type) [F64 F] : Prop where
  mul_one : ∀ a : F, a * 1 = a
  beq_self : ∀ a : F, F64.isFinite a = true → (a == a) = true
  zero_beq : ((0 : F) == 0) = true

instance : ShareLaws ℚ where
  mul_one a := by simp
  beq_self a _ := by simp
  zero_beq := by simp

section

variable {F : Type} [F64 F]

/-! ## Effective bindings -/

def scaled (multiplier : F) (b : VirtualBinding F) : SaveBindingRequest F :=
  ⟨b.bindingName, b.positionStrategyName, b.orderStrategyName, b.shares * multiplier⟩

theorem effectiveBinding_eq_ok {multiplier : F} {names : OrdSet String} {b : VirtualBinding F}
    {r : SaveBindingRequest F} (h : effectiveBinding multiplier names b = .ok r) :
    names.contains b.bindingName = false ∧ r = scaled multiplier b ∧
      F64.isFinite (b.shares * multiplier) = true := by
  unfold effectiveBinding at h
  obtain ⟨_, -, h⟩ := bind_eq_ok.1 h
  obtain ⟨_, -, h⟩ := bind_eq_ok.1 h
  obtain ⟨_, -, h⟩ := bind_eq_ok.1 h
  obtain ⟨_, hname, h⟩ := bind_eq_ok.1 h
  obtain ⟨_, -, h⟩ := bind_eq_ok.1 h
  obtain ⟨_, hshares, h⟩ := bind_eq_ok.1 h
  cases h
  refine ⟨?_, rfl, ?_⟩
  · rw [ensure_eq_ok] at hname
    simpa using hname
  · rw [validateNonnegativeMultiplier, ensure_eq_ok, Bool.and_eq_true] at hshares
    exact hshares.1

theorem effectiveBindingsFrom_eq_ok {multiplier : F} {names : OrdSet String}
    {bindings : List (VirtualBinding F)} {requests : List (SaveBindingRequest F)}
    (h : effectiveBindingsFrom multiplier names bindings = .ok requests) :
    requests = bindings.map (scaled multiplier) ∧
      (bindings.map VirtualBinding.bindingName).Nodup ∧
      (∀ b ∈ bindings, names.contains b.bindingName = false) ∧
      ∀ b ∈ bindings, F64.isFinite (b.shares * multiplier) = true := by
  induction bindings generalizing names requests with
  | nil =>
    cases h
    exact ⟨rfl, List.nodup_nil, fun b hb => absurd hb List.not_mem_nil,
      fun b hb => absurd hb List.not_mem_nil⟩
  | cons b bindings ih =>
    obtain ⟨r, hr, h⟩ := bind_eq_ok.1 h
    obtain ⟨rs, hrs, h⟩ := bind_eq_ok.1 h
    cases h
    obtain ⟨hname, hrb, hfinite⟩ := effectiveBinding_eq_ok hr
    obtain ⟨hmap, hnodup, hnames, hfinites⟩ := ih hrs
    have hlater : ∀ c ∈ bindings, c.bindingName ≠ b.bindingName ∧
        names.contains c.bindingName = false := by
      intro c hc
      have := hnames c hc
      rw [Std.ExtTreeSet.contains_insert, Bool.or_eq_false_iff] at this
      refine ⟨fun heq => ?_, this.2⟩
      rw [heq] at this
      simp at this
    refine ⟨by rw [hrb, hmap, List.map_cons], ?_, ?_, ?_⟩
    · rw [List.map_cons, List.nodup_cons]
      refine ⟨fun hb => ?_, hnodup⟩
      obtain ⟨c, hc, hcb⟩ := List.mem_map.1 hb
      exact (hlater c hc).1 hcb
    · intro c hc
      rcases List.mem_cons.1 hc with rfl | hc
      · exact hname
      · exact (hlater c hc).2
    · intro c hc
      rcases List.mem_cons.1 hc with rfl | hc
      · exact hfinite
      · exact hfinites c hc

theorem effectiveBindings_eq_ok {multiplier : F} {bindings : List (VirtualBinding F)}
    {requests : List (SaveBindingRequest F)}
    (h : effectiveBindings bindings multiplier = .ok requests) :
    requests = bindings.map (scaled multiplier) ∧
      (bindings.map VirtualBinding.bindingName).Nodup ∧
      ∀ b ∈ bindings, F64.isFinite (b.shares * multiplier) = true := by
  obtain ⟨_, -, h⟩ := bind_eq_ok.1 h
  obtain ⟨hmap, hnodup, -, hfinite⟩ := effectiveBindingsFrom_eq_ok h
  exact ⟨hmap, hnodup, hfinite⟩

/-! ## Combined bindings -/

theorem combineFollow_fold {templates : OrdMap String (List (VirtualBinding F))}
    {follows : List (AccountFollow F)} {s s' : OrdSet String × OrdMap String (VirtualBinding F)}
    (h : follows.foldlM (combineFollow templates) s = .ok s') :
    (follows.map AccountFollow.virtualId).Nodup ∧
      ∀ f ∈ follows, s.1.contains f.virtualId = false := by
  induction follows generalizing s with
  | nil => exact ⟨List.nodup_nil, fun f hf => absurd hf List.not_mem_nil⟩
  | cons f follows ih =>
    obtain ⟨t, ht, h⟩ := bind_eq_ok.1 (foldlM_cons _ s f follows ▸ h)
    obtain ⟨_, hnew, ht⟩ := bind_eq_ok.1 ht
    have hids : t.1 = s.1.insert f.virtualId := by
      split at ht
      · cases ht
      · obtain ⟨_, -, ht⟩ := bind_eq_ok.1 ht
        obtain ⟨_, -, ht⟩ := bind_eq_ok.1 ht
        cases ht
        rfl
    obtain ⟨hnodup, hrest⟩ := ih h
    have hlater : ∀ g ∈ follows, g.virtualId ≠ f.virtualId ∧
        s.1.contains g.virtualId = false := by
      intro g hg
      have := hrest g hg
      rw [hids, Std.ExtTreeSet.contains_insert, Bool.or_eq_false_iff] at this
      refine ⟨fun heq => ?_, this.2⟩
      rw [heq] at this
      simp at this
    constructor
    · rw [List.map_cons, List.nodup_cons]
      refine ⟨fun hf => ?_, hnodup⟩
      obtain ⟨g, hg, hgf⟩ := List.mem_map.1 hf
      exact (hlater g hg).1 hgf
    · intro g hg
      rcases List.mem_cons.1 hg with rfl | hg
      · rw [ensure_eq_ok] at hnew
        simpa using hnew
      · exact (hlater g hg).2

theorem nodup_of_combinedBindings {follows : List (AccountFollow F)}
    {templates : OrdMap String (List (VirtualBinding F))} {l : List (VirtualBinding F)}
    (h : combinedBindings follows templates = .ok l) :
    (follows.map AccountFollow.virtualId).Nodup ∧ follows ≠ [] := by
  obtain ⟨_, hne, h⟩ := bind_eq_ok.1 h
  obtain ⟨s, hs, -⟩ := bind_eq_ok.1 h
  refine ⟨?_, fun hnil => ?_⟩
  · exact ((StableSort.perm_stableSort _ follows).map _).nodup_iff.1 (combineFollow_fold hs).1
  · rw [hnil] at hne
    cases hne

/-- Distinct follows are combined in one canonical order. -/
theorem combinedBindings_perm_of_nodup {follows follows' : List (AccountFollow F)}
    (hp : follows.Perm follows') (hnodup : (follows.map AccountFollow.virtualId).Nodup)
    (templates : OrdMap String (List (VirtualBinding F))) :
    combinedBindings follows templates = combinedBindings follows' templates := by
  have hempty : follows.isEmpty = follows'.isEmpty := by
    rw [Bool.eq_iff_iff, List.isEmpty_iff, List.isEmpty_iff]
    exact ⟨fun h => (h ▸ hp).nil_eq.symm, fun h => (h ▸ hp).eq_nil⟩
  unfold combinedBindings
  rw [hempty, Keyed.stableSort_eq_of_perm _ hnodup hp]

theorem combinedBindings_perm {follows follows' : List (AccountFollow F)}
    (hp : follows.Perm follows') {templates : OrdMap String (List (VirtualBinding F))}
    {l : List (VirtualBinding F)} (h : combinedBindings follows templates = .ok l) :
    combinedBindings follows' templates = .ok l :=
  combinedBindings_perm_of_nodup hp (nodup_of_combinedBindings h).1 templates ▸ h

/-- Whether follows can be combined, and to what, does not depend on their order. -/
theorem combinedBindings_toOption_perm {follows follows' : List (AccountFollow F)}
    (hp : follows.Perm follows') (templates : OrdMap String (List (VirtualBinding F))) :
    (combinedBindings follows templates).toOption =
      (combinedBindings follows' templates).toOption := by
  refine Option.ext fun l => ?_
  rw [toOption_eq_some, toOption_eq_some]
  exact ⟨combinedBindings_perm hp, combinedBindings_perm hp.symm⟩

/-! ## The cells of a source -/

/-- The source holds exactly these bindings; every other one is stopped. -/
def Meets (rows : SourceRows F) (bindings : List (VirtualBinding F)) : Prop :=
  (∀ b ∈ bindings, ∃ row : BindingRow F, rows.bindings[b.bindingName]? = some row ∧
    row.positionStrategyName = b.positionStrategyName ∧
    row.orderStrategyName = b.orderStrategyName ∧ (row.shares == b.shares) = true) ∧
  ∀ (name : String) (row : BindingRow F), rows.bindings[name]? = some row →
    (∀ b ∈ bindings, b.bindingName ≠ name) → (row.shares == 0) = true

/-- No binding goes away or changes its position strategy. -/
def KeepsPositions (rows rows' : SourceRows F) : Prop :=
  ∀ (name : String) (row : BindingRow F), rows.bindings[name]? = some row →
    ∃ row' : BindingRow F, rows'.bindings[name]? = some row' ∧
      row'.positionStrategyName = row.positionStrategyName

/-- The binding was put in the queue: a new revision, neither archived nor failed. -/
def Enqueued (rows rows' : SourceRows F) (name : String) : Prop :=
  ∃ row : QueueRow, enqueueRow rows.queue[name]? = .ok row ∧ rows'.queue[name]? = some row

def Untouched (rows rows' : SourceRows F) (name : String) : Prop :=
  rows'.bindings[name]? = rows.bindings[name]? ∧ rows'.queue[name]? = rows.queue[name]?

/-- Every binding is either put in the queue or left as it was. -/
def Announces (rows rows' : SourceRows F) : Prop :=
  ∀ name, Enqueued rows rows' name ∨ Untouched rows rows' name

omit [F64 F] in
theorem KeepsPositions.refl (rows : SourceRows F) : KeepsPositions rows rows :=
  fun _ row hrow => ⟨row, hrow, rfl⟩

omit [F64 F] in
theorem Announces.refl (rows : SourceRows F) : Announces rows rows :=
  fun _ => .inr ⟨rfl, rfl⟩

/-- The rows of one name. -/
def cell (rows : SourceRows F) (name : String) : Option (BindingRow F) × Option QueueRow :=
  (rows.bindings[name]?, rows.queue[name]?)

omit [F64 F] in
theorem untouched_of_cell_eq {rows rows' : SourceRows F} {name : String}
    (h : cell rows' name = cell rows name) : Untouched rows rows' name :=
  ⟨congrArg Prod.fst h, congrArg Prod.snd h⟩

omit [F64 F] in
/-- Being announced is a matter of the cells of the name alone. -/
theorem announced_congr {rows rows' t t' : SourceRows F} {name : String}
    (hbefore : cell t name = cell rows name) (hafter : cell rows' name = cell t' name)
    (h : Enqueued t t' name ∨ Untouched t t' name) :
    Enqueued rows rows' name ∨ Untouched rows rows' name := by
  have hqueue : t.queue[name]? = rows.queue[name]? := congrArg Prod.snd hbefore
  have hqueue' : rows'.queue[name]? = t'.queue[name]? := congrArg Prod.snd hafter
  have hbindings : t.bindings[name]? = rows.bindings[name]? := congrArg Prod.fst hbefore
  have hbindings' : rows'.bindings[name]? = t'.bindings[name]? := congrArg Prod.fst hafter
  rcases h with ⟨q, hq, hq'⟩ | ⟨hkept, hkept'⟩
  · exact .inl ⟨q, hqueue ▸ hq, hqueue'.trans hq'⟩
  · exact .inr ⟨hbindings'.trans (hkept.trans hbindings), hqueue'.trans (hkept'.trans hqueue)⟩

omit [F64 F] in
theorem enqueue_eq_ok {rows rows' : SourceRows F} {name : String}
    (h : enqueue rows name = .ok rows') :
    rows'.bindings = rows.bindings ∧ Enqueued rows rows' name ∧
      ∀ k, k ≠ name → rows'.queue[k]? = rows.queue[k]? := by
  obtain ⟨row, hrow, h⟩ := bind_eq_ok.1 h
  cases h
  refine ⟨rfl, ⟨row, hrow, ?_⟩, fun k hk => ?_⟩
  · rw [OrdMap.getElem?_insert_of_key, if_pos rfl]
  · rw [OrdMap.getElem?_insert_of_key, if_neg hk.symm]

/-- `row'` has the order template and the shares of a request, and kept the position
strategy of the row it replaces. -/
def Carries (old : Option (BindingRow F)) (row' : BindingRow F) (b : SaveBindingRequest F) :
    Prop :=
  row'.orderStrategyName = b.orderStrategyName ∧ row'.shares = b.shares ∧
    row'.positionStrategyName = (old.map BindingRow.positionStrategyName).getD
      b.positionStrategyName

omit [F64 F] in
theorem upsertBinding_eq_ok {db : Db F} {source : String} {atUs : Int}
    {rows rows' : SourceRows F} {b : SaveBindingRequest F}
    (h : db.upsertBinding source atUs rows b = .ok rows') :
    rows'.queue = rows.queue ∧
      (∃ row : BindingRow F, rows'.bindings[b.bindingName]? = some row ∧
        Carries rows.bindings[b.bindingName]? row b) ∧
      ∀ k, k ≠ b.bindingName → rows'.bindings[k]? = rows.bindings[k]? := by
  obtain ⟨_, -, h⟩ := bind_eq_ok.1 h
  split at h
  next hnone =>
    obtain ⟨_, -, h⟩ := bind_eq_ok.1 h
    obtain ⟨_, -, h⟩ := bind_eq_ok.1 h
    cases h
    refine ⟨rfl, ⟨_, by rw [OrdMap.getElem?_insert_of_key, if_pos rfl], rfl, rfl, ?_⟩,
      fun k hk => by rw [OrdMap.getElem?_insert_of_key, if_neg hk.symm]⟩
    rw [hnone]
    rfl
  next old hold =>
    cases h
    refine ⟨rfl, ⟨_, by rw [OrdMap.getElem?_insert_of_key, if_pos rfl], rfl, rfl, ?_⟩,
      fun k hk => by rw [OrdMap.getElem?_insert_of_key, if_neg hk.symm]⟩
    rw [hold]
    rfl

omit [F64 F] in
theorem replaceBinding_eq_ok {db : Db F} {source : String} {atUs : Int}
    {rows rows' : SourceRows F} {b : SaveBindingRequest F}
    (h : db.replaceBinding source atUs rows b = .ok rows') :
    Enqueued rows rows' b.bindingName ∧
      (∃ row : BindingRow F, rows'.bindings[b.bindingName]? = some row ∧
        Carries rows.bindings[b.bindingName]? row b) ∧
      ∀ k, k ≠ b.bindingName → cell rows' k = cell rows k := by
  obtain ⟨rows₁, h₁, h⟩ := bind_eq_ok.1 h
  obtain ⟨hqueue, ⟨row, hrow, hcarries⟩, hother⟩ := upsertBinding_eq_ok h₁
  obtain ⟨hbindings, ⟨q, hq, hq'⟩, hother'⟩ := enqueue_eq_ok h
  refine ⟨⟨q, hqueue ▸ hq, hq'⟩, ⟨row, hbindings ▸ hrow, hcarries⟩, fun k hk => ?_⟩
  rw [cell, cell, hbindings, hother k hk, hother' k hk, hqueue]

/-! ## Materialize -/

theorem materializeDesired_eq_ok {db : Db F} {source : String} {atUs : Int} {force : Bool}
    {existing : OrdMap String (BindingRow F)} {rows rows' : SourceRows F} {name : String}
    {b : SaveBindingRequest F} (hb : b.bindingName = name)
    (h : db.materializeDesired source atUs force existing rows (name, b) = .ok rows') :
    (∀ k, k ≠ name → cell rows' k = cell rows k) ∧
      (rows.bindings[name]? = existing[name]? →
        (Enqueued rows rows' name ∨ Untouched rows rows' name) ∧
        ∃ row : BindingRow F, rows'.bindings[name]? = some row ∧
          row.positionStrategyName = b.positionStrategyName ∧
          row.orderStrategyName = b.orderStrategyName ∧
          (row.shares = b.shares ∨ (row.shares == b.shares) = true) ∧
          ∀ old : BindingRow F, existing[name]? = some old →
            row.positionStrategyName = old.positionStrategyName) := by
  subst hb
  unfold Db.materializeDesired at h
  split at h
  next hnone =>
    obtain ⟨henq, ⟨row, hrow, horder, hshares, hposition⟩, hother⟩ := replaceBinding_eq_ok h
    refine ⟨hother, fun hsame => ⟨.inl henq, row, hrow, ?_, horder, .inl hshares, ?_⟩⟩
    · rw [hposition, hsame, hnone]
      rfl
    · intro old hold
      rw [hnone] at hold
      cases hold
  next old hold =>
    obtain ⟨_, hposition, h⟩ := bind_eq_ok.1 h
    rw [ensure_eq_ok, beq_iff_eq] at hposition
    by_cases heq : (old.orderStrategyName == b.orderStrategyName && old.shares == b.shares) = true
    · rw [if_pos heq] at h
      rw [Bool.and_eq_true, beq_iff_eq] at heq
      have hrow : ∀ rows'' : SourceRows F, rows''.bindings = rows.bindings →
          rows.bindings[b.bindingName]? = existing[b.bindingName]? →
          ∃ row : BindingRow F, rows''.bindings[b.bindingName]? = some row ∧
          row.positionStrategyName = b.positionStrategyName ∧
          row.orderStrategyName = b.orderStrategyName ∧
          (row.shares = b.shares ∨ (row.shares == b.shares) = true) ∧
          ∀ old : BindingRow F, existing[b.bindingName]? = some old →
            row.positionStrategyName = old.positionStrategyName := by
        intro rows'' hrows hsame
        refine ⟨old, by rw [hrows, hsame, hold], hposition, heq.1, .inr heq.2, fun old' hold' => ?_⟩
        rw [hold, Option.some.injEq] at hold'
        rw [hold']
      cases force with
      | true =>
        obtain ⟨hbindings, henq, hother⟩ := enqueue_eq_ok h
        refine ⟨fun k hk => ?_, fun hsame => ⟨.inl henq, hrow rows' hbindings hsame⟩⟩
        rw [cell, cell, hbindings, hother k hk]
      | false =>
        cases h
        exact ⟨fun _ _ => rfl, fun hsame => ⟨.inr ⟨rfl, rfl⟩, hrow rows rfl hsame⟩⟩
    · rw [if_neg heq] at h
      obtain ⟨henq, ⟨row, hrow, horder, hshares, hkept⟩, hother⟩ := replaceBinding_eq_ok h
      refine ⟨hother, fun hsame => ⟨.inl henq, row, hrow, ?_, horder, .inl hshares, ?_⟩⟩
      · rw [hkept, hsame, hold]
        exact hposition
      · intro old' hold'
        rw [hkept, hsame, hold']
        rfl

theorem materializeStop_eq_ok {atUs : Int} {force : Bool}
    {desired : OrdMap String (SaveBindingRequest F)} {rows rows' : SourceRows F} {name : String}
    {old : BindingRow F} (h : materializeStop atUs force desired rows (name, old) = .ok rows') :
    (∀ k, k ≠ name → cell rows' k = cell rows k) ∧
      (desired.contains name = true → cell rows' name = cell rows name) ∧
      (desired.contains name = false → rows.bindings[name]? = some old →
        (Enqueued rows rows' name ∨ Untouched rows rows' name) ∧
        ∃ row : BindingRow F, rows'.bindings[name]? = some row ∧
          row.positionStrategyName = old.positionStrategyName ∧
          (row.shares = 0 ∨ (row.shares == 0) = true)) := by
  unfold materializeStop at h
  split at h
  next hstop =>
    rw [Bool.and_eq_true, Bool.not_eq_true'] at hstop
    obtain ⟨hbindings, ⟨q, hq, hq'⟩, hother⟩ := enqueue_eq_ok h
    refine ⟨fun k hk => ?_, fun hin => ?_, fun _ _ => ⟨.inl ⟨q, hq, hq'⟩,
      { old with shares := 0, updatedAtUs := atUs }, ?_, rfl, .inl rfl⟩⟩
    · rw [cell, cell, hbindings, hother k hk]
      show ((rows.bindings.insert name _)[k]?, _) = _
      rw [OrdMap.getElem?_insert_of_key, if_neg hk.symm]
    · rw [hstop.1] at hin
      cases hin
    · rw [hbindings]
      show (rows.bindings.insert name _)[name]? = _
      rw [OrdMap.getElem?_insert_of_key, if_pos rfl]
  next hkeep =>
    cases h
    refine ⟨fun _ _ => rfl, fun _ => rfl, fun hout hold =>
      ⟨.inr ⟨rfl, rfl⟩, old, hold, rfl, .inr ?_⟩⟩
    rw [Bool.and_eq_true, hout, Bool.or_eq_true, not_and_or, not_or] at hkeep
    rcases hkeep with hkeep | hkeep
    · exact absurd rfl hkeep
    · by_contra hne
      exact hkeep.1 (by rw [bne, Bool.not_eq_true', Bool.eq_false_iff]; exact hne)

/-- What the first loop leaves. -/
theorem materializeDesired_fold {db : Db F} {source : String} {atUs : Int} {force : Bool}
    {desired : OrdMap String (SaveBindingRequest F)}
    (hnames : ∀ (name : String) (b : SaveBindingRequest F), desired[name]? = some b →
      b.bindingName = name)
    {rows rows' : SourceRows F}
    (h : desired.toList.foldlM (db.materializeDesired source atUs force rows.bindings) rows =
      .ok rows') (name : String) :
    (desired[name]? = none → cell rows' name = cell rows name) ∧
      ∀ b : SaveBindingRequest F, desired[name]? = some b →
        (Enqueued rows rows' name ∨ Untouched rows rows' name) ∧
        ∃ row : BindingRow F, rows'.bindings[name]? = some row ∧
          row.positionStrategyName = b.positionStrategyName ∧
          row.orderStrategyName = b.orderStrategyName ∧
          (row.shares = b.shares ∨ (row.shares == b.shares) = true) ∧
          ∀ old : BindingRow F, rows.bindings[name]? = some old →
            row.positionStrategyName = old.positionStrategyName := by
  have hentry : ∀ a ∈ desired.toList, a.2.bindingName = a.1 := fun a ha =>
    hnames a.1 a.2 (OrdMap.mem_toList.1 ha)
  obtain ⟨-, hout, hin⟩ := Keyed.foldlM_keyed Prod.fst cell (fun _ => True)
    (OrdMap.nodup_keys_toList desired) (fun _ _ _ _ _ _ => trivial)
    (fun a ha s s' k _ hs hk => (materializeDesired_eq_ok (hentry a ha) hs).1 k hk) trivial h
  refine ⟨fun hnone => hout name fun hmem => ?_, fun b hb => ?_⟩
  · obtain ⟨a, ha, rfl⟩ := List.mem_map.1 hmem
    rw [OrdMap.mem_toList.1 ha] at hnone
    cases hnone
  · obtain ⟨t, t', -, hstep, hbefore, hafter⟩ := hin (name, b) (OrdMap.mem_toList.2 hb)
    have hrows := (materializeDesired_eq_ok (hnames name b hb) hstep).2
      (congrArg Prod.fst hbefore)
    obtain ⟨hann, row, hrow, hrest⟩ := hrows
    exact ⟨announced_congr hbefore hafter hann, row, (congrArg Prod.fst hafter).trans hrow, hrest⟩

/-- What the second loop leaves. -/
theorem materializeStop_fold {atUs : Int} {force : Bool}
    {desired : OrdMap String (SaveBindingRequest F)} {existing : OrdMap String (BindingRow F)}
    {rows rows' : SourceRows F}
    (h : existing.toList.foldlM (materializeStop atUs force desired) rows = .ok rows')
    (name : String) :
    (desired.contains name = true → cell rows' name = cell rows name) ∧
      (desired.contains name = false → existing[name]? = rows.bindings[name]? →
        (Enqueued rows rows' name ∨ Untouched rows rows' name) ∧
        match existing[name]? with
        | none => rows'.bindings[name]? = none
        | some old => ∃ row : BindingRow F, rows'.bindings[name]? = some row ∧
          row.positionStrategyName = old.positionStrategyName ∧
          (row.shares = 0 ∨ (row.shares == 0) = true)) := by
  obtain ⟨-, hout, hin⟩ := Keyed.foldlM_keyed Prod.fst cell (fun _ => True)
    (OrdMap.nodup_keys_toList existing) (fun _ _ _ _ _ _ => trivial)
    (fun a _ s s' k _ hs hk => (materializeStop_eq_ok hs).1 k hk) trivial h
  cases hold : existing[name]? with
  | none =>
    have hsame : cell rows' name = cell rows name := hout name fun hmem => by
      obtain ⟨a, ha, rfl⟩ := List.mem_map.1 hmem
      rw [OrdMap.mem_toList.1 ha] at hold
      cases hold
    refine ⟨fun _ => hsame, fun _ hrows => ⟨.inr (untouched_of_cell_eq hsame), ?_⟩⟩
    exact (congrArg Prod.fst hsame).trans hrows.symm
  | some old =>
    obtain ⟨t, t', -, hstep, hbefore, hafter⟩ := hin (name, old) (OrdMap.mem_toList.2 hold)
    obtain ⟨-, hin, hstop⟩ := materializeStop_eq_ok hstep
    refine ⟨fun hc => hafter.trans ((hin hc).trans hbefore), fun hc hrows => ?_⟩
    obtain ⟨hann, row, hrow, hrest⟩ := hstop hc ((congrArg Prod.fst hbefore).trans hrows.symm)
    exact ⟨announced_congr hbefore hafter hann, row, (congrArg Prod.fst hafter).trans hrow, hrest⟩

/-- The rows `materialize` is asked for, by name. -/
def desiredRows (bindings : List (VirtualBinding F)) (multiplier : F) :
    OrdMap String (SaveBindingRequest F) :=
  (bindings.map (scaled multiplier)).foldl (fun m b => m.insert b.bindingName b) ∅

theorem getElem?_desiredRows {bindings : List (VirtualBinding F)} {multiplier : F}
    (hnodup : (bindings.map VirtualBinding.bindingName).Nodup) {name : String}
    {b : SaveBindingRequest F} : (desiredRows bindings multiplier)[name]? = some b ↔
      ∃ a ∈ bindings, a.bindingName = name ∧ scaled multiplier a = b := by
  have hkeys : ((bindings.map (scaled multiplier)).map SaveBindingRequest.bindingName).Nodup := by
    rw [List.map_map]
    exact hnodup
  have := Keyed.getElem?_collect SaveBindingRequest.bindingName id hkeys (k := name) (v := b)
  refine this.trans ?_
  constructor
  · rintro ⟨r, hr, hname, rfl⟩
    obtain ⟨a, ha, rfl⟩ := List.mem_map.1 hr
    exact ⟨a, ha, hname, rfl⟩
  · rintro ⟨a, ha, hname, rfl⟩
    exact ⟨scaled multiplier a, List.mem_map_of_mem ha, hname, rfl⟩

theorem materialize_eq_ok [ShareLaws F] {db : Db F} {source : String} {rows rows' : SourceRows F}
    {bindings : List (VirtualBinding F)} {atUs : Int} {force : Bool}
    (h : db.materialize source rows bindings 1 atUs force = .ok rows') :
    Meets rows' bindings ∧ KeepsPositions rows rows' ∧ Announces rows rows' := by
  obtain ⟨effective, heffective, h⟩ := bind_eq_ok.1 h
  obtain ⟨rfl, hnodup, hfinite⟩ := effectiveBindings_eq_ok heffective
  obtain ⟨mid, hmid, h⟩ := bind_eq_ok.1 h
  have hmem : ∀ (name : String) (b : SaveBindingRequest F),
      (desiredRows bindings 1)[name]? = some b ↔
        ∃ a ∈ bindings, a.bindingName = name ∧ scaled 1 a = b :=
    fun name b => getElem?_desiredRows hnodup
  have hnames : ∀ (name : String) (b : SaveBindingRequest F),
      (desiredRows bindings 1)[name]? = some b → b.bindingName = name := by
    intro name b hb
    obtain ⟨a, -, hname, rfl⟩ := (hmem name b).1 hb
    exact hname
  have hfirst := materializeDesired_fold hnames hmid
  have hsecond := materializeStop_fold h
  have hcontains : ∀ name, (desiredRows bindings 1).contains name =
      (desiredRows bindings 1)[name]?.isSome := fun name =>
    Std.ExtTreeMap.contains_eq_isSome_getElem?
  refine ⟨⟨fun b hb => ?_, fun name row hrow hother => ?_⟩, fun name row hrow => ?_,
    fun name => ?_⟩
  · -- a desired name: the first loop wrote it, the second left it
    have hb' := (hmem b.bindingName (scaled 1 b)).2 ⟨b, hb, rfl, rfl⟩
    obtain ⟨-, row, hrow, hposition, horder, hshares, -⟩ := (hfirst b.bindingName).2 _ hb'
    have hkept := (hsecond b.bindingName).1 (by rw [← desiredRows, hcontains, hb']; rfl)
    refine ⟨row, (congrArg Prod.fst hkept).trans hrow, hposition, horder, ?_⟩
    have hone : (scaled 1 b).shares = b.shares := ShareLaws.mul_one b.shares
    rw [hone] at hshares
    rcases hshares with hshares | hshares
    · rw [hshares]
      exact ShareLaws.beq_self _ (ShareLaws.mul_one b.shares ▸ hfinite b hb)
    · exact hshares
  · -- a name that is not desired: the second loop stopped it
    have hnone : (desiredRows bindings 1)[name]? = none := by
      refine Option.eq_none_iff_forall_ne_some.2 fun b hb => ?_
      obtain ⟨a, ha, hname, -⟩ := (hmem name b).1 hb
      exact hother a ha hname
    have hkept := (hfirst name).1 hnone
    have hstop := ((hsecond name).2 (by rw [← desiredRows, hcontains, hnone]; rfl)
      (congrArg Prod.fst hkept).symm).2
    cases hold : rows.bindings[name]? with
    | none =>
      rw [hold] at hstop
      rw [hstop] at hrow
      cases hrow
    | some old =>
      rw [hold] at hstop
      obtain ⟨row', hrow', -, hshares⟩ := hstop
      rw [hrow, Option.some.injEq] at hrow'
      rw [hrow']
      rcases hshares with hshares | hshares
      · rw [hshares]
        exact ShareLaws.zero_beq
      · exact hshares
  · cases hb : (desiredRows bindings 1)[name]? with
    | none =>
      have hkept := (hfirst name).1 hb
      have hstop := ((hsecond name).2 (by rw [← desiredRows, hcontains, hb]; rfl)
        (congrArg Prod.fst hkept).symm).2
      rw [hrow] at hstop
      obtain ⟨row', hrow', hposition, -⟩ := hstop
      exact ⟨row', hrow', hposition⟩
    | some b =>
      obtain ⟨-, row', hrow', -, -, -, hposition⟩ := (hfirst name).2 b hb
      have hkept := (hsecond name).1 (by rw [← desiredRows, hcontains, hb]; rfl)
      exact ⟨row', (congrArg Prod.fst hkept).trans hrow', hposition row hrow⟩
  · cases hb : (desiredRows bindings 1)[name]? with
    | none =>
      have hkept := (hfirst name).1 hb
      exact announced_congr hkept rfl ((hsecond name).2
        (by rw [← desiredRows, hcontains, hb]; rfl) (congrArg Prod.fst hkept).symm).1
    | some b =>
      have hkept := (hsecond name).1 (by rw [← desiredRows, hcontains, hb]; rfl)
      exact announced_congr rfl hkept ((hfirst name).2 b hb).1

/-- A source that already meets the bindings is left alone, unless every binding is to
be published again. -/
theorem materialize_of_meets [ShareLaws F] {db : Db F} {source : String}
    {rows rows' : SourceRows F} {bindings : List (VirtualBinding F)} {atUs : Int}
    (hmeets : Meets rows bindings)
    (h : db.materialize source rows bindings 1 atUs false = .ok rows') : rows' = rows := by
  obtain ⟨effective, heffective, h⟩ := bind_eq_ok.1 h
  obtain ⟨rfl, hnodup, -⟩ := effectiveBindings_eq_ok heffective
  have hmem : ∀ (name : String) (b : SaveBindingRequest F),
      (desiredRows bindings 1)[name]? = some b ↔
        ∃ a ∈ bindings, a.bindingName = name ∧ scaled 1 a = b :=
    fun name b => getElem?_desiredRows hnodup
  obtain ⟨mid, hmid, h⟩ := bind_eq_ok.1 h
  have hfirst : mid = rows := by
    refine foldlM_invariant (P := fun r => r = rows) (fun p hp r r' hr hstep => ?_) hmid rfl
    obtain ⟨a, ha, hname, hscaled⟩ := (hmem p.1 p.2).1 (OrdMap.mem_toList.1 hp)
    obtain ⟨row, hrow, hposition, horder, hshares⟩ := hmeets.1 a ha
    have hone : p.2.shares = a.shares := by
      rw [← hscaled]
      exact ShareLaws.mul_one a.shares
    rw [hname] at hrow
    rw [Db.materializeDesired, hrow] at hstep
    obtain ⟨_, -, hstep⟩ := bind_eq_ok.1 hstep
    rw [if_pos, if_neg Bool.false_ne_true] at hstep
    · cases hstep
      exact hr
    · rw [Bool.and_eq_true, beq_iff_eq, hone]
      exact ⟨horder.trans (congrArg SaveBindingRequest.orderStrategyName hscaled), hshares⟩
  refine foldlM_invariant (P := fun r => r = rows) (fun p hp r r' hr hstep => ?_) h hfirst
  rw [materializeStop] at hstep
  rw [if_neg] at hstep
  · cases hstep
    exact hr
  · rw [Bool.and_eq_true, Bool.not_eq_true', Bool.or_false, not_and, bne, Bool.not_eq_true',
      Bool.not_eq_false]
    intro hout
    refine hmeets.2 p.1 p.2 (OrdMap.mem_toList.1 hp) fun b hb hname => ?_
    have hb' := (hmem p.1 (scaled 1 b)).2 ⟨b, hb, hname, rfl⟩
    have hin : (desiredRows bindings 1).contains p.1 = true := by
      rw [Std.ExtTreeMap.contains_eq_isSome_getElem?, hb']
      rfl
    rw [desiredRows] at hin
    rw [hin] at hout
    cases hout

end

end CtaManager.Accounts
