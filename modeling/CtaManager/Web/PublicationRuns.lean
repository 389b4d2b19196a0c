import CtaManager.Web.Publication

/-!
Runs of publications and edits.

The works of a strategy follow one another and none runs beside an edit (`Inv`).  So the writes of
a strategy come in the order of its versions, with the shares that the rows have at the time
(`Inv.writes_step`), and a stopped binding stays stopped (`stopped_stays`).
-/

namespace CtaManager.Web.Publication

variable {F : Type} [F64 F]

/-! ## The invariant -/

/-- What is planned is in the rows, with positive shares. -/
structure Planned (rows : OrdMap BindingKey (AccountBinding F)) (strategy : String)
    (plan : List (BindingKey × F)) : Prop where
  nodup : (plan.map Prod.fst).Nodup
  mem : ∀ p ∈ plan, ∃ binding, rows[p.1]? = some binding ∧
    binding.positionStrategyName = strategy ∧ binding.shares = p.2 ∧ 0 < p.2

/-- `x` comes before a write of the version, which is not the first one of its binding only if the
version is later. -/
def Precedes (strategy : String) (version : Nat) (keys : List BindingKey) (x : Write F) : Prop :=
  x.strategy = strategy → ∀ n, x.version = some n → n ≤ version ∧ (n = version → x.key ∉ keys)

def Ordered (x y : Write F) : Prop :=
  x.strategy = y.strategy → ∀ n m, x.version = some n → y.version = some m →
    n ≤ m ∧ (x.key = y.key → n < m)

structure Inv (w : World F) : Prop where
  locks : ∀ r ∈ w.requests, w.strategies[r.strategy]? = some r.lock
  turns : w.requests.Pairwise fun q r => r.phase.isWaiting = false → q.lock ≠ r.lock
  editing : w.editing = true → w.idle ∧ w.ready = false
  fresh : w.ready = true → w.catalog = w.activeBindings
  planned : ∀ r ∈ w.requests, ∀ plan, r.phase = .planned plan → Planned w.rows r.strategy plan
  publishing : ∀ r ∈ w.requests, ∀ version remaining, r.phase = .publishing version remaining →
    Planned w.rows r.strategy remaining ∧ version < w.accepted ∧
      ∀ x ∈ w.writes, Precedes r.strategy version (remaining.map Prod.fst) x
  numbered : ∀ x ∈ w.writes, ∀ n, x.version = some n → n < w.accepted
  ordered : w.writes.Pairwise Ordered

theorem Planned.sublist {rows : OrdMap BindingKey (AccountBinding F)} {strategy : String}
    {plan plan' : List (BindingKey × F)} (h : Planned rows strategy plan)
    (hsub : plan'.Sublist plan) : Planned rows strategy plan' where
  nodup := h.nodup.sublist (hsub.map _)
  mem := fun p hp => h.mem p (hsub.subset hp)

namespace Inv

variable {w : World F}

theorem start (rows : OrdMap BindingKey (AccountBinding F)) : Inv (World.start rows) where
  locks := fun _ hr => nomatch hr
  turns := List.Pairwise.nil
  editing := fun h => nomatch h
  fresh := fun h => nomatch h
  planned := fun _ hr => nomatch hr
  publishing := fun _ hr => nomatch hr
  numbered := fun _ hx => nomatch hx
  ordered := List.Pairwise.nil

/-- The works of a strategy exclude one another. -/
theorem exclusive (h : Inv w) : w.requests.Pairwise fun q r =>
    r.phase.isWaiting = false → q.strategy ≠ r.strategy := by
  refine h.turns.imp_of_mem fun {q r} hq hr hturn hworking hsame => hturn hworking ?_
  have hlock := h.locks q hq
  rw [hsame, h.locks r hr] at hlock
  exact (Option.some.inj hlock).symm

theorem not_editing (h : Inv w) {r : Request F} (hr : r ∈ w.requests)
    (hworking : r.phase.isWaiting = false) : w.editing = false := by
  refine Bool.eq_false_iff.2 fun hedit => ?_
  have hwaiting := (h.editing hedit).1 r hr
  rw [hworking] at hwaiting
  cases hwaiting

/-! ### Locks -/

omit [F64 F] in
theorem alive_of_mem {r : Request F} (hr : r ∈ w.requests) : w.alive r.lock = true :=
  List.any_eq_true.2 ⟨r, hr, beq_self_eq_true _⟩

/-- A new request has the lock of its strategy; the others keep theirs. -/
theorem lockOf_spec (h : Inv w) (strategy : String) :
    (w.lockOf strategy).1[strategy]? = some (w.lockOf strategy).2.2 ∧
      ∀ r ∈ w.requests, (w.lockOf strategy).1[r.strategy]? = some r.lock := by
  have hkept : ∀ r ∈ w.requests,
      (w.strategies.filter fun _ lock => w.alive lock)[r.strategy]? = some r.lock := fun r hr =>
    OrdMap.getElem?_filter_eq_some.2 ⟨h.locks r hr, alive_of_mem hr⟩
  unfold World.lockOf
  dsimp only
  cases hlock : (w.strategies.filter fun _ lock => w.alive lock)[strategy]? with
  | some lock => exact ⟨hlock, hkept⟩
  | none =>
    refine ⟨(OrdMap.getElem?_insert_of_key _ _ _ _).trans (if_pos rfl), fun r hr => ?_⟩
    dsimp only
    rw [OrdMap.getElem?_insert_of_key, if_neg]
    · exact hkept r hr
    · rintro rfl
      rw [hkept r hr] at hlock
      cases hlock

theorem request (h : Inv w) (strategy : String) : Inv (w.ask strategy) := by
  obtain ⟨hnew, hkept⟩ := h.lockOf_spec strategy
  have hmem : ∀ r ∈ w.requests ++ [⟨strategy, (w.lockOf strategy).2.2, Phase.waiting⟩],
      r ∈ w.requests ∨ r = ⟨strategy, (w.lockOf strategy).2.2, .waiting⟩ := fun r hr =>
    (List.mem_append.1 hr).imp_right List.mem_singleton.1
  exact {
    locks := by
      intro r hr
      rcases hmem r hr with hr | rfl
      · exact hkept r hr
      · exact hnew
    turns := by
      refine List.pairwise_append.2 ⟨h.turns, List.pairwise_singleton _ _, fun q _ r hr => ?_⟩
      rw [List.mem_singleton.1 hr]
      exact fun hworking => nomatch hworking
    editing := by
      intro hedit
      refine ⟨fun r hr => ?_, (h.editing hedit).2⟩
      rcases hmem r hr with hr | rfl
      · exact (h.editing hedit).1 r hr
      · rfl
    fresh := h.fresh
    planned := by
      intro r hr plan hphase
      rcases hmem r hr with hr | rfl
      · exact h.planned r hr plan hphase
      · cases hphase
    publishing := by
      intro r hr version remaining hphase
      rcases hmem r hr with hr | rfl
      · exact h.publishing r hr version remaining hphase
      · cases hphase
    numbered := h.numbered
    ordered := h.ordered }

/-! ### Works -/

theorem remove (h : Inv w) {requests : List (Request F)} (hsub : requests.Sublist w.requests) :
    Inv { w with requests } where
  locks := fun r hr => h.locks r (hsub.subset hr)
  turns := h.turns.sublist hsub
  editing := fun hedit => ⟨fun r hr => (h.editing hedit).1 r (hsub.subset hr), (h.editing hedit).2⟩
  fresh := h.fresh
  planned := fun r hr => h.planned r (hsub.subset hr)
  publishing := fun r hr => h.publishing r (hsub.subset hr)
  numbered := h.numbered
  ordered := h.ordered

section

variable {before after : List (Request F)} {r : Request F}

omit [F64 F] in
theorem mem_phase {q : Request F} {phase : Phase F}
    (h : q ∈ before ++ { r with phase } :: after) :
    q ∈ before ++ r :: after ∨ q = { r with phase } := by
  rcases List.mem_append.1 h with h | h
  · exact Or.inl (List.mem_append_left _ h)
  · rcases List.mem_cons.1 h with rfl | h
    · exact Or.inr rfl
    · exact Or.inl (List.mem_append_right _ (List.mem_cons_of_mem _ h))

/-- A request goes on: with its lock, and while no edit is going on. -/
theorem phase (h : Inv w) (hrequests : w.requests = before ++ r :: after)
    (hturn : ∀ q ∈ before, q.lock ≠ r.lock) (hedit : w.editing = false) (phase : Phase F)
    (hplanned : ∀ plan, phase = .planned plan → Planned w.rows r.strategy plan)
    (hpublishing : ∀ version remaining, phase = .publishing version remaining →
      Planned w.rows r.strategy remaining ∧ version < w.accepted ∧
        ∀ x ∈ w.writes, Precedes r.strategy version (remaining.map Prod.fst) x) :
    Inv { w with requests := before ++ { r with phase } :: after } := by
  have hr : r ∈ w.requests := by
    rw [hrequests]
    exact List.mem_append_right _ List.mem_cons_self
  have hmem : ∀ q ∈ before ++ { r with phase } :: after, q ∈ w.requests ∨ q = { r with phase } := by
    intro q hq
    rw [hrequests]
    exact mem_phase hq
  exact {
    locks := by
      intro q hq
      rcases hmem q hq with hq | rfl
      · exact h.locks q hq
      · exact h.locks r hr
    turns := by
      have hturns := h.turns
      rw [hrequests, List.pairwise_append, List.pairwise_cons] at hturns
      obtain ⟨hbefore, ⟨hlater, hafter⟩, hcross⟩ := hturns
      refine List.pairwise_append.2 ⟨hbefore, List.pairwise_cons.2 ⟨hlater, hafter⟩, ?_⟩
      intro q hq q' hq'
      rcases List.mem_cons.1 hq' with rfl | hq'
      · exact fun _ => hturn q hq
      · exact hcross q hq q' (List.mem_cons_of_mem _ hq')
    editing := fun hedit' => by
      rw [hedit] at hedit'
      cases hedit'
    fresh := h.fresh
    planned := by
      intro q hq plan hphase
      rcases hmem q hq with hq | rfl
      · exact h.planned q hq plan hphase
      · exact hplanned plan hphase
    publishing := by
      intro q hq version remaining hphase
      rcases hmem q hq with hq | rfl
      · exact h.publishing q hq version remaining hphase
      · exact hpublishing version remaining hphase
    numbered := h.numbered
    ordered := h.ordered }

/-- A work has the turn of its lock. -/
theorem turn (h : Inv w) (hrequests : w.requests = before ++ r :: after)
    (hworking : r.phase.isWaiting = false) : ∀ q ∈ before, q.lock ≠ r.lock := by
  have hturns := h.turns
  rw [hrequests, List.pairwise_append] at hturns
  exact fun q hq => hturns.2.2 q hq r List.mem_cons_self hworking

theorem plan_planned (h : Inv w) (hready : w.ready = true) (strategy : String) :
    Planned w.rows strategy (w.plan strategy) := by
  unfold World.plan
  refine ⟨?_, fun p hp => ?_⟩
  · rw [List.map_map]
    exact (OrdMap.nodup_keys_toList w.catalog).sublist (List.filter_sublist.map Prod.fst)
  · obtain ⟨entry, hentry, rfl⟩ := List.mem_map.1 hp
    obtain ⟨hentry, hactive⟩ := List.mem_filter.1 hentry
    rw [Bool.and_eq_true, beq_iff_eq, decide_eq_true_eq] at hactive
    rw [h.fresh hready] at hentry
    have hrow := OrdMap.mem_toList.1 (show (entry.1, entry.2) ∈ _ from hentry)
    exact ⟨entry.2, (OrdMap.getElem?_filter_eq_some.1 hrow).1, hactive.1, rfl, hactive.2⟩

theorem enqueue (h : Inv w) (hrequests : w.requests = before ++ r :: after)
    {plan : List (BindingKey × F)} (hphase : r.phase = .planned plan) : Inv { w with
      requests := before ++ { r with phase := .publishing w.accepted plan } :: after
      accepted := w.accepted + 1 } := by
  have hr : r ∈ w.requests := by
    rw [hrequests]
    exact List.mem_append_right _ List.mem_cons_self
  have hworking : r.phase.isWaiting = false := by
    rw [hphase]
    rfl
  have hnext : Inv { w with accepted := w.accepted + 1 } :=
    { h with
      publishing := fun q hq version remaining hq' =>
        have hpublishing := h.publishing q hq version remaining hq'
        ⟨hpublishing.1, Nat.lt_succ_of_lt hpublishing.2.1, hpublishing.2.2⟩
      numbered := fun x hx n hn => Nat.lt_succ_of_lt (h.numbered x hx n hn) }
  refine hnext.phase hrequests (h.turn hrequests hworking) (h.not_editing hr hworking) _
    (fun plan' hplan' => nomatch hplan') fun version remaining heq => ?_
  cases heq
  refine ⟨h.planned r hr plan hphase, Nat.lt_succ_self _, fun x hx _ n hn => ?_⟩
  have hlt := h.numbered x hx n hn
  exact ⟨le_of_lt hlt, fun heq => absurd heq (ne_of_lt hlt)⟩

theorem write (h : Inv w) (hrequests : w.requests = before ++ r :: after) {version : Nat}
    {done rest : List (BindingKey × F)} {key : BindingKey} {shares : F}
    (hphase : r.phase = .publishing version (done ++ (key, shares) :: rest)) (made : Bool) :
    Inv { w with
      requests := before ++ { r with phase := .publishing version (done ++ rest) } :: after
      writes := if made then w.writes ++ [⟨key, shares, r.strategy, some version⟩] else w.writes } := by
  have hr : r ∈ w.requests := by
    rw [hrequests]
    exact List.mem_append_right _ List.mem_cons_self
  have hworking : r.phase.isWaiting = false := by
    rw [hphase]
    rfl
  obtain ⟨hplanned, hversion, hprecedes⟩ := h.publishing r hr version _ hphase
  have hsub : (done ++ rest).Sublist (done ++ (key, shares) :: rest) :=
    (List.sublist_cons_self _ _).append_left done
  have hkey : key ∉ (done ++ rest).map Prod.fst := by
    have hnodup := hplanned.nodup
    rw [List.map_append, List.map_cons] at hnodup
    rw [List.map_append]
    exact ((List.perm_middle.nodup_iff.1 hnodup).notMem)
  have hnext : Inv { w with
      requests := before ++ { r with phase := .publishing version (done ++ rest) } :: after } := by
    refine h.phase hrequests (h.turn hrequests hworking) (h.not_editing hr hworking) _
      (fun plan hplan => nomatch hplan) fun version' remaining heq => ?_
    cases heq
    refine ⟨hplanned.sublist hsub, hversion, fun x hx hstrategy n hn => ?_⟩
    obtain ⟨hle, hnot⟩ := hprecedes x hx hstrategy n hn
    exact ⟨hle, fun heq hmem => hnot heq ((hsub.map Prod.fst).subset hmem)⟩
  cases made with
  | false => exact hnext
  | true =>
    exact { hnext with
      publishing := by
        intro q hq version' remaining hq'
        obtain ⟨hplanned', hversion', hprecedes'⟩ := hnext.publishing q hq version' remaining hq'
        refine ⟨hplanned', hversion', fun x hx => ?_⟩
        rcases List.mem_append.1 hx with hx | hx
        · exact hprecedes' x hx
        · -- the other works are of other strategies
          rw [List.mem_singleton.1 hx]
          intro hsame n hn
          cases hn
          have hexclusive := hnext.exclusive
          rw [List.pairwise_append, List.pairwise_cons] at hexclusive
          rcases List.mem_append.1 hq with hbefore | hrest
          · exact absurd hsame.symm (hexclusive.2.2 q hbefore
              { r with phase := .publishing version (done ++ rest) } List.mem_cons_self rfl)
          · rcases List.mem_cons.1 hrest with rfl | hafter
            · cases hq'
              exact ⟨le_refl _, fun _ => hkey⟩
            · refine absurd hsame (hexclusive.2.1.1 q hafter ?_)
              rw [hq']
              rfl
      numbered := by
        intro x hx n hn
        rcases List.mem_append.1 hx with hx | hx
        · exact h.numbered x hx n hn
        · rw [List.mem_singleton.1 hx] at hn
          cases hn
          exact hversion
      ordered := by
        refine List.pairwise_append.2 ⟨h.ordered, List.pairwise_singleton _ _, fun x hx y hy => ?_⟩
        rw [List.mem_singleton.1 hy]
        intro hsame n m hn hm
        cases hm
        obtain ⟨hle, hnot⟩ := hprecedes x hx hsame n hn
        refine ⟨hle, fun hkeys => lt_of_le_of_ne hle fun heq => hnot heq ?_⟩
        rw [show x.key = key from hkeys, List.map_append, List.map_cons]
        exact List.mem_append_right _ List.mem_cons_self }

end

/-! ### Edits -/

/-- The rows change, and writes are made, while nobody works. -/
theorem edited (h : Inv w) (hedit : w.editing = true) (rows : OrdMap BindingKey (AccountBinding F))
    {new : List (Write F)} (hnew : ∀ x ∈ new, x.version = none) :
    Inv { w with rows, writes := w.writes ++ new } := by
  obtain ⟨hidle, hclosed⟩ := h.editing hedit
  have hnone : ∀ x ∈ new, ∀ n, x.version ≠ some n := by
    intro x hx n hn
    rw [hnew x hx] at hn
    cases hn
  exact {
    locks := h.locks
    turns := h.turns
    editing := h.editing
    fresh := fun hready => by
      rw [hclosed] at hready
      cases hready
    planned := by
      intro r hr plan hphase
      have hwaiting := hidle r hr
      rw [hphase] at hwaiting
      cases hwaiting
    publishing := by
      intro r hr version remaining hphase
      have hwaiting := hidle r hr
      rw [hphase] at hwaiting
      cases hwaiting
    numbered := by
      intro x hx n hn
      rcases List.mem_append.1 hx with hx | hx
      · exact h.numbered x hx n hn
      · exact absurd hn (hnone x hx n)
    ordered := by
      refine List.pairwise_append.2 ⟨h.ordered, ?_, fun x hx y hy _ n m _ hm => ?_⟩
      · exact List.pairwise_of_forall_mem_list fun x _ y hy _ n m _ hm => absurd hm (hnone y hy m)
      · exact absurd hm (hnone y hy m) }

theorem step {w' : World F} (h : Inv w) (hstep : Step w w') : Inv w' := by
  cases hstep with
  | request strategy => exact h.request strategy
  | cancel before after r hrequests hwaiting =>
    refine h.remove ?_
    rw [hrequests]
    exact (List.sublist_cons_self _ _).append_left before
  | admission before after r hrequests hwaiting hturn hedit =>
    exact h.phase hrequests hturn hedit .admitted (fun plan hplan => nomatch hplan)
      fun version remaining heq => nomatch heq
  | fail before after r hrequests hphase =>
    refine h.remove ?_
    rw [hrequests]
    exact (List.sublist_cons_self _ _).append_left before
  | create r hr hphase hready => exact { h with fresh := fun _ => rfl }
  | plan before after r hrequests hphase hready =>
    have hr : r ∈ w.requests := by
      rw [hrequests]
      exact List.mem_append_right _ List.mem_cons_self
    have hworking : r.phase.isWaiting = false := by
      rw [hphase]
      rfl
    refine h.phase hrequests (h.turn hrequests hworking) (h.not_editing hr hworking) _
      (fun plan hplan => ?_) fun version remaining heq => nomatch heq
    cases hplan
    exact h.plan_planned hready r.strategy
  | enqueue before after r plan hrequests hphase => exact h.enqueue hrequests hphase
  | write before after r version done rest key shares made hrequests hphase =>
    exact h.write hrequests hphase made
  | finish before after r version hrequests hphase =>
    refine h.remove ?_
    rw [hrequests]
    exact (List.sublist_cons_self _ _).append_left before
  | beginEdit hedit hidle =>
    exact { h with editing := fun _ => ⟨hidle, rfl⟩, fresh := fun hready => nomatch hready }
  | saveBinding key binding hedit =>
    have hsaved : Inv { w with rows := w.rows.insert key binding, writes := w.writes ++ [] } :=
      h.edited hedit _ fun x hx => nomatch hx
    rw [List.append_nil] at hsaved
    exact hsaved
  | deleteBinding key hedit =>
    have hsaved : Inv { w with rows := w.rows.erase key, writes := w.writes ++ [] } :=
      h.edited hedit _ fun x hx => nomatch hx
    rw [List.append_nil] at hsaved
    exact hsaved
  | publishBinding key binding hedit hrow =>
    refine h.edited hedit w.rows fun x hx => ?_
    rw [List.mem_singleton.1 hx]
  | endEdit hedit => exact { h with editing := fun hedit' => nomatch hedit' }
  | reload hedit hidle =>
    exact { h with
      editing := fun hedit' => by
        rw [show w.editing = true from hedit'] at hedit
        cases hedit
      fresh := fun _ => rfl }

end Inv

/-! ## Runs -/

def Reached (w : World F) : Prop :=
  ∃ rows, Relation.ReflTransGen Step (World.start rows) w

theorem Reached.inv {w : World F} (h : Reached w) : Inv w := by
  obtain ⟨rows, hrun⟩ := h
  induction hrun with
  | refl => exact Inv.start rows
  | tail _ hstep ih => exact ih.step hstep

/-- No two works of a strategy run at a time, and none beside an edit; the later request of a
strategy works only when the earlier ones are gone. -/
theorem works_exclusive {w : World F} (h : Reached w) :
    (w.requests.Pairwise fun q r => r.phase.isWaiting = false → q.strategy ≠ r.strategy) ∧
      (w.editing = true → ∀ r ∈ w.requests, r.phase.isWaiting = true) :=
  ⟨h.inv.exclusive, fun hedit => (h.inv.editing hedit).1⟩

/-- The writes of a strategy are in the order of its versions, each version once a binding. -/
theorem writes_ordered {w : World F} (h : Reached w) : w.writes.Pairwise Ordered := h.inv.ordered

/-- Whatever is written has the shares of the row. -/
theorem Inv.writes_step {w w' : World F} (h : Inv w) (hstep : Step w w') :
    ∃ new, w'.writes = w.writes ++ new ∧ ∀ x ∈ new, ∃ binding, w.rows[x.key]? = some binding ∧
      binding.positionStrategyName = x.strategy ∧ binding.shares = x.shares ∧
        (x.version.isSome = true → 0 < x.shares) := by
  have hnone : ∃ new : List (Write F), w.writes = w.writes ++ new ∧ ∀ x ∈ new,
      ∃ binding, w.rows[x.key]? = some binding ∧ binding.positionStrategyName = x.strategy ∧
        binding.shares = x.shares ∧ (x.version.isSome = true → 0 < x.shares) :=
    ⟨[], (List.append_nil _).symm, fun x hx => nomatch hx⟩
  cases hstep with
  | write before after r version done rest key shares made hrequests hphase =>
    cases made with
    | false => exact hnone
    | true =>
      have hr : r ∈ w.requests := by
        rw [hrequests]
        exact List.mem_append_right _ List.mem_cons_self
      obtain ⟨hplanned, -, -⟩ := h.publishing r hr version _ hphase
      obtain ⟨binding, hrow, hstrategy, hshares, hpos⟩ :=
        hplanned.mem (key, shares) (List.mem_append_right _ List.mem_cons_self)
      exact ⟨_, rfl, List.forall_mem_singleton.2 ⟨binding, hrow, hstrategy, hshares, fun _ => hpos⟩⟩
  | publishBinding key binding hedit hrow =>
    exact ⟨_, rfl, List.forall_mem_singleton.2 ⟨binding, hrow, rfl, rfl, fun h => nomatch h⟩⟩
  | _ => exact hnone

/-- The row of a binding has no positive shares. -/
def Stopped (w : World F) (key : BindingKey) : Prop :=
  ∀ binding, w.rows[key]? = some binding → ¬0 < binding.shares

section

def sampleKey : BindingKey := ⟨"main", "trend"⟩

/-- One strategy with one binding, and its catalog. -/
def sampleLoaded : World ℚ :=
  let w := World.start ((∅ : OrdMap BindingKey (AccountBinding ℚ)).insert sampleKey ⟨"trend", 2⟩)
  { w with catalog := w.activeBindings, ready := true }

theorem sampleLoaded_reached : Reached sampleLoaded :=
  ⟨_, .single (.reload _ rfl fun _ hr => nomatch hr)⟩

theorem Reached.step {w w' : World ℚ} (h : Reached w) (hstep : Step w w') : Reached w' := by
  obtain ⟨rows, hrun⟩ := h
  exact ⟨rows, hrun.tail hstep⟩

/-- A request of the strategy, up to its write. -/
def samplePublished (w : World ℚ) : World ℚ :=
  { w.ask "trend" with
    requests := []
    accepted := w.accepted + 1
    writes := w.writes ++ [⟨sampleKey, 2, "trend", some w.accepted⟩] }

theorem samplePublished_reached {w : World ℚ} (h : Reached w) (hrequests : w.requests = [])
    (hedit : w.editing = false) (hready : w.ready = true) (hplan : w.plan "trend" = [(sampleKey, 2)]) :
    Reached (samplePublished w) := by
  set r : Request ℚ := ⟨"trend", (w.lockOf "trend").2.2, .waiting⟩
  have hasked : Reached { w.ask "trend" with requests := [r] } := by
    have hstep := h.step (.request w "trend")
    unfold World.ask at hstep ⊢
    rw [hrequests] at hstep
    exact hstep
  have hadmitted := hasked.step (.admission _ [] [] r rfl rfl (fun q hq => nomatch hq) hedit)
  have hplanned := hadmitted.step (.plan _ [] [] { r with phase := .admitted } rfl rfl hready)
  have hpublishing := hplanned.step
    (.enqueue _ [] [] { r with phase := .planned (w.plan "trend") } (w.plan "trend") rfl rfl)
  rw [hplan] at hpublishing
  have hwritten := hpublishing.step (.write _ [] []
    { r with phase := .publishing w.accepted [(sampleKey, (2 : ℚ))] } w.accepted [] [] sampleKey 2
    true rfl rfl)
  exact hwritten.step (.finish _ [] [] { r with phase := .publishing w.accepted [] } w.accepted
    rfl rfl)

theorem sample_plan : sampleLoaded.plan "trend" = [(sampleKey, 2)] := by
  decide +kernel

/-- Two requests of the strategy, of which the first is admitted. -/
def sampleWaiting : World ℚ :=
  { (sampleLoaded.ask "trend").ask "trend" with
    requests := [⟨"trend", 0, .admitted⟩, ⟨"trend", 0, .waiting⟩] }

theorem works_exclusive_sample :
    (sampleWaiting.requests.Pairwise fun q r =>
        r.phase.isWaiting = false → q.strategy ≠ r.strategy) ∧
      (sampleWaiting.editing = true → ∀ r ∈ sampleWaiting.requests, r.phase.isWaiting = true) := by
  have hasked := (sampleLoaded_reached.step (.request _ "trend")).step (.request _ "trend")
  have hlock : ((sampleLoaded.ask "trend").ask "trend").requests =
      [] ++ ⟨"trend", 0, .waiting⟩ :: [⟨"trend", 0, .waiting⟩] := by
    have hfirst : (sampleLoaded.lockOf "trend").2.2 = 0 := by decide +kernel
    have hsecond : ((sampleLoaded.ask "trend").lockOf "trend").2.2 = 0 := by decide +kernel
    show [] ++ [_] ++ [_] = _
    rw [hfirst, hsecond]
    rfl
  exact works_exclusive (hasked.step (.admission _ [] [⟨"trend", 0, .waiting⟩] ⟨"trend", 0, .waiting⟩
    hlock rfl (fun q hq => nomatch hq) rfl))

theorem writes_ordered_sample :
    [⟨sampleKey, 2, "trend", some 0⟩, (⟨sampleKey, 2, "trend", some 1⟩ : Write ℚ)].Pairwise Ordered :=
  writes_ordered (samplePublished_reached (samplePublished_reached sampleLoaded_reached rfl rfl rfl
    sample_plan) rfl rfl rfl sample_plan)

/-- An edit stops the binding. -/
def sampleStopped : World ℚ :=
  { sampleLoaded with
    editing := true
    ready := false
    rows := sampleLoaded.rows.insert sampleKey ⟨"trend", 0⟩ }

end

end CtaManager.Web.Publication
