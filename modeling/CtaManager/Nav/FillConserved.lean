import CtaManager.Nav.FillRoles

/-!
What the recovery of an order conserves, in exact arithmetic.

`OrderRecovered` is what holds of the rows of one order: their total, that none is without a
price, that no execution is used twice, and that roles alone change no price, time or
quantity.  `replaceOrders_recovered` has it for every wanted order of a run.
-/

namespace CtaManager.FillRecovery

open Check StableSort

variable {original events rows result : List (NavEvent ℚ)} {order : List (Fill ℚ)}
  {key : LiquidityOrderKey} {wanted : OrdSet LiquidityOrderKey}

/-! ## Executions -/

namespace Evidence

variable (evidence : Evidence ℚ)

/-- The executions of an order, each once, by transaction id. -/
theorem executions_sorted {order : OrderFills ℚ} (h : evidence.fills[key]? = some order) :
    (executions order).Pairwise fun a b => a.transactionId < b.transactionId := by
  unfold executions
  rw [List.pairwise_map]
  refine List.Pairwise.imp_of_mem ?_ (OrdMap.sorted_keys_toList order)
  intro a b ha hb hab
  have hmem := OrdMap.mem_toList.2 h
  rw [evidence.transactionId_eq _ hmem a ha, evidence.transactionId_eq _ hmem b hb]
  exact hab

theorem positive_of_mem {order : OrderFills ℚ} (h : evidence.fills[key]? = some order) :
    ∀ fill ∈ executions order, 0 < fill.quantity ∧ 0 < fill.price := by
  intro fill hfill
  obtain ⟨entry, hentry, rfl⟩ := List.mem_map.1 hfill
  have hpositive := evidence.positive _ (OrdMap.mem_toList.2 h) entry hentry
  rw [Exact.isPositive_iff, Exact.isPositive_iff] at hpositive
  exact hpositive

end Evidence

theorem share_of_mem (hsorted : order.Pairwise fun a b => a.transactionId < b.transactionId)
    {fill : Fill ℚ} (hfill : fill ∈ order) :
    Draw.share (fun f => f == fill) (order.map fun f => (f, f.quantity)) = fill.quantity := by
  induction order with
  | nil => exact absurd hfill List.not_mem_nil
  | cons first order ih =>
    rw [List.pairwise_cons] at hsorted
    have hnone : ∀ {g : Fill ℚ}, (∀ f ∈ order, f ≠ g) →
        Draw.share (fun f => f == g) (order.map fun f => (f, f.quantity)) = 0 := by
      intro g hg
      apply List.sum_eq_zero
      intro x hx
      obtain ⟨lot, hlot, rfl⟩ := List.mem_map.1 hx
      obtain ⟨f, hf, rfl⟩ := List.mem_map.1 hlot
      rw [if_neg]
      rw [beq_iff_eq]
      exact hg f hf
    rw [List.map_cons, Draw.share_cons]
    rcases List.mem_cons.1 hfill with rfl | hmem
    · rw [if_pos (beq_self_eq_true fill), hnone, add_zero]
      intro f hf heq
      have := hsorted.1 f hf
      rw [heq] at this
      exact lt_irrefl _ this
    · rw [if_neg, zero_add]
      · exact ih hsorted.2 hmem
      · rw [beq_iff_eq]
        rintro rfl
        exact lt_irrefl _ (hsorted.1 first hmem)

/-! ## One order -/

theorem amountTotal_perm {l₁ l₂ : List (NavEvent ℚ)} (h : l₁.Perm l₂) :
    amountTotal l₁ = amountTotal l₂ := by
  unfold amountTotal
  rw [Exact.sum_eq, Exact.sum_eq]
  exact (h.map _).sum_eq

theorem pointTotal_perm {l₁ l₂ : List (NavEvent ℚ)} (h : l₁.Perm l₂) (price : ℚ) (tsUs : Int) :
    pointTotal price tsUs l₁ = pointTotal price tsUs l₂ :=
  amountTotal_perm (h.filter _)

/-- The executions take the place of the lifecycle rows. -/
def Replaces (original : List (NavEvent ℚ)) (order : List (Fill ℚ)) : Prop :=
  amountTotal original + totalTolerance (amountTotal original) (quantityTotal order) <
      quantityTotal order ∨
    original.any needsPrice = true

/-- The rows of an order, with its lifecycle sorted by key. -/
theorem recoverOrder_cases {fills : Option (OrderFills ℚ)} (hne : original ≠ [])
    (h : recoverOrder key original fills = .ok rows) :
    ∃ template rest, stableSort NavEvent.recordKey original = template :: rest ∧
      0 ≤ amountTotal (template :: rest) ∧
      (∀ event ∈ template :: rest, attributedAs template event = true) ∧
      ((rows = template :: rest ∧ (template :: rest).any needsPrice = false ∧
          ∀ order, fills = some order →
            quantityTotal (executions order) + totalTolerance (amountTotal (template :: rest))
              (quantityTotal (executions order)) < amountTotal (template :: rest)) ∨
        ∃ order first others, fills = some order ∧ executions order = first :: others ∧
          (∀ fill ∈ first :: others, identifiedAs template first.orderId fill = true) ∧
          amountTotal (template :: rest) ≤ quantityTotal (first :: others) +
            totalTolerance (amountTotal (template :: rest)) (quantityTotal (first :: others)) ∧
          ((|quantityTotal (first :: others) - amountTotal (template :: rest)| ≤
                totalTolerance (amountTotal (template :: rest)) (quantityTotal (first :: others)) ∧
              (template :: rest).any needsPrice = false ∧
              applyRoles (template :: rest) (first :: others) = .ok rows) ∨
            (¬(|quantityTotal (first :: others) - amountTotal (template :: rest)| ≤
                  totalTolerance (amountTotal (template :: rest))
                    (quantityTotal (first :: others)) ∧
                (template :: rest).any needsPrice = false) ∧
              rows = (first :: others).map (recovered template) ++
                (template :: rest).filter fun event => event.amountUpdate == 0))) := by
  unfold recoverOrder at h
  dsimp only at h
  cases hsort : stableSort NavEvent.recordKey original with
  | nil =>
    have hperm := perm_stableSort NavEvent.recordKey original
    rw [hsort] at hperm
    exact absurd hperm.symm.eq_nil hne
  | cons template rest =>
    rw [hsort] at h
    obtain ⟨_, hexpected, h⟩ := bind_eq_ok.1 h
    obtain ⟨_, hattributed, h⟩ := bind_eq_ok.1 h
    rw [ensure_eq_ok, Bool.and_eq_true, decide_eq_true_eq] at hexpected
    rw [ensure_eq_ok, List.all_eq_true] at hattributed
    refine ⟨template, rest, rfl, hexpected.2, hattributed, ?_⟩
    cases fills with
    | none =>
      obtain ⟨_, hpriced, h⟩ := bind_eq_ok.1 h
      cases h
      rw [ensure_eq_ok, Bool.not_eq_true'] at hpriced
      exact Or.inl ⟨rfl, hpriced, fun order horder => by cases horder⟩
    | some order =>
      dsimp only at h
      split at h
      · next hkeep =>
        cases h
        rw [Bool.and_eq_true, decide_eq_true_eq, Bool.not_eq_true'] at hkeep
        refine Or.inl ⟨rfl, hkeep.2, fun order' horder' => ?_⟩
        cases horder'
        exact hkeep.1
      · obtain ⟨_, hactual, h⟩ := bind_eq_ok.1 h
        rw [ensure_eq_ok, Bool.and_eq_true, decide_eq_true_eq] at hactual
        cases hlist : executions order with
        | nil =>
          rw [hlist] at h
          cases h
        | cons first others =>
          rw [hlist] at h hactual
          obtain ⟨_, hidentified, h⟩ := bind_eq_ok.1 h
          rw [forM_eq_ok] at hidentified
          refine Or.inr ⟨order, first, others, rfl, hlist, fun fill hfill => ?_, hactual.2, ?_⟩
          · exact (ensure_eq_ok _ _ _).1 (hidentified fill hfill)
          · split at h
            · next hroles =>
              rw [Bool.and_eq_true, decide_eq_true_eq, Bool.not_eq_true'] at hroles
              exact Or.inl ⟨hroles.1, hroles.2, h⟩
            · next hroles =>
              cases h
              rw [Bool.and_eq_true, decide_eq_true_eq, Bool.not_eq_true'] at hroles
              exact Or.inr ⟨hroles, rfl⟩

/-! ## Roles -/

theorem needsPrice_eq_false {event : NavEvent ℚ} :
    needsPrice event = false ↔ (0 < event.amountUpdate → 0 < event.price) := by
  unfold needsPrice
  simp

theorem any_needsPrice_eq_false :
    events.any needsPrice = false ↔ ∀ event ∈ events, needsPrice event = false := by
  rw [List.any_eq_false]
  simp only [Bool.not_eq_true]

theorem matchRow_priced {remaining remaining' : List (Fill ℚ × ℚ)} {event : NavEvent ℚ}
    (h : matchRow remaining event = .ok (remaining', rows)) (hpriced : needsPrice event = false) :
    ∀ row ∈ rows, needsPrice row = false := by
  rcases matchRow_cases h with ⟨_, rfl⟩ | ⟨hpos, _⟩
  · exact List.forall_mem_singleton.2 hpriced
  · intro row hrow
    rw [needsPrice_eq_false, ((matchRow_sameFill h).1 row hrow).price_eq]
    exact fun _ => needsPrice_eq_false.1 hpriced hpos

theorem matchRows_priced {remaining : List (Fill ℚ × ℚ)} (h : matchRows remaining events = .ok rows)
    (hpriced : ∀ event ∈ events, needsPrice event = false) :
    ∀ row ∈ rows, needsPrice row = false := by
  induction events generalizing remaining rows with
  | nil =>
    cases h
    exact fun row hrow => absurd hrow List.not_mem_nil
  | cons event events ih =>
    obtain ⟨remaining', first, rest, hfirst, hrest, rfl⟩ := matchRows_cons h
    rw [List.forall_mem_cons] at hpriced
    intro row hrow
    rcases List.mem_append.1 hrow with hrow | hrow
    · exact matchRow_priced hfirst hpriced.1 row hrow
    · exact ih hrest hpriced.2 row hrow

/-- A row that only gets the one role of all executions. -/
def RoleSet (role : FillLiquidity) (event row : NavEvent ℚ) : Prop :=
  row = if 0 < event.amountUpdate then { event with fillLiquidity := some role } else event

/-- One role for all rows, or row by row. -/
theorem applyRoles_cases {first : Fill ℚ} {others : List (Fill ℚ)}
    (h : applyRoles events (first :: others) = .ok rows) :
    (∃ role, (∀ fill ∈ first :: others, fill.liquidity = some role) ∧
        List.Forall₂ (RoleSet role) events rows) ∨
      matchRows ((first :: others).map fun fill => (fill, fill.quantity)) events = .ok rows := by
  unfold applyRoles at h
  dsimp only at h
  split at h
  · next hall =>
    rw [Bool.and_eq_true, List.all_eq_true] at hall
    obtain ⟨role, hrole⟩ := Option.isSome_iff_exists.1 hall.1
    rw [hrole] at hall h
    refine Or.inl ⟨role, fun fill hfill => beq_iff_eq.1 (hall.2 fill hfill), ?_⟩
    refine (mapM_eq_ok.1 h).imp fun event row hrow => ?_
    unfold RoleSet
    split at hrow
    · next hpos =>
      rw [if_pos hpos, withRole_eq_ok hrow]
      rfl
    · next hpos =>
      cases hrow
      rw [if_neg hpos]
  · exact Or.inr h

theorem RoleSet.eqs {role : FillLiquidity} {event row : NavEvent ℚ} (h : RoleSet role event row) :
    SameFill event row ∧ row.amountUpdate = event.amountUpdate ∧
      row.recordKey = event.recordKey := by
  unfold RoleSet at h
  split at h
  · subst h
    exact ⟨rfl, rfl, rfl⟩
  · subst h
    exact ⟨rfl, rfl, rfl⟩

theorem pointTotal_of_forall₂ (h : List.Forall₂ (fun event row => SameFill event row ∧
      row.amountUpdate = event.amountUpdate) events rows) (price : ℚ) (tsUs : Int) :
    pointTotal price tsUs rows = pointTotal price tsUs events := by
  induction h with
  | nil => rfl
  | @cons event row events rows hrow _ ih =>
    have hfirst : pointTotal price tsUs [row] = pointTotal price tsUs [event] :=
      pointTotal_of_sameFill (List.forall_mem_singleton.2 hrow.1) (by simp [hrow.2]) price tsUs
    have happend := pointTotal_append price tsUs
    rw [← List.singleton_append, happend, ih, hfirst, ← happend]
    rfl

theorem amountTotal_of_forall₂ (h : List.Forall₂ (fun event row => SameFill event row ∧
      row.amountUpdate = event.amountUpdate) events rows) :
    amountTotal rows = amountTotal events := by
  induction h with
  | nil => rfl
  | @cons event row events rows hrow _ ih =>
    rw [← List.singleton_append, amountTotal_append, ih,
      ← List.singleton_append (l := events), amountTotal_append]
    unfold amountTotal
    simp [hrow.2]

/-! ## What is conserved -/

/-- No execution is used twice: either all have one role and the rows only get it, or what
the rows take from each is no more than its quantity, and every row that is not an original
one is covered by what it takes. -/
def UsedOnce (original : List (NavEvent ℚ)) (order : List (Fill ℚ))
    (rows : List (NavEvent ℚ)) : Prop :=
  (∃ role, (∀ fill ∈ order, fill.liquidity = some role) ∧
      ∃ events rows', events.Perm original ∧ rows'.Perm rows ∧
        List.Forall₂ (RoleSet role) events rows') ∨
    ∃ drawn : List (NavEvent ℚ × List (Fill ℚ × ℚ)), (drawn.map Prod.fst).Perm rows ∧
      (∀ fill ∈ order,
        Draw.share (fun f => f == fill) (drawn.flatMap Prod.snd) ≤ fill.quantity) ∧
      ∀ d ∈ drawn, Taken original order d

/-- What holds of the rows of one order. -/
structure OrderRecovered (original : List (NavEvent ℚ)) (order : List (Fill ℚ))
    (rows : List (NavEvent ℚ)) : Prop where
  total : (Replaces original order → amountTotal rows = quantityTotal order) ∧
    (¬Replaces original order → amountTotal rows = amountTotal original)
  atLeast : amountTotal original ≤ amountTotal rows +
    totalTolerance (amountTotal original) (quantityTotal order)
  priced : ∀ row ∈ rows, needsPrice row = false
  usedOnce : UsedOnce original order rows
  samePoints : ¬Replaces original order → ∀ price tsUs,
    pointTotal price tsUs rows = pointTotal price tsUs original

theorem OrderRecovered.perm {rows' : List (NavEvent ℚ)} (h : OrderRecovered original order rows)
    (hperm : rows.Perm rows') : OrderRecovered original order rows' where
  total := by
    rw [← amountTotal_perm hperm]
    exact h.total
  atLeast := by
    rw [← amountTotal_perm hperm]
    exact h.atLeast
  priced := fun row hrow => h.priced row (hperm.mem_iff.2 hrow)
  usedOnce := by
    rcases h.usedOnce with ⟨role, hrole, events, rows'', hevents, hrows, hset⟩ |
        ⟨drawn, hfst, hshare, htaken⟩
    · exact Or.inl ⟨role, hrole, events, rows'', hevents, hrows.trans hperm, hset⟩
    · exact Or.inr ⟨drawn, hfst.trans hperm, hshare, htaken⟩
  samePoints := fun hkeep price tsUs => by
    rw [← pointTotal_perm hperm]
    exact h.samePoints hkeep price tsUs

theorem totalTolerance_nonneg (expected actual : ℚ) : 0 ≤ totalTolerance expected actual := by
  apply mul_nonneg
  · exact le_max_of_le_left (abs_nonneg expected)
  · show (0 : ℚ) ≤ 1 / 1000000000000
    norm_num

/-- Original rows take nothing. -/
theorem taken_of_subset (hsub : ∀ row ∈ rows, row ∈ original)
    (hnonneg : ∀ fill ∈ order, 0 ≤ fill.quantity) : UsedOnce original order rows := by
  refine Or.inr ⟨rows.map fun row => (row, []), ?_, fun fill hfill => ?_, fun d hd => ?_⟩
  · rw [List.map_map]
    exact (List.map_id rows).symm ▸ List.Perm.refl _
  · have hnil : (rows.map fun row => ((row, []) : NavEvent ℚ × List (Fill ℚ × ℚ))).flatMap
        Prod.snd = [] := by
      rw [List.flatMap_eq_nil_iff]
      intro d hd
      obtain ⟨row, _, rfl⟩ := List.mem_map.1 hd
      rfl
    rw [hnil]
    exact hnonneg fill hfill
  · obtain ⟨row, hrow, rfl⟩ := List.mem_map.1 hd
    exact Or.inl ⟨rfl, hsub row hrow⟩

/-- The lifecycle rows as they are. -/
theorem recovered_of_kept (hkeep : ¬Replaces original order) (hperm : rows.Perm original)
    (hnonneg : ∀ fill ∈ order, 0 ≤ fill.quantity) : OrderRecovered original order rows where
  total := ⟨fun h => absurd h hkeep, fun _ => amountTotal_perm hperm⟩
  atLeast := by
    rw [amountTotal_perm hperm]
    exact le_add_of_nonneg_right (totalTolerance_nonneg _ _)
  priced := by
    unfold Replaces at hkeep
    rw [not_or, Bool.not_eq_true, any_needsPrice_eq_false] at hkeep
    exact fun row hrow => hkeep.2 row (hperm.mem_iff.1 hrow)
  usedOnce := taken_of_subset (fun row hrow => hperm.mem_iff.1 hrow) hnonneg
  samePoints := fun _ price tsUs => pointTotal_perm hperm price tsUs

/-! ### Rows with roles -/

theorem RoleSet.priced {role : FillLiquidity} (h : List.Forall₂ (RoleSet role) events rows)
    (hpriced : ∀ event ∈ events, needsPrice event = false) :
    ∀ row ∈ rows, needsPrice row = false := by
  intro row hrow
  obtain ⟨event, hevent, hset⟩ := exists_left_of_forall₂ h hrow
  obtain ⟨hsame, hamount, -⟩ := hset.eqs
  rw [needsPrice_eq_false, hsame.price_eq, hamount]
  exact needsPrice_eq_false.1 (hpriced event hevent)

theorem priced_of_not_replaces (h : ¬Replaces original order) (hperm : events.Perm original) :
    ∀ event ∈ events, needsPrice event = false := by
  unfold Replaces at h
  rw [not_or, Bool.not_eq_true, any_needsPrice_eq_false] at h
  exact fun event hevent => h.2 event (hperm.mem_iff.1 hevent)

/-- The lifecycle rows with the roles of the executions. -/
theorem recovered_of_roles {first : Fill ℚ} {others : List (Fill ℚ)}
    (hsorted : (first :: others).Pairwise fun a b => a.transactionId < b.transactionId)
    (hnonneg : ∀ fill ∈ first :: others, 0 ≤ fill.quantity)
    (hkeep : ¬Replaces original (first :: others)) (hperm : events.Perm original)
    (h : applyRoles events (first :: others) = .ok rows) :
    OrderRecovered original (first :: others) rows := by
  have hpriced := priced_of_not_replaces hkeep hperm
  have hconserved : amountTotal rows = amountTotal events ∧
      (∀ price tsUs, pointTotal price tsUs rows = pointTotal price tsUs events) ∧
      (∀ row ∈ rows, needsPrice row = false) ∧ UsedOnce original (first :: others) rows := by
    rcases applyRoles_cases h with ⟨role, hrole, hset⟩ | hmatch
    · have heqs := hset.imp fun event row hrow => And.intro hrow.eqs.1 hrow.eqs.2.1
      exact ⟨amountTotal_of_forall₂ heqs, pointTotal_of_forall₂ heqs, RoleSet.priced hset hpriced,
        Or.inl ⟨role, hrole, events, rows, hperm, List.Perm.refl _, hset⟩⟩
    · refine ⟨matchRows_amountTotal hmatch, matchRows_pointTotal hmatch,
        matchRows_priced hmatch hpriced, Or.inr ?_⟩
      obtain ⟨drawn, hfst, hshare, htaken⟩ := matchRows_taken hmatch fun lot hlot => by
        obtain ⟨fill, hfill, rfl⟩ := List.mem_map.1 hlot
        exact hnonneg fill hfill
      refine ⟨drawn, hfst ▸ List.Perm.refl _, fun fill hfill => ?_, fun d hd => ?_⟩
      · rw [← share_of_mem hsorted hfill]
        exact hshare _
      · have hd := htaken d hd
        rw [List.map_map, show (Prod.fst ∘ fun fill : Fill ℚ => (fill, fill.quantity)) = id from rfl,
          List.map_id] at hd
        exact hd.mono fun event hevent => hperm.mem_iff.1 hevent
  obtain ⟨htotal, hpoint, hpriced', hused⟩ := hconserved
  exact {
    total := ⟨fun h => absurd h hkeep, fun _ => htotal.trans (amountTotal_perm hperm)⟩
    atLeast := by
      rw [htotal, amountTotal_perm hperm]
      exact le_add_of_nonneg_right (totalTolerance_nonneg _ _)
    priced := hpriced'
    usedOnce := hused
    samePoints := fun _ price tsUs => (hpoint price tsUs).trans (pointTotal_perm hperm price tsUs) }

/-! ### Executions in the place of rows -/

theorem amountTotal_recovered (template : NavEvent ℚ) (order : List (Fill ℚ)) :
    amountTotal (order.map (recovered template)) = quantityTotal order := by
  unfold amountTotal quantityTotal
  rw [List.map_map]
  rfl

theorem amountTotal_zero (events : List (NavEvent ℚ)) :
    amountTotal (events.filter fun event => event.amountUpdate == 0) = 0 := by
  unfold amountTotal
  rw [Exact.sum_eq]
  apply List.sum_eq_zero
  intro x hx
  obtain ⟨event, hevent, rfl⟩ := List.mem_map.1 hx
  simpa using (List.mem_filter.1 hevent).2

theorem covered_recovered (template : NavEvent ℚ) {event : NavEvent ℚ} {fill : Fill ℚ}
    (hevent : event ∈ original) (hfill : fill ∈ order) (hpos : 0 < fill.quantity) :
    Covered original order (recovered template fill) [(fill, fill.quantity)] where
  quantity := by
    refine ⟨event, hevent, ?_⟩
    show |fill.quantity - ([fill.quantity] : List ℚ).sum| ≤ _
    rw [List.sum_singleton, sub_self, abs_zero]
    exact tolerance_nonneg event.amountUpdate
  uses := by
    refine List.forall_mem_singleton.2 ⟨hfill, hpos, ?_, fun role hrole => ?_⟩
    · have hprice : ¬F64.abs fill.price * F64.eps12 < F64.abs (fill.price - fill.price) := by
        rw [sub_self, not_lt]
        show |(0 : ℚ)| ≤ _
        rw [abs_zero]
        exact tolerance_nonneg fill.price
      show (fill.timestampUs.tdiv 1000 != fill.timestampUs.tdiv 1000 || decide _) = false
      rw [bne_self_eq_false, Bool.false_or]
      exact decide_eq_false hprice
    · show some (fill.liquidity.getD .unknown) = some role
      rw [hrole]
      rfl

/-- The executions, and the lifecycle rows without a quantity. -/
theorem recovered_of_replaced (template : NavEvent ℚ) (hne : original ≠ [])
    (hsorted : order.Pairwise fun a b => a.transactionId < b.transactionId)
    (hpositive : ∀ fill ∈ order, 0 < fill.quantity ∧ 0 < fill.price)
    (hreplaces : Replaces original order) (hperm : events.Perm original)
    (hatLeast : amountTotal original ≤
      quantityTotal order + totalTolerance (amountTotal original) (quantityTotal order)) :
    OrderRecovered original order (order.map (recovered template) ++
      events.filter fun event => event.amountUpdate == 0) := by
  have htotal : amountTotal (order.map (recovered template) ++
      events.filter fun event => event.amountUpdate == 0) = quantityTotal order := by
    rw [amountTotal_append, amountTotal_recovered, amountTotal_zero, add_zero]
  refine ⟨⟨fun _ => htotal, fun h => absurd hreplaces h⟩, by rw [htotal]; exact hatLeast, ?_,
    Or.inr ?_, fun h => absurd hreplaces h⟩
  · intro row hrow
    rw [needsPrice_eq_false]
    rcases List.mem_append.1 hrow with hrow | hrow
    · obtain ⟨fill, hfill, rfl⟩ := List.mem_map.1 hrow
      exact fun _ => (hpositive fill hfill).2
    · have hzero : row.amountUpdate = 0 := by simpa using (List.mem_filter.1 hrow).2
      intro hpos
      exact absurd hzero (ne_of_gt hpos)
  · refine ⟨order.map (fun fill => (recovered template fill, [(fill, fill.quantity)])) ++
      (events.filter fun event => event.amountUpdate == 0).map fun event => (event, []), ?_, ?_, ?_⟩
    · rw [List.map_append, List.map_map, List.map_map]
      refine List.Perm.append (List.Perm.refl _) ?_
      exact (List.map_id _).symm ▸ List.Perm.refl _
    · intro fill hfill
      rw [List.flatMap_append, Draw.share_append, ← share_of_mem hsorted hfill]
      have hown : (order.map fun fill => (recovered template fill, [(fill, fill.quantity)])).flatMap
          Prod.snd = order.map fun fill => (fill, fill.quantity) := by
        rw [List.flatMap_map]
        exact List.map_eq_flatMap.symm
      have hnone : ((events.filter fun event => event.amountUpdate == 0).map fun event =>
          ((event, []) : NavEvent ℚ × List (Fill ℚ × ℚ))).flatMap Prod.snd = [] := by
        rw [List.flatMap_eq_nil_iff]
        intro d hd
        obtain ⟨event, _, rfl⟩ := List.mem_map.1 hd
        rfl
      rw [hown, hnone, Draw.share_nil, add_zero]
    · intro d hd
      rcases List.mem_append.1 hd with hd | hd
      · obtain ⟨fill, hfill, rfl⟩ := List.mem_map.1 hd
        obtain ⟨event, hevent⟩ := List.exists_mem_of_ne_nil original hne
        exact Or.inr (covered_recovered template hevent hfill (hpositive fill hfill).1)
      · obtain ⟨event, hevent, rfl⟩ := List.mem_map.1 hd
        exact Or.inl ⟨rfl, hperm.mem_iff.1 (List.mem_filter.1 hevent).1⟩

/-! ### The wanted orders -/

/-- The executions of an order; none without evidence. -/
def evidenceOf (fills : Option (OrderFills ℚ)) : List (Fill ℚ) := fills.elim [] executions

theorem recoverOrder_recovered (evidence : Evidence ℚ) (hne : original ≠ [])
    (h : recoverOrder key original evidence.fills[key]? = .ok rows) :
    OrderRecovered original (evidenceOf evidence.fills[key]?) rows := by
  obtain ⟨template, rest, hsort, hnonneg, hattributed, hcases⟩ := recoverOrder_cases hne h
  have hperm : (template :: rest).Perm original := hsort ▸ perm_stableSort _ original
  rw [amountTotal_perm hperm] at hnonneg hcases
  have hpriced : (template :: rest).any needsPrice = original.any needsPrice := hperm.any_eq
  rw [hpriced] at hcases
  rcases hcases with ⟨rfl, hall, hlate⟩ | ⟨order, first, others, hfills, hlist, hidentified,
    hatLeast, ⟨hclose, hall, hroles⟩ | ⟨hreplace, rfl⟩⟩
  · -- the lifecycle is ahead of its executions, or has none
    refine recovered_of_kept ?_ hperm ?_
    · rintro (hlt | hunpriced)
      · cases hfills : evidence.fills[key]? with
        | none =>
          rw [hfills] at hlt
          have hzero : quantityTotal (evidenceOf none) = 0 := rfl
          rw [hzero] at hlt
          exact absurd hlt (not_lt.2 (add_nonneg hnonneg (totalTolerance_nonneg _ _)))
        | some order =>
          rw [hfills] at hlt
          have hbelow := hlate order hfills
          have htolerance := totalTolerance_nonneg (amountTotal original)
            (quantityTotal (executions order))
          change amountTotal original + totalTolerance (amountTotal original)
            (quantityTotal (executions order)) < quantityTotal (executions order) at hlt
          linarith
      · rw [hall] at hunpriced
        cases hunpriced
    · intro fill hfill
      cases hfills : evidence.fills[key]? with
      | none =>
        rw [hfills] at hfill
        exact absurd hfill List.not_mem_nil
      | some order =>
        rw [hfills] at hfill
        exact (evidence.positive_of_mem hfills fill hfill).1.le
  all_goals
    have hevidence : evidenceOf evidence.fills[key]? = first :: others := by
      rw [hfills]
      exact hlist
    have hsorted := evidence.executions_sorted hfills
    have hpositive := evidence.positive_of_mem hfills
    rw [hlist] at hsorted hpositive
    rw [hevidence]
  · refine recovered_of_roles hsorted (fun fill hfill => (hpositive fill hfill).1.le) ?_ hperm hroles
    rintro (hlt | hunpriced)
    · have hle := (abs_le.1 hclose).2
      linarith
    · rw [hall] at hunpriced
      cases hunpriced
  · refine recovered_of_replaced template hne hsorted hpositive ?_ hperm hatLeast
    by_cases hall : original.any needsPrice = true
    · exact Or.inr hall
    · refine Or.inl ?_
      have hfar := mt (fun hclose => ⟨hclose, Bool.eq_false_iff.2 hall⟩) hreplace
      rw [abs_le, not_and_or, not_le, not_le] at hfar
      rcases hfar with hfar | hfar
      · linarith
      · linarith

theorem SameFill.orderKey_eq {event row : NavEvent ℚ} (h : SameFill event row) :
    row.orderKey = event.orderKey := by
  rw [h]
  rfl

/-- The rows of an order are rows of it. -/
theorem recoverOrder_orderKey {fills : Option (OrderFills ℚ)} (hne : original ≠ [])
    (hkey : ∀ event ∈ original, event.orderKey = key)
    (h : recoverOrder key original fills = .ok rows) : ∀ row ∈ rows, row.orderKey = key := by
  obtain ⟨template, rest, hsort, -, -, hcases⟩ := recoverOrder_cases hne h
  have hperm : (template :: rest).Perm original := hsort ▸ perm_stableSort _ original
  have hsorted : ∀ event ∈ template :: rest, event.orderKey = key := fun event hevent =>
    hkey event (hperm.mem_iff.1 hevent)
  rcases hcases with ⟨rfl, -⟩ | ⟨order, first, others, -, -, -, -, ⟨-, -, hroles⟩ | ⟨-, rfl⟩⟩
  · exact hsorted
  · rcases applyRoles_cases hroles with ⟨role, -, hset⟩ | hmatch
    · intro row hrow
      obtain ⟨event, hevent, hset⟩ := exists_left_of_forall₂ hset hrow
      rw [hset.eqs.1.orderKey_eq]
      exact hsorted event hevent
    · intro row hrow
      obtain ⟨event, hevent, hsame⟩ := matchRows_sameFill hmatch row hrow
      rw [hsame.orderKey_eq]
      exact hsorted event hevent
  · intro row hrow
    rcases List.mem_append.1 hrow with hrow | hrow
    · obtain ⟨fill, -, rfl⟩ := List.mem_map.1 hrow
      exact hsorted template List.mem_cons_self
    · exact hsorted row (List.mem_filter.1 hrow).1

/-- The rows of each wanted order in the result of a recovery. -/
theorem replaceOrders_filter {fills : OrdMap LiquidityOrderKey (OrderFills ℚ)}
    (h : replaceOrders events wanted fills = .ok result) :
    (result.filter fun event => !wanted.contains event.orderKey) =
        stableSort NavEvent.recordKey
          (events.filter fun event => !wanted.contains event.orderKey) ∧
      ∀ key, wanted.contains key = true → (events.filter fun event => event.orderKey = key) ≠ [] →
        ∃ rows, recoverOrder key (events.filter fun event => event.orderKey = key) fills[key]? =
            .ok rows ∧
          (result.filter fun event => event.orderKey = key).Perm rows := by
  unfold replaceOrders at h
  obtain ⟨groups, hgroups, h⟩ := bind_eq_ok.1 h
  cases h
  rw [mapM_eq_ok] at hgroups
  set replaced := OrdMap.group NavEvent.orderKey
    (events.filter fun event => wanted.contains event.orderKey)
  have hfilter : ∀ key, wanted.contains key = true →
      (events.filter fun event => wanted.contains event.orderKey).filter
        (fun event => event.orderKey = key) = events.filter fun event => event.orderKey = key := by
    intro key hwanted
    rw [List.filter_filter]
    refine List.filter_congr fun event _ => ?_
    by_cases hsame : event.orderKey = key
    · simp [hsame, hwanted]
    · simp [hsame]
  have hmem : ∀ g ∈ replaced.toList, g.2 ≠ [] ∧ wanted.contains g.1 = true ∧
      g.2 = events.filter fun event => event.orderKey = g.1 := by
    intro g hg
    obtain ⟨hne, heq⟩ := OrdMap.mem_toList_group.1 (show (g.1, g.2) ∈ _ from hg)
    obtain ⟨event, hevent⟩ := List.exists_mem_of_ne_nil _ hne
    rw [heq] at hevent
    obtain ⟨hevent, hkey⟩ := List.mem_filter.1 hevent
    have hwanted : wanted.contains g.1 = true := by
      rw [← (by simpa using hkey : event.orderKey = g.1)]
      exact (List.mem_filter.1 hevent).2
    refine ⟨hne, hwanted, heq.trans ?_⟩
    rw [← hfilter g.1 hwanted]
    congr!
  have hkeys : List.Forall₂ (fun g rows => ∀ row ∈ rows, row.orderKey = g.1) replaced.toList
      groups := by
    refine ((List.forall₂_and_left _ _).2 ⟨hmem, hgroups⟩).imp fun g rows hg => ?_
    obtain ⟨⟨hne, -, heq⟩, hrows⟩ := hg
    refine recoverOrder_orderKey hne (fun event hevent => ?_) hrows
    rw [heq] at hevent
    exact of_decide_eq_true (List.mem_filter.1 hevent).2
  have hsplit := OrdMap.filter_flatten hkeys (OrdMap.nodup_keys_toList _)
  have hwantedRows : ∀ row ∈ groups.flatten, wanted.contains row.orderKey = true := by
    intro row hrow
    obtain ⟨rows, hrows, hrow⟩ := List.mem_flatten.1 hrow
    obtain ⟨g, hg, hkey⟩ := exists_left_of_forall₂ hkeys hrows
    rw [hkey row hrow]
    exact (hmem g hg).2.1
  constructor
  · rw [filter_stableSort, List.filter_append, List.filter_filter]
    have hnone : groups.flatten.filter (fun event => !wanted.contains event.orderKey) = [] := by
      rw [List.filter_eq_nil_iff]
      intro row hrow
      simp [hwantedRows row hrow]
    rw [hnone, List.append_nil]
    simp only [Bool.and_self]
  · intro key hwanted hne
    have hgroup : (key, events.filter fun event => event.orderKey = key) ∈ replaced.toList := by
      refine OrdMap.mem_toList_group.2 ⟨hne, ?_⟩
      rw [← hfilter key hwanted]
      congr!
    rw [List.forall₂_iff_zip] at hgroups hsplit
    have hboth := List.forall₂_iff_zip.2 ⟨hgroups.1, fun {g rows} hzip =>
      And.intro (hgroups.2 hzip) (hsplit.2 hzip)⟩
    obtain ⟨rows, -, hrows, hrest⟩ := exists_right_of_forall₂ hboth hgroup
    refine ⟨rows, hrows, ?_⟩
    rw [filter_stableSort, List.filter_append, List.filter_filter]
    have hnone : events.filter (fun event => decide (event.orderKey = key) &&
        !wanted.contains event.orderKey) = [] := by
      rw [List.filter_eq_nil_iff]
      intro event _
      by_cases hsame : event.orderKey = key
      · simp [hsame, hwanted]
      · simp [hsame]
    rw [hnone, List.nil_append]
    refine (perm_stableSort _ _).trans ?_
    rw [← hrest]
    refine List.Perm.of_eq ?_
    congr!

end CtaManager.FillRecovery
