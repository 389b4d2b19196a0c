import Mathlib

/-! Fallible computations: `Except` and its folds.

`bind_eq_ok` takes a successful computation apart step by step.  A fold whose
steps succeed can be cut at any point (`foldlM_append`).  A fold over a vector
of independent components, each event touching the component of its index, is
the componentwise fold (`foldlM_modify`). -/

namespace Check

variable {ε α β σ : Type}

/-- `ensure!`: go on if the condition holds, else fail with `e`. -/
def ensure (condition : Bool) (e : ε) : Except ε Unit :=
  if condition then .ok () else .error e

@[simp] theorem ensure_true (e : ε) : ensure true e = .ok () := rfl

@[simp] theorem ensure_eq_ok (c : Bool) (e : ε) (u : Unit) : ensure c e = .ok u ↔ c = true := by
  cases c <;> simp [ensure]

@[simp] theorem ok_bind (a : α) (f : α → Except ε β) : (Except.ok a >>= f) = f a := rfl

@[simp] theorem error_bind (e : ε) (f : α → Except ε β) :
    ((Except.error e : Except ε α) >>= f) = .error e := rfl

theorem pure_eq_ok (a : α) : (pure a : Except ε α) = .ok a := rfl

theorem bind_eq_ok {x : Except ε α} {f : α → Except ε β} {b : β} :
    (x >>= f) = .ok b ↔ ∃ a, x = .ok a ∧ f a = .ok b := by
  cases x with
  | error e => simp
  | ok a => simp

theorem map_eq_ok {x : Except ε α} {f : α → β} {b : β} :
    (f <$> x) = .ok b ↔ ∃ a, x = .ok a ∧ f a = b := by
  cases x with
  | error e => simp [Functor.map, Except.map]
  | ok a => simp [Functor.map, Except.map]

theorem mapError_eq_ok {ε' : Type} {x : Except ε α} {f : ε → ε'} {a : α} :
    x.mapError f = .ok a ↔ x = .ok a := by
  cases x with
  | error e => simp [Except.mapError]
  | ok b => simp [Except.mapError]

theorem bind_congr_ok {x : Except ε α} {f g : α → Except ε β}
    (h : ∀ a, x = .ok a → f a = g a) : (x >>= f) = (x >>= g) := by
  cases x with
  | error e => rfl
  | ok a => exact h a rfl

theorem toOption_eq_some {x : Except ε α} {a : α} : x.toOption = some a ↔ x = .ok a := by
  cases x with
  | error e => simp [Except.toOption]
  | ok b => simp [Except.toOption]

/-- A computation that succeeds with a result of some kind. -/
theorem exists_ok_of_any {x : Except ε α} {P : α → Bool} (h : x.toOption.any P = true) :
    ∃ a, x = .ok a ∧ P a = true := by
  cases x with
  | error e => cases h
  | ok a => exact ⟨a, rfl, h⟩

/-- A check of every element succeeds when each one does. -/
theorem forM_eq_ok {f : α → Except ε Unit} {l : List α} {u : Unit} :
    l.forM f = .ok u ↔ ∀ a ∈ l, f a = .ok ⟨⟩ := by
  induction l with
  | nil => exact ⟨fun _ a ha => absurd ha List.not_mem_nil, fun _ => rfl⟩
  | cons a l ih =>
    change (f a >>= fun _ => l.forM f) = _ ↔ _
    rw [bind_eq_ok]
    constructor
    · rintro ⟨⟨⟩, ha, hl⟩ b hb
      rcases List.mem_cons.1 hb with rfl | hb
      · exact ha
      · exact ih.1 hl b hb
    · intro h
      exact ⟨⟨⟩, h a List.mem_cons_self, ih.2 fun b hb => h b (List.mem_cons_of_mem _ hb)⟩

/-- The results of a map are the results of its elements. -/
theorem mem_of_mapM_eq_ok {f : α → Except ε β} {l : List α} {l' : List β}
    (h : l.mapM f = .ok l') :
    (∀ a ∈ l, ∃ b ∈ l', f a = .ok b) ∧ ∀ b ∈ l', ∃ a ∈ l, f a = .ok b := by
  induction l generalizing l' with
  | nil =>
    rw [List.mapM_nil, pure_eq_ok, Except.ok.injEq] at h
    subst h
    exact ⟨fun a ha => absurd ha List.not_mem_nil, fun b hb => absurd hb List.not_mem_nil⟩
  | cons a l ih =>
    rw [List.mapM_cons] at h
    obtain ⟨b, hb, h⟩ := bind_eq_ok.1 h
    obtain ⟨t, ht, h⟩ := bind_eq_ok.1 h
    cases h
    obtain ⟨ih₁, ih₂⟩ := ih ht
    refine ⟨List.forall_mem_cons.2 ⟨⟨b, List.mem_cons_self, hb⟩, fun a' ha' => ?_⟩,
      List.forall_mem_cons.2 ⟨⟨a, List.mem_cons_self, hb⟩, fun b' hb' => ?_⟩⟩
    · obtain ⟨b', hb', hf⟩ := ih₁ a' ha'
      exact ⟨b', List.mem_cons_of_mem _ hb', hf⟩
    · obtain ⟨a', ha', hf⟩ := ih₂ b' hb'
      exact ⟨a', List.mem_cons_of_mem _ ha', hf⟩

/-- A map succeeds elementwise. -/
theorem mapM_eq_ok {f : α → Except ε β} {l : List α} {l' : List β} :
    l.mapM f = .ok l' ↔ List.Forall₂ (fun a b => f a = .ok b) l l' := by
  induction l generalizing l' with
  | nil =>
    rw [List.mapM_nil, pure_eq_ok, Except.ok.injEq, List.forall₂_nil_left_iff, eq_comm]
  | cons a l ih =>
    rw [List.mapM_cons]
    constructor
    · intro h
      obtain ⟨b, hb, h⟩ := bind_eq_ok.1 h
      obtain ⟨t, ht, h⟩ := bind_eq_ok.1 h
      cases h
      exact List.Forall₂.cons hb (ih.1 ht)
    · rintro (_ | ⟨hb, ht⟩)
      rw [hb, ok_bind, ih.2 ht]
      rfl

theorem mapM_congr {f g : α → Except ε β} {l : List α} (h : ∀ a ∈ l, f a = g a) :
    l.mapM f = l.mapM g := by
  induction l with
  | nil => rfl
  | cons a l ih =>
    rw [List.mapM_cons, List.mapM_cons, h a List.mem_cons_self,
      ih fun a' ha' => h a' (List.mem_cons_of_mem _ ha')]

theorem exists_mapM_eq_ok {f : α → Except ε β} {l : List α} (h : ∀ a ∈ l, ∃ b, f a = .ok b) :
    ∃ l', l.mapM f = .ok l' := by
  induction l with
  | nil => exact ⟨[], rfl⟩
  | cons a l ih =>
    obtain ⟨b, hb⟩ := h a List.mem_cons_self
    obtain ⟨l', hl'⟩ := ih fun a' ha' => h a' (List.mem_cons_of_mem _ ha')
    refine ⟨b :: l', ?_⟩
    rw [List.mapM_cons, hb, ok_bind, hl']
    rfl

/-- Two maps over related lists, one of which succeeds. -/
theorem mapM_simulation {τ σ' τ' : Type} {R : α → τ → Prop} {S : σ' → τ' → Prop}
    {f : α → Except ε σ'} {g : τ → Except ε τ'} {l : List α} {m : List τ} {l' : List σ'}
    (hlm : List.Forall₂ R l m)
    (hstep : ∀ a ∈ l, ∀ t b, R a t → f a = .ok b → ∃ u, g t = .ok u ∧ S b u)
    (h : l.mapM f = .ok l') : ∃ m', m.mapM g = .ok m' ∧ List.Forall₂ S l' m' := by
  rw [mapM_eq_ok] at h
  induction hlm generalizing l' with
  | nil =>
    cases h
    exact ⟨[], rfl, List.Forall₂.nil⟩
  | cons hab _ ih =>
    cases h with
    | cons hb ht =>
      obtain ⟨u, hu, hS⟩ := hstep _ List.mem_cons_self _ _ hab hb
      obtain ⟨m', hm', hrest⟩ := ih (fun a ha => hstep a (List.mem_cons_of_mem _ ha)) ht
      refine ⟨u :: m', ?_, List.Forall₂.cons hS hrest⟩
      rw [List.mapM_cons, hu, ok_bind, hm']
      rfl

theorem forall₂_getElem? {R : α → β → Prop} {l : List α} {l' : List β} (h : List.Forall₂ R l l')
    {i : Nat} {b : β} (hb : l'[i]? = some b) : ∃ a, l[i]? = some a ∧ R a b := by
  induction h generalizing i with
  | nil => simp at hb
  | cons hab _ ih =>
    cases i with
    | zero =>
      obtain rfl := Option.some.inj hb
      exact ⟨_, rfl, hab⟩
    | succ i => exact ih hb

theorem exists_right_of_forall₂ {R : α → β → Prop} {l : List α} {l' : List β}
    (h : List.Forall₂ R l l') {a : α} (ha : a ∈ l) : ∃ b ∈ l', R a b := by
  induction h with
  | nil => exact absurd ha List.not_mem_nil
  | cons hab _ ih =>
    rcases List.mem_cons.1 ha with rfl | ha
    · exact ⟨_, List.mem_cons_self, hab⟩
    · obtain ⟨b, hb, hR⟩ := ih ha
      exact ⟨b, List.mem_cons_of_mem _ hb, hR⟩

theorem exists_left_of_forall₂ {R : α → β → Prop} {l : List α} {l' : List β}
    (h : List.Forall₂ R l l') {b : β} (hb : b ∈ l') : ∃ a ∈ l, R a b :=
  exists_right_of_forall₂ h.flip hb

theorem mapM_ok (l : List α) : l.mapM (fun a => (.ok a : Except ε α)) = .ok l := by
  rw [mapM_eq_ok, List.forall₂_same]
  exact fun a _ => rfl

/-! ## Folds -/

theorem foldlM_nil (f : σ → α → Except ε σ) (s : σ) : [].foldlM f s = .ok s := rfl

theorem foldlM_cons (f : σ → α → Except ε σ) (s : σ) (a : α) (l : List α) :
    (a :: l).foldlM f s = (f s a >>= fun s' => l.foldlM f s') := rfl

theorem foldlM_append (f : σ → α → Except ε σ) (s : σ) (l₁ l₂ : List α) :
    (l₁ ++ l₂).foldlM f s = (l₁.foldlM f s >>= fun s' => l₂.foldlM f s') :=
  List.foldlM_append

/-- A fold inside a fold, over lists that can be read. -/
theorem foldlM_flatMap {τ : Type} {f : α → σ → τ → Except ε σ} {g : α → Except ε (List τ)}
    {items : α → List τ} {l : List α} (h : ∀ a ∈ l, g a = .ok (items a)) (s : σ) :
    l.foldlM (fun s a => g a >>= fun ts => ts.foldlM (f a) s) s =
      (l.flatMap fun a => (items a).map fun t => (a, t)).foldlM (fun s p => f p.1 s p.2) s := by
  induction l generalizing s with
  | nil => rfl
  | cons a l ih =>
    have hinner : ∀ (ts : List τ) (s : σ),
        ts.foldlM (f a) s = (ts.map fun t => (a, t)).foldlM (fun s p => f p.1 s p.2) s := by
      intro ts s
      rw [List.foldlM_map]
    rw [foldlM_cons, h a List.mem_cons_self, ok_bind, List.flatMap_cons, foldlM_append, ← hinner]
    exact bind_congr_ok fun s' _ => ih (fun a' ha' => h a' (List.mem_cons_of_mem _ ha')) s'

theorem foldlM_congr {f g : σ → α → Except ε σ} {l : List α} (h : ∀ a ∈ l, ∀ s, f s a = g s a)
    (s : σ) : l.foldlM f s = l.foldlM g s := by
  induction l generalizing s with
  | nil => rfl
  | cons a l ih =>
    rw [foldlM_cons, foldlM_cons, h a List.mem_cons_self s]
    exact bind_congr_ok fun s' _ => ih (fun b hb => h b (List.mem_cons_of_mem _ hb)) s'

/-- What one step keeps, a whole fold keeps. -/
theorem foldlM_invariant {f : σ → α → Except ε σ} {P : σ → Prop} {l : List α} {s s' : σ}
    (hstep : ∀ a ∈ l, ∀ s s', P s → f s a = .ok s' → P s') (h : l.foldlM f s = .ok s')
    (hs : P s) : P s' := by
  induction l generalizing s with
  | nil =>
    cases h
    exact hs
  | cons a l ih =>
    obtain ⟨t, ht, htl⟩ := bind_eq_ok.1 (foldlM_cons f s a l ▸ h)
    exact ih (fun b hb => hstep b (List.mem_cons_of_mem _ hb)) htl
      (hstep a List.mem_cons_self s t hs ht)

/-- Two folds in step: what one pair of steps keeps, the two runs keep. -/
theorem foldlM_simulation {τ : Type} {f : σ → α → Except ε σ} {g : τ → α → Except ε τ}
    {R : σ → τ → Prop} {l : List α} {s s' : σ} {t : τ}
    (hstep : ∀ a ∈ l, ∀ s t s', R s t → f s a = .ok s' → ∃ t', g t a = .ok t' ∧ R s' t')
    (h : l.foldlM f s = .ok s') (hst : R s t) : ∃ t', l.foldlM g t = .ok t' ∧ R s' t' := by
  induction l generalizing s t with
  | nil =>
    cases h
    exact ⟨t, rfl, hst⟩
  | cons a l ih =>
    obtain ⟨u, hu, hul⟩ := bind_eq_ok.1 (foldlM_cons f s a l ▸ h)
    obtain ⟨v, hv, huv⟩ := hstep a List.mem_cons_self s t u hst hu
    obtain ⟨t', ht', hst'⟩ := ih (fun b hb => hstep b (List.mem_cons_of_mem _ hb)) hul huv
    exact ⟨t', by rw [foldlM_cons, hv]; exact ht', hst'⟩

/-! ## Agreement -/

/-- Two computations fail alike, or both succeed with related results. -/
inductive Agree {τ : Type} (R : σ → τ → Prop) : Except ε σ → Except ε τ → Prop
  | ok {s : σ} {t : τ} : R s t → Agree R (.ok s) (.ok t)
  | error (e : ε) : Agree R (.error e) (.error e)

theorem Agree.bind {τ σ' τ' : Type} {R : σ → τ → Prop} {S : σ' → τ' → Prop} {x : Except ε σ}
    {y : Except ε τ} {f : σ → Except ε σ'} {g : τ → Except ε τ'} (h : Agree R x y)
    (hfg : ∀ s t, R s t → Agree S (f s) (g t)) : Agree S (x >>= f) (y >>= g) := by
  cases h with
  | ok hst => exact hfg _ _ hst
  | error e => exact .error e

theorem Agree.refl {R : σ → σ → Prop} (hR : ∀ s, R s s) (x : Except ε σ) : Agree R x x := by
  cases x with
  | error e => exact .error e
  | ok s => exact .ok (hR s)

theorem Agree.eq {x y : Except ε σ} (h : Agree (fun s t => s = t) x y) : x = y := by
  cases h with
  | ok hst => rw [hst]
  | error e => rfl

/-- Steps that agree make runs that agree. -/
theorem Agree.foldlM {τ : Type} {R : σ → τ → Prop} {f : σ → α → Except ε σ}
    {g : τ → α → Except ε τ} {l : List α}
    (hstep : ∀ a ∈ l, ∀ s t, R s t → Agree R (f s a) (g t a)) {s : σ} {t : τ} (hst : R s t) :
    Agree R (l.foldlM f s) (l.foldlM g t) := by
  induction l generalizing s t with
  | nil => exact .ok hst
  | cons a l ih =>
    rw [foldlM_cons, foldlM_cons]
    exact (hstep a List.mem_cons_self s t hst).bind fun s' t' h' =>
      ih (fun b hb => hstep b (List.mem_cons_of_mem _ hb)) h'

/-! ## Independent components -/

/-- Update the component of index `i`; an index out of range changes nothing. -/
def modifyM (f : σ → Except ε σ) : Nat → List σ → Except ε (List σ)
  | _, [] => .ok []
  | 0, s :: l => (f s).map (· :: l)
  | i + 1, s :: l => (modifyM f i l).map (s :: ·)

@[simp] theorem modifyM_nil (f : σ → Except ε σ) (i : Nat) : modifyM f i [] = .ok [] := by
  cases i <;> rfl

theorem modifyM_ok {f : σ → Except ε σ} {i : Nat} {l : List σ} {s s' : σ}
    (hi : l[i]? = some s) (hf : f s = .ok s') : modifyM f i l = .ok (l.set i s') := by
  induction l generalizing i with
  | nil => simp at hi
  | cons t l ih =>
    cases i with
    | zero =>
      obtain rfl : t = s := by simpa using hi
      simp [modifyM, hf, Except.map]
    | succ i =>
      have := ih (i := i) (by simpa using hi)
      simp [modifyM, this, Except.map]

/-- An update that succeeds changes one component, or none. -/
theorem getElem?_modifyM {f : σ → Except ε σ} {i j : Nat} {l l' : List σ} {s' : σ}
    (h : modifyM f i l = .ok l') (hj : l'[j]? = some s') :
    ∃ s, l[j]? = some s ∧ (if i = j then f s = .ok s' else s' = s) := by
  induction l generalizing i j l' with
  | nil =>
    obtain rfl := Except.ok.inj ((modifyM_nil f i).symm.trans h)
    simp at hj
  | cons t l ih =>
    cases i with
    | zero =>
      obtain ⟨u, hu, rfl⟩ := map_eq_ok.1 h
      cases j with
      | zero =>
        obtain rfl := Option.some.inj hj
        exact ⟨t, rfl, hu⟩
      | succ j => exact ⟨s', hj, rfl⟩
    | succ i =>
      obtain ⟨u, hu, rfl⟩ := map_eq_ok.1 h
      cases j with
      | zero =>
        obtain rfl := Option.some.inj hj
        exact ⟨t, rfl, rfl⟩
      | succ j =>
        obtain ⟨s, hs, hcase⟩ := ih hu hj
        refine ⟨s, hs, ?_⟩
        simpa using hcase

/-- Updates of one component of related vectors. -/
theorem modifyM_simulation {τ : Type} {R : σ → τ → Prop} {f : σ → Except ε σ}
    {g : τ → Except ε τ} {i : Nat} {l l' : List σ} {m : List τ} (hlm : List.Forall₂ R l m)
    (hstep : ∀ s t s', l[i]? = some s → R s t → f s = .ok s' → ∃ t', g t = .ok t' ∧ R s' t')
    (h : modifyM f i l = .ok l') : ∃ m', modifyM g i m = .ok m' ∧ List.Forall₂ R l' m' := by
  induction hlm generalizing i l' with
  | nil =>
    obtain rfl := Except.ok.inj ((modifyM_nil f i).symm.trans h)
    exact ⟨[], modifyM_nil g i, List.Forall₂.nil⟩
  | cons hab hrest ih =>
    cases i with
    | zero =>
      obtain ⟨u, hu, rfl⟩ := map_eq_ok.1 h
      obtain ⟨v, hv, hR⟩ := hstep _ _ _ rfl hab hu
      exact ⟨_, by rw [modifyM, hv]; rfl, List.Forall₂.cons hR hrest⟩
    | succ i =>
      obtain ⟨u, hu, rfl⟩ := map_eq_ok.1 h
      obtain ⟨m', hm', hR⟩ := ih hstep hu
      exact ⟨_, by rw [modifyM, hm']; rfl, List.Forall₂.cons hab hR⟩

/-- Events on the components of a vector: if the events of each index run on
its component, the whole run succeeds with these results. -/
theorem foldlM_modify {idx : α → Nat} {f : σ → α → Except ε σ} (evs : List α) (l l' : List σ)
    (hlen : l'.length = l.length)
    (hidx : ∀ a ∈ evs, idx a < l.length)
    (h : ∀ i s s', l[i]? = some s → l'[i]? = some s' →
      (evs.filter (fun a => idx a = i)).foldlM f s = .ok s') :
    evs.foldlM (fun l a => modifyM (fun s => f s a) (idx a) l) l = .ok l' := by
  induction evs generalizing l with
  | nil =>
    rw [foldlM_nil]
    congr 1
    refine List.ext_getElem? fun i => ?_
    rcases Nat.lt_or_ge i l.length with hi | hi
    · have hs := List.getElem?_eq_getElem hi
      have hs' := List.getElem?_eq_getElem (hlen ▸ hi : i < l'.length)
      have := h i _ _ hs hs'
      simp only [List.filter_nil, foldlM_nil, Except.ok.injEq] at this
      rw [hs, hs', this]
    · rw [List.getElem?_eq_none hi, List.getElem?_eq_none (hlen ▸ hi)]
  | cons a evs ih =>
    have ha : idx a < l.length := hidx a List.mem_cons_self
    have hs := List.getElem?_eq_getElem ha
    have hs' := List.getElem?_eq_getElem (hlen ▸ ha : idx a < l'.length)
    have hrun := h (idx a) _ _ hs hs'
    rw [List.filter_cons, if_pos (by simp), foldlM_cons] at hrun
    obtain ⟨t, ht, hrest⟩ := bind_eq_ok.1 hrun
    rw [foldlM_cons, modifyM_ok hs ht]
    refine ih (l.set (idx a) t) (by simp [hlen]) (fun b hb => ?_) fun i u u' hu hu' => ?_
    · simpa using hidx b (List.mem_cons_of_mem _ hb)
    · by_cases hi : idx a = i
      · subst hi
        rw [List.getElem?_set_self ha, Option.some.injEq] at hu
        rw [hs', Option.some.injEq] at hu'
        rw [← hu, ← hu']
        exact hrest
      · rw [List.getElem?_set_ne hi] at hu
        have := h i u u' hu hu'
        rwa [List.filter_cons, if_neg (by simpa using hi)] at this

end Check
