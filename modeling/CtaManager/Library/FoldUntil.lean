import CtaManager.Library.Check

/-!
Folds over a state that an error does not take back.

Each step returns the state and how it went; the fold stops at the first error, with what has
been done by then (`foldUntil`).  Where a step appends to its state, and what it appends depends
on a part of it only, a fold that succeeds has appended what `gather` collects
(`foldUntil_gather`), from whatever state it started.
-/

namespace Check

variable {ε α β σ τ : Type}

def foldUntil (f : σ → α → σ × Except ε Unit) : σ → List α → σ × Except ε Unit
  | s, [] => (s, .ok ())
  | s, a :: l =>
    match f s a with
    | (s, .error e) => (s, .error e)
    | (s, .ok _) => foldUntil f s l

/-- What the steps collect, one after the other. -/
def gather (g : τ → α → Except ε (List β × τ)) : τ → List α → Except ε (List β × τ)
  | v, [] => .ok ([], v)
  | v, a :: l => do
    let first ← g v a
    let rest ← gather g first.2 l
    return (first.1 ++ rest.1, rest.2)

theorem foldUntil_cons {f : σ → α → σ × Except ε Unit} {s s' : σ} {a : α} {l : List α} :
    foldUntil f s (a :: l) = (s', .ok ()) ↔
      ∃ t, f s a = (t, .ok ()) ∧ foldUntil f t l = (s', .ok ()) := by
  conv_lhs => unfold foldUntil
  cases hstep : f s a with
  | mk t reply =>
    cases reply with
    | error e =>
      constructor
      · intro h
        cases h
      · rintro ⟨t', ht', -⟩
        cases ht'
    | ok u =>
      constructor
      · intro h
        exact ⟨t, rfl, h⟩
      · rintro ⟨t', ht', h⟩
        cases ht'
        exact h

theorem gather_cons {g : τ → α → Except ε (List β × τ)} {v v' : τ} {a : α} {l : List α}
    {bs : List β} :
    gather g v (a :: l) = .ok (bs, v') ↔
      ∃ first rest w, g v a = .ok (first, w) ∧ gather g w l = .ok (rest, v') ∧
        bs = first ++ rest := by
  conv_lhs => unfold gather
  constructor
  · intro h
    obtain ⟨⟨first, w⟩, hfirst, h⟩ := bind_eq_ok.1 h
    obtain ⟨⟨rest, v''⟩, hrest, h⟩ := bind_eq_ok.1 h
    cases h
    exact ⟨first, rest, w, hfirst, hrest, rfl⟩
  · rintro ⟨first, rest, w, hfirst, hrest, rfl⟩
    rw [hfirst, ok_bind, hrest]
    rfl

theorem gather_append {g : τ → α → Except ε (List β × τ)} {v v' : τ} {l l' : List α}
    {bs : List β} :
    gather g v (l ++ l') = .ok (bs, v') ↔
      ∃ first rest w, gather g v l = .ok (first, w) ∧ gather g w l' = .ok (rest, v') ∧
        bs = first ++ rest := by
  induction l generalizing v bs with
  | nil =>
    constructor
    · intro h
      exact ⟨[], bs, v, rfl, h, rfl⟩
    · rintro ⟨first, rest, w, hfirst, hrest, rfl⟩
      cases hfirst
      exact hrest
  | cons a l ih =>
    rw [List.cons_append, gather_cons]
    constructor
    · rintro ⟨xs, ys, w, hx, hy, rfl⟩
      obtain ⟨zs, rest, u, hz, hrest, rfl⟩ := ih.1 hy
      exact ⟨xs ++ zs, rest, u, gather_cons.2 ⟨xs, zs, w, hx, hz, rfl⟩, hrest,
        (List.append_assoc xs zs rest).symm⟩
    · rintro ⟨first, rest, u, hfirst, hrest, rfl⟩
      obtain ⟨xs, zs, w, hx, hz, rfl⟩ := gather_cons.1 hfirst
      exact ⟨xs, zs ++ rest, w, hx, ih.2 ⟨zs, rest, u, hz, hrest, rfl⟩,
        List.append_assoc xs zs rest⟩

/-- What each step keeps of the view and of what it adds, the whole keeps. -/
theorem gather_invariant {g : τ → α → Except ε (List β × τ)} {P : List β → τ → Prop} {l : List α}
    {v v' : τ} (acc : List β) {bs : List β}
    (hstep : ∀ a ∈ l, ∀ acc v xs w, P acc v → g v a = .ok (xs, w) → P (acc ++ xs) w)
    (h : gather g v l = .ok (bs, v')) (hv : P acc v) : P (acc ++ bs) v' := by
  induction l generalizing v acc bs with
  | nil =>
    cases h
    rwa [List.append_nil]
  | cons a l ih =>
    obtain ⟨xs, ys, w, hx, hy, rfl⟩ := gather_cons.1 h
    rw [← List.append_assoc]
    exact ih (acc ++ xs) (fun b hb => hstep b (List.mem_cons_of_mem _ hb)) hy
      (hstep a List.mem_cons_self acc v xs w hv hx)

/-- `view` is what the steps read and `put` how they append. -/
theorem foldUntil_gather {f : σ → α → σ × Except ε Unit} {g : τ → α → Except ε (List β × τ)}
    {view : σ → τ} {put : σ → List β × τ → σ} (hnil : ∀ s, put s ([], view s) = s)
    (hview : ∀ s x, view (put s x) = x.2)
    (hput : ∀ s xs w ys v, put (put s (xs, w)) (ys, v) = put s (xs ++ ys, v))
    (hstep : ∀ s a t, f s a = (t, .ok ()) ↔ ∃ x, g (view s) a = .ok x ∧ t = put s x)
    {l : List α} {s t : σ} :
    foldUntil f s l = (t, .ok ()) ↔ ∃ x, gather g (view s) l = .ok x ∧ t = put s x := by
  induction l generalizing s with
  | nil =>
    constructor
    · intro h
      refine ⟨([], view s), rfl, ?_⟩
      rw [hnil]
      exact (congrArg Prod.fst h).symm
    · rintro ⟨x, hx, rfl⟩
      cases hx
      rw [hnil]
      rfl
  | cons a l ih =>
    rw [foldUntil_cons]
    constructor
    · rintro ⟨u, hu, h⟩
      obtain ⟨⟨xs, w⟩, hx, rfl⟩ := (hstep s a u).1 hu
      obtain ⟨⟨ys, v⟩, hy, rfl⟩ := ih.1 h
      rw [hview] at hy
      exact ⟨(xs ++ ys, v), gather_cons.2 ⟨xs, ys, w, hx, hy, rfl⟩, hput s xs w ys v⟩
    · rintro ⟨⟨bs, v⟩, hbs, rfl⟩
      obtain ⟨xs, ys, w, hx, hy, rfl⟩ := gather_cons.1 hbs
      refine ⟨put s (xs, w), (hstep s a _).2 ⟨(xs, w), hx, rfl⟩, ih.2 ⟨(ys, v), ?_, ?_⟩⟩
      · rw [hview]
        exact hy
      · exact (hput s xs w ys v).symm

/-- Steps that append one value each, which does not depend on the state. -/
theorem foldUntil_mapM {f : σ → α → σ × Except ε Unit} {e : α → Except ε β} {push : σ → β → σ}
    (hstep : ∀ s a t, f s a = (t, .ok ()) ↔ ∃ b, e a = .ok b ∧ t = push s b)
    {l : List α} {s t : σ} :
    foldUntil f s l = (t, .ok ()) ↔ ∃ bs, l.mapM e = .ok bs ∧ t = bs.foldl push s := by
  induction l generalizing s with
  | nil =>
    constructor
    · intro h
      cases h
      exact ⟨[], rfl, rfl⟩
    · rintro ⟨bs, hbs, rfl⟩
      cases hbs
      rfl
  | cons a l ih =>
    rw [foldUntil_cons, List.mapM_cons]
    constructor
    · rintro ⟨u, hu, h⟩
      obtain ⟨b, hb, rfl⟩ := (hstep s a u).1 hu
      obtain ⟨bs, hbs, rfl⟩ := ih.1 h
      exact ⟨b :: bs, by rw [hb, ok_bind, hbs]; rfl, rfl⟩
    · rintro ⟨bs, hbs, rfl⟩
      obtain ⟨b, hb, hbs⟩ := bind_eq_ok.1 hbs
      obtain ⟨bs', hbs', h⟩ := bind_eq_ok.1 hbs
      cases h
      exact ⟨push s b, (hstep s a _).2 ⟨b, hb, rfl⟩, ih.2 ⟨bs', hbs', rfl⟩⟩

end Check
