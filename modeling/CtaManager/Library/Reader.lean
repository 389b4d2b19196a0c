import Mathlib

/-!
Readers over a cursor, and the grammar they accept.

A reader moves a cursor over its input and returns a value, or fails.  `Reads m value bytes`
says that it reads exactly the texts `bytes r`, for `r` in some type of raw forms, and
returns `value r`: what it accepts starts with such a text (`sound`), whatever starts with one
is accepted (`complete`), and it never ends in the failure `bad` (`safe`).  `ReadsAll` says
the same of a reader that takes the whole rest of the input.  Readers in sequence read
their texts after one another (`bind`, `bindAll`).
-/

namespace Reader

/-- The input that is left at a cursor, and what keeps a cursor within its input. -/
structure Cursor (σ β : Type) where
  rest : σ → List β
  Within : σ → Prop

variable {σ β ε α γ ρ ρ' : Type}

/-- Reads a prefix of what is left. -/
structure Reads (c : Cursor σ β) (bad : ε) (m : StateT σ (Except ε) α) (value : ρ → α)
    (bytes : ρ → List β) : Prop where
  sound : ∀ s a s', c.Within s → m s = .ok (a, s') →
    c.Within s' ∧ ∃ r, a = value r ∧ c.rest s = bytes r ++ c.rest s'
  complete : ∀ s r t, c.Within s → c.rest s = bytes r ++ t →
    ∃ s', m s = .ok (value r, s') ∧ c.rest s' = t
  safe : ∀ s, c.Within s → m s ≠ .error bad

/-- Reads all that is left. -/
structure ReadsAll (c : Cursor σ β) (bad : ε) (m : StateT σ (Except ε) α) (value : ρ → α)
    (bytes : ρ → List β) : Prop where
  sound : ∀ s a s', c.Within s → m s = .ok (a, s') → ∃ r, a = value r ∧ c.rest s = bytes r
  complete : ∀ s r, c.Within s → c.rest s = bytes r → ∃ s', m s = .ok (value r, s')
  safe : ∀ s, c.Within s → m s ≠ .error bad

variable {c : Cursor σ β} {bad : ε} {m : StateT σ (Except ε) α} {f : α → StateT σ (Except ε) γ}
  {value : ρ → α} {bytes : ρ → List β}

theorem bind_run (m : StateT σ (Except ε) α) (f : α → StateT σ (Except ε) γ) (s : σ) :
    (m >>= f) s = (m s >>= fun p => f p.1 p.2) := rfl

theorem run_bind_ok {s s' : σ} {a : α} (h : m s = .ok (a, s')) : (m >>= f) s = f a s' := by
  rw [bind_run, h]
  rfl

theorem run_bind_error {s : σ} {e : ε} (h : m s = .error e) : (m >>= f) s = .error e := by
  rw [bind_run, h]
  rfl

/-- A successful sequence, taken apart. -/
theorem run_bind_eq_ok {s t : σ} {b : γ} (h : (m >>= f) s = .ok (b, t)) :
    ∃ a s', m s = .ok (a, s') ∧ f a s' = .ok (b, t) := by
  cases hm : m s with
  | error e =>
    rw [run_bind_error hm] at h
    cases h
  | ok p =>
    rw [run_bind_ok hm] at h
    exact ⟨p.1, p.2, rfl, h⟩

/-- A sequence is safe if its parts are. -/
theorem run_bind_safe {s : σ} (hm : m s ≠ .error bad)
    (hf : ∀ a s', m s = .ok (a, s') → f a s' ≠ .error bad) : (m >>= f) s ≠ .error bad := by
  cases hs : m s with
  | error e =>
    rw [run_bind_error hs]
    intro he
    exact hm (hs.trans (congrArg Except.error (Except.error.inj he)))
  | ok p =>
    rw [run_bind_ok hs]
    exact hf p.1 p.2 hs

/-! ## Prefix readers -/

theorem Reads.pure (c : Cursor σ β) (bad : ε) (a : α) :
    Reads c bad (Pure.pure a : StateT σ (Except ε) α) (fun _ : Unit => a) (fun _ => []) where
  sound := by
    rintro s a' s' hs h
    cases h
    exact ⟨hs, (), rfl, rfl⟩
  complete := by
    intro s r t _ hrest
    exact ⟨s, rfl, hrest⟩
  safe := by
    intro s _ h
    cases h

/-- The same texts and values from other raw forms. -/
theorem Reads.reform {value' : ρ' → α} {bytes' : ρ' → List β} (hm : Reads c bad m value bytes)
    (form : ρ' → ρ) (hform : Function.Surjective form) (hvalue : ∀ r, value (form r) = value' r)
    (hbytes : ∀ r, bytes (form r) = bytes' r) : Reads c bad m value' bytes' where
  sound := by
    intro s a s' hs h
    obtain ⟨hs', r, rfl, hrest⟩ := hm.sound s a s' hs h
    obtain ⟨r', rfl⟩ := hform r
    exact ⟨hs', r', hvalue r', by rw [hrest, hbytes]⟩
  complete := by
    intro s r t hs hrest
    rw [← hbytes] at hrest
    obtain ⟨s', h, ht⟩ := hm.complete s (form r) t hs hrest
    exact ⟨s', by rw [h, hvalue], ht⟩
  safe := hm.safe

/-- A length that is read first decides how much is read after it. -/
theorem Reads.bindDep {R : ρ → Type} {v : (r : ρ) → R r → γ}
    {w : (r : ρ) → R r → List β} (hm : Reads c bad m value bytes)
    (hf : ∀ r, Reads c bad (f (value r)) (v r) (w r)) :
    Reads c bad (m >>= f) (fun p : (r : ρ) × R r => v p.1 p.2)
      (fun p => bytes p.1 ++ w p.1 p.2) where
  sound := by
    intro s b t hs h
    obtain ⟨a, s', ha, hb⟩ := run_bind_eq_ok h
    obtain ⟨hs', r, rfl, hrest⟩ := hm.sound s a s' hs ha
    obtain ⟨ht, r', rfl, hrest'⟩ := (hf r).sound s' b t hs' hb
    refine ⟨ht, ⟨r, r'⟩, rfl, ?_⟩
    rw [hrest, hrest', List.append_assoc]
  complete := by
    rintro s ⟨r, r'⟩ t hs hrest
    rw [List.append_assoc] at hrest
    obtain ⟨s', ha, hrest'⟩ := hm.complete s r _ hs hrest
    obtain ⟨t', hb, ht⟩ := (hf r).complete s' r' t (hm.sound s _ s' hs ha).1 hrest'
    exact ⟨t', (run_bind_ok ha).trans hb, ht⟩
  safe := by
    intro s hs
    refine run_bind_safe (hm.safe s hs) fun a s' ha => ?_
    obtain ⟨hs', r, rfl, -⟩ := hm.sound s a s' hs ha
    exact (hf r).safe s' hs'

theorem Reads.bind {v : ρ → ρ' → γ} {w : ρ' → List β} (hm : Reads c bad m value bytes)
    (hf : ∀ r, Reads c bad (f (value r)) (v r) w) :
    Reads c bad (m >>= f) (fun p : ρ × ρ' => v p.1 p.2)
      (fun p => bytes p.1 ++ w p.2) :=
  (hm.bindDep (v := v) (w := fun _ => w) hf).reform (fun p => ⟨p.1, p.2⟩)
    (fun p => ⟨(p.1, p.2), rfl⟩) (fun _ => rfl) fun _ => rfl

/-! ## Readers of the whole rest -/

theorem Reads.bindAll {v : ρ → ρ' → γ} {w : ρ' → List β}
    (hm : Reads c bad m value bytes)
    (hf : ∀ r, ReadsAll c bad (f (value r)) (v r) w) :
    ReadsAll c bad (m >>= f) (fun p : ρ × ρ' => v p.1 p.2)
      (fun p => bytes p.1 ++ w p.2) where
  sound := by
    intro s b t hs h
    obtain ⟨a, s', ha, hb⟩ := run_bind_eq_ok h
    obtain ⟨hs', r, rfl, hrest⟩ := hm.sound s a s' hs ha
    obtain ⟨r', rfl, hrest'⟩ := (hf r).sound s' b t hs' hb
    exact ⟨(r, r'), rfl, by rw [hrest, hrest']⟩
  complete := by
    rintro s ⟨r, r'⟩ hs hrest
    obtain ⟨s', ha, hrest'⟩ := hm.complete s r _ hs hrest
    obtain ⟨t', hb⟩ := (hf r).complete s' r' (hm.sound s _ s' hs ha).1 hrest'
    exact ⟨t', (run_bind_ok ha).trans hb⟩
  safe := by
    intro s hs
    refine run_bind_safe (hm.safe s hs) fun a s' ha => ?_
    obtain ⟨hs', r, rfl, -⟩ := hm.sound s a s' hs ha
    exact (hf r).safe s' hs'

theorem ReadsAll.reform {value' : ρ' → α} {bytes' : ρ' → List β}
    (hm : ReadsAll c bad m value bytes) (form : ρ' → ρ) (hform : Function.Surjective form)
    (hvalue : ∀ r, value (form r) = value' r) (hbytes : ∀ r, bytes (form r) = bytes' r) :
    ReadsAll c bad m value' bytes' where
  sound := by
    intro s a s' hs h
    obtain ⟨r, rfl, hrest⟩ := hm.sound s a s' hs h
    obtain ⟨r', rfl⟩ := hform r
    exact ⟨r', hvalue r', by rw [hrest, hbytes]⟩
  complete := by
    intro s r hs hrest
    rw [← hbytes] at hrest
    obtain ⟨s', h⟩ := hm.complete s (form r) hs hrest
    exact ⟨s', by rw [h, hvalue]⟩
  safe := hm.safe

/-- The same reader with a function of its value. -/
theorem ReadsAll.map (hm : ReadsAll c bad m value bytes) (g : α → γ) :
    ReadsAll c bad (m >>= fun a => Pure.pure (g a)) (fun r => g (value r)) bytes where
  sound := by
    intro s b s' hs h
    obtain ⟨a, t, ha, hb⟩ := run_bind_eq_ok h
    obtain ⟨r, rfl, hrest⟩ := hm.sound s a t hs ha
    cases hb
    exact ⟨r, rfl, hrest⟩
  complete := by
    intro s r hs hrest
    obtain ⟨s', h⟩ := hm.complete s r hs hrest
    exact ⟨s', by rw [run_bind_ok h]; rfl⟩
  safe := by
    intro s hs
    refine run_bind_safe (hm.safe s hs) fun a s' _ h => ?_
    cases h

end Reader
