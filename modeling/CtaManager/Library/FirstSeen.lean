import CtaManager.Library.OrdMap

/-! The earliest time each key was seen.

`note m k t` records that `k` was seen at `t`; `noteAll` records a list of
sightings.  Sightings at or after a time `c` do not change what was seen
before `c` (`before_noteAll_of_le`). -/

namespace FirstSeen

variable {K : Type} [LinearOrder K]

/-- `k` was seen at `t`. -/
def note (m : OrdMap K Int) (k : K) (t : Int) : OrdMap K Int :=
  m.upsert k fun o => o.elim t (min · t)

def noteAll (m : OrdMap K Int) (l : List (K × Int)) : OrdMap K Int :=
  l.foldl (fun m p => note m p.1 p.2) m

/-- What was first seen before `c`. -/
def before (c : Int) (m : OrdMap K Int) : OrdMap K Int := m.filter fun _ t => decide (t < c)

@[simp] theorem noteAll_nil (m : OrdMap K Int) : noteAll m [] = m := rfl

theorem noteAll_cons (m : OrdMap K Int) (p : K × Int) (l : List (K × Int)) :
    noteAll m (p :: l) = noteAll (note m p.1 p.2) l := rfl

theorem noteAll_append (m : OrdMap K Int) (l₁ l₂ : List (K × Int)) :
    noteAll m (l₁ ++ l₂) = noteAll (noteAll m l₁) l₂ := List.foldl_append

theorem getElem?_note (m : OrdMap K Int) (k k' : K) (t : Int) :
    (note m k t)[k']? = if k = k' then some (m[k]?.elim t (min · t)) else m[k']? :=
  OrdMap.getElem?_upsert m k k' _

theorem getElem?_before (c : Int) (m : OrdMap K Int) (k : K) :
    (before c m)[k]? = m[k]?.filter fun t => decide (t < c) := by
  unfold before
  rw [Std.ExtTreeMap.getElem?_filter']

theorem before_note_of_le (c : Int) (m : OrdMap K Int) (k : K) (t : Int) (ht : c ≤ t) :
    before c (note m k t) = before c m := by
  refine Std.ExtTreeMap.ext_getElem? fun k' => ?_
  rw [getElem?_before, getElem?_before, getElem?_note]
  by_cases hk : k = k'
  · subst hk
    rw [if_pos rfl]
    cases m[k]? with
    | none => simpa using ht
    | some v =>
      rcases lt_or_ge v c with hv | hv
      · simp [min_eq_left (le_trans hv.le ht)]
      · have hmin : ¬ min v t < c := not_lt.2 (le_min hv ht)
        simp only [Option.elim_some, Option.filter_some, decide_eq_true_eq, if_neg hmin,
          if_neg (not_lt.2 hv)]
  · rw [if_neg hk]

theorem before_noteAll_of_le (c : Int) (m : OrdMap K Int) (l : List (K × Int))
    (hl : ∀ p ∈ l, c ≤ p.2) : before c (noteAll m l) = before c m := by
  induction l generalizing m with
  | nil => rfl
  | cons p l ih =>
    rw [noteAll_cons, ih _ fun q hq => hl q (List.mem_cons_of_mem _ hq),
      before_note_of_le _ _ _ _ (hl p List.mem_cons_self)]

theorem noteAll_lt (c : Int) (m : OrdMap K Int) (l : List (K × Int))
    (hm : ∀ (k : K) (t : Int), m[k]? = some t → t < c) (hl : ∀ p ∈ l, p.2 < c) (k : K)
    (t : Int)
    (h : (noteAll m l)[k]? = some t) : t < c := by
  induction l generalizing m with
  | nil => exact hm k t h
  | cons p l ih =>
    rw [noteAll_cons] at h
    refine ih (note m p.1 p.2) (fun k' t' h' => ?_) (fun q hq => hl q (List.mem_cons_of_mem _ hq)) h
    rw [getElem?_note] at h'
    have hp : p.2 < c := hl p List.mem_cons_self
    split at h'
    · rw [Option.some.injEq] at h'
      subst h'
      cases m[p.1]? with
      | none => exact hp
      | some v => exact lt_of_le_of_lt (min_le_right _ _) hp
    · exact hm k' t' h'

theorem before_eq_self (c : Int) (m : OrdMap K Int)
    (hm : ∀ (k : K) (t : Int), m[k]? = some t → t < c) :
    before c m = m := by
  refine Std.ExtTreeMap.ext_getElem? fun k => ?_
  rw [getElem?_before]
  cases h : m[k]? with
  | none => rfl
  | some t => simp [hm k t h]

/-- A prefix of the sightings, cut out by time. -/
theorem before_noteAll_append (c : Int) (l₁ l₂ : List (K × Int)) (h₁ : ∀ p ∈ l₁, p.2 < c)
    (h₂ : ∀ p ∈ l₂, c ≤ p.2) : before c (noteAll ∅ (l₁ ++ l₂)) = noteAll ∅ l₁ := by
  rw [noteAll_append, before_noteAll_of_le c _ _ h₂]
  refine before_eq_self c _ (noteAll_lt c ∅ l₁ ?_ h₁)
  intro k t h
  simp at h

/-- What was seen by `c` has a sighting not after `c`. -/
theorem exists_le_noteAll (c : Int) (m : OrdMap K Int) (l : List (K × Int)) (k : K) :
    (∃ t, (noteAll m l)[k]? = some t ∧ t ≤ c) ↔
      (∃ t, m[k]? = some t ∧ t ≤ c) ∨ ∃ t, (k, t) ∈ l ∧ t ≤ c := by
  induction l generalizing m with
  | nil => simp
  | cons p l ih =>
    rw [noteAll_cons, ih]
    have hnote : (∃ t, (note m p.1 p.2)[k]? = some t ∧ t ≤ c) ↔
        (∃ t, m[k]? = some t ∧ t ≤ c) ∨ (p.1 = k ∧ p.2 ≤ c) := by
      rw [getElem?_note]
      by_cases hk : p.1 = k
      · subst hk
        cases m[p.1]? with
        | none => simp
        | some v => simp
      · simp [hk]
    rw [hnote]
    simp only [List.mem_cons, or_and_right, exists_or, or_assoc]
    refine or_congr_right (or_congr_left ?_)
    constructor
    · rintro ⟨rfl, h⟩
      exact ⟨p.2, rfl, h⟩
    · rintro ⟨t, rfl, h⟩
      exact ⟨rfl, h⟩

end FirstSeen
