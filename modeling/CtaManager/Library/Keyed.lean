import CtaManager.Library.Check
import CtaManager.Library.OrdMap
import CtaManager.Library.StableSort

/-!
Lists with one entry per key.

A fold whose steps each touch the component of their own key treats the components
independently: the final component of a key is the one its own step left
(`foldlM_keyed`).  Inserting such a list into an empty map gives the map of its
entries (`getElem?_collect`), in any order; and sorting it by its keys gives one
list, in whatever order it came (`stableSort_eq_of_perm`).
-/

namespace Keyed

variable {α K V ε σ : Type}

/-- A fold over distinct keys, component by component.  `P` is what every step keeps
of the rest of the state. -/
theorem foldlM_keyed {f : σ → α → Except ε σ} (key : α → K) (obs : σ → K → V) (P : σ → Prop)
    {l : List α} (hl : (l.map key).Nodup)
    (hkeep : ∀ a ∈ l, ∀ s s', P s → f s a = .ok s' → P s')
    (hframe : ∀ a ∈ l, ∀ s s' k, P s → f s a = .ok s' → k ≠ key a → obs s' k = obs s k)
    {s s' : σ} (hs : P s) (h : l.foldlM f s = .ok s') :
    P s' ∧ (∀ k, k ∉ l.map key → obs s' k = obs s k) ∧
      ∀ a ∈ l, ∃ t t', P t ∧ f t a = .ok t' ∧ obs t (key a) = obs s (key a) ∧
        obs s' (key a) = obs t' (key a) := by
  induction l generalizing s with
  | nil =>
    cases h
    exact ⟨hs, fun _ _ => rfl, fun a ha => absurd ha List.not_mem_nil⟩
  | cons b l ih =>
    rw [List.map_cons, List.nodup_cons] at hl
    obtain ⟨t, ht, htl⟩ := Check.bind_eq_ok.1 (Check.foldlM_cons f s b l ▸ h)
    have hb := hframe b List.mem_cons_self s t
    obtain ⟨hP, hout, hin⟩ := ih hl.2 (fun a ha => hkeep a (List.mem_cons_of_mem _ ha))
      (fun a ha => hframe a (List.mem_cons_of_mem _ ha)) (hkeep b List.mem_cons_self s t hs ht) htl
    refine ⟨hP, fun k hk => ?_, fun a ha => ?_⟩
    · rw [List.map_cons, List.mem_cons, not_or] at hk
      rw [hout k hk.2, hb k hs ht hk.1]
    · rcases List.mem_cons.1 ha with rfl | ha
      · exact ⟨s, t, hs, ht, rfl, hout _ hl.1⟩
      · have hne : key a ≠ key b := fun hab => hl.1 (hab ▸ List.mem_map_of_mem ha)
        obtain ⟨u, u', hu, hf, hobs, hobs'⟩ := hin a ha
        exact ⟨u, u', hu, hf, hobs.trans (hb _ hs ht hne), hobs'⟩

section Ordered

variable [LinearOrder K]

/-- The map of the entries of a list. -/
theorem getElem?_collect (key : α → K) (val : α → V) {l : List α} (hl : (l.map key).Nodup)
    {k : K} {v : V} :
    (l.foldl (fun m a => m.insert (key a) (val a)) (∅ : OrdMap K V))[k]? = some v ↔
      ∃ a ∈ l, key a = k ∧ val a = v := by
  induction l using List.reverseRecOn with
  | nil => simp
  | append_singleton l b ih =>
    rw [List.map_append, List.map_singleton, List.nodup_append] at hl
    rw [List.foldl_append, List.foldl_cons, List.foldl_nil, OrdMap.getElem?_insert_of_key]
    by_cases hk : key b = k
    · rw [if_pos hk, Option.some.injEq]
      constructor
      · intro hv
        exact ⟨b, List.mem_append_right _ (List.mem_singleton_self b), hk, hv⟩
      · rintro ⟨a, ha, hak, hav⟩
        rcases List.mem_append.1 ha with ha | ha
        · exact absurd (hak.trans hk.symm)
            (hl.2.2 _ (List.mem_map_of_mem ha) _ (List.mem_singleton_self _))
        · rw [List.mem_singleton] at ha
          rw [← ha]
          exact hav
    · rw [if_neg hk, ih hl.1]
      constructor
      · rintro ⟨a, ha, hak, hav⟩
        exact ⟨a, List.mem_append_left _ ha, hak, hav⟩
      · rintro ⟨a, ha, hak, hav⟩
        rcases List.mem_append.1 ha with ha | ha
        · exact ⟨a, ha, hak, hav⟩
        · rw [List.mem_singleton] at ha
          exact absurd (ha ▸ hak) hk

theorem getElem?_collect_eq_none (key : α → K) (val : α → V) {l : List α} {k : K} :
    (l.foldl (fun m a => m.insert (key a) (val a)) (∅ : OrdMap K V))[k]? = none ↔
      ∀ a ∈ l, key a ≠ k := by
  induction l using List.reverseRecOn with
  | nil => simp
  | append_singleton l b ih =>
    rw [List.foldl_append, List.foldl_cons, List.foldl_nil, OrdMap.getElem?_insert_of_key]
    by_cases hk : key b = k
    · rw [if_pos hk]
      constructor
      · intro h
        cases h
      · intro h
        exact absurd hk (h b (List.mem_append_right _ (List.mem_singleton_self b)))
    · rw [if_neg hk, ih]
      constructor
      · intro h a ha
        rcases List.mem_append.1 ha with ha | ha
        · exact h a ha
        · rw [List.mem_singleton] at ha
          exact ha ▸ hk
      · intro h a ha
        exact h a (List.mem_append_left _ ha)

/-- A list without two entries of one key sorts to the same list in any order. -/
theorem stableSort_eq_of_perm (key : α → K) {l l' : List α} (hl : (l.map key).Nodup)
    (h : l.Perm l') : StableSort.stableSort key l = StableSort.stableSort key l' := by
  refine StableSort.stableSort_congr key l l' fun k => ?_
  have hp := h.filter fun a => decide (key a = k)
  rcases hf : l.filter (fun a => decide (key a = k)) with _ | ⟨a, t⟩
  · rw [hf] at hp
    exact hp.nil_eq
  · -- a second entry would have the key of the first
    have ht : t = [] := by
      have hsub : (a :: t).Sublist l := hf ▸ List.filter_sublist
      have hnd := hl.sublist (hsub.map key)
      rcases t with _ | ⟨b, t⟩
      · rfl
      · have hkey : ∀ c ∈ a :: b :: t, key c = k := fun c hc => by
          have := (List.mem_filter.1 (hf ▸ hc)).2
          simpa using this
        rw [List.map_cons, List.map_cons, List.nodup_cons] at hnd
        refine absurd ?_ hnd.1
        rw [hkey a List.mem_cons_self, hkey b (by simp)]
        exact List.mem_cons_self
    rw [hf, ht] at hp
    rw [ht]
    exact List.perm_singleton.1 hp.symm |>.symm

end Ordered

end Keyed
