import Mathlib

/-!
The greatest fall of a series below its running peak.

One pass keeps the peak and the worst fall below it.  `fold_isGreatest`: over
positive values the worst fall is the greatest `(a - b) / a` over all pairs with
`a` not after `b`, because for the last value the greatest earlier one is the worst
to fall from.
-/

namespace RunningPeak

variable {K : Type} [Field K] [LinearOrder K] [IsStrictOrderedRing K]

def step (s : K × K) (value : K) : K × K :=
  (max s.1 value, max s.2 ((max s.1 value - value) / max s.1 value))

/-- The peak and the worst fall. -/
def fold (l : List K) : K × K := l.foldl step (0, 0)

/-- `x` is the fall from a value to one that does not come before it. -/
def IsFall (l : List K) (x : K) : Prop :=
  ∃ (i j : Nat) (a b : K), i ≤ j ∧ l[i]? = some a ∧ l[j]? = some b ∧ x = (a - b) / a

omit [LinearOrder K] [IsStrictOrderedRing K] in
theorem isFall_append_singleton {l : List K} {v x : K} :
    IsFall (l ++ [v]) x ↔ IsFall l x ∨ ∃ a ∈ l ++ [v], x = (a - v) / a := by
  constructor
  · rintro ⟨i, j, a, b, hij, ha, hb, rfl⟩
    by_cases hj : j < l.length
    · rw [List.getElem?_append_left hj] at hb
      rw [List.getElem?_append_left (by omega)] at ha
      exact Or.inl ⟨i, j, a, b, hij, ha, hb, rfl⟩
    · have hlast : j = l.length := by
        have hlt := (List.getElem?_eq_some_iff.1 hb).1
        rw [List.length_append, List.length_singleton] at hlt
        omega
      subst hlast
      rw [List.getElem?_concat_length] at hb
      cases hb
      exact Or.inr ⟨a, List.mem_of_getElem? ha, rfl⟩
  · rintro (⟨i, j, a, b, hij, ha, hb, rfl⟩ | ⟨a, ha, rfl⟩)
    · have hj := (List.getElem?_eq_some_iff.1 hb).1
      refine ⟨i, j, a, b, hij, ?_, ?_, rfl⟩
      · rw [List.getElem?_append_left (by omega), ha]
      · rw [List.getElem?_append_left hj, hb]
    · obtain ⟨i, hi⟩ := List.mem_iff_getElem?.1 ha
      have hlt := (List.getElem?_eq_some_iff.1 hi).1
      rw [List.length_append, List.length_singleton] at hlt
      exact ⟨i, l.length, a, v, by omega, hi, List.getElem?_concat_length, rfl⟩

omit [IsStrictOrderedRing K] in
theorem fold_append_singleton (l : List K) (v : K) : fold (l ++ [v]) = step (fold l) v := by
  unfold fold
  rw [List.foldl_append]
  rfl

omit [IsStrictOrderedRing K] in
theorem fold_peak {l : List K} (hpos : ∀ a ∈ l, 0 < a) :
    (∀ a ∈ l, a ≤ (fold l).1) ∧ (l ≠ [] → (fold l).1 ∈ l) ∧ 0 ≤ (fold l).1 := by
  induction l using List.reverseRecOn with
  | nil => exact ⟨fun a ha => absurd ha List.not_mem_nil, fun h => absurd rfl h, le_rfl⟩
  | append_singleton l v ih =>
    obtain ⟨hle, hmem, hnonneg⟩ := ih fun a ha => hpos a (List.mem_append_left _ ha)
    have hv : 0 < v := hpos v (List.mem_append_right _ List.mem_cons_self)
    rw [fold_append_singleton]
    show (∀ a ∈ l ++ [v], a ≤ max (fold l).1 v) ∧ (_ → max (fold l).1 v ∈ l ++ [v]) ∧
      0 ≤ max (fold l).1 v
    refine ⟨fun a ha => ?_, fun _ => ?_, hnonneg.trans (le_max_left _ _)⟩
    · rcases List.mem_append.1 ha with ha | ha
      · exact (hle a ha).trans (le_max_left _ _)
      · rw [List.mem_singleton.1 ha]
        exact le_max_right _ _
    · rcases le_or_gt (fold l).1 v with h | h
      · rw [max_eq_right h]
        exact List.mem_append_right _ List.mem_cons_self
      · rw [max_eq_left h.le]
        refine List.mem_append_left _ (hmem ?_)
        rintro rfl
        exact absurd h (not_lt.2 hv.le)

/-- A fall is worst from the highest value. -/
theorem fall_le_fall {a peak v : K} (ha : 0 < a) (hv : 0 < v) (hle : a ≤ peak) :
    (a - v) / a ≤ (peak - v) / peak := by
  have hpeak : 0 < peak := ha.trans_le hle
  rw [sub_div, sub_div, div_self ha.ne', div_self hpeak.ne']
  exact sub_le_sub_left (div_le_div_of_nonneg_left hv.le ha hle) 1

/-- The worst fall of one pass is the greatest fall of all pairs. -/
theorem fold_isGreatest {l : List K} (hne : l ≠ []) (hpos : ∀ a ∈ l, 0 < a) :
    IsGreatest {x | IsFall l x} (fold l).2 := by
  suffices h : (∀ x, IsFall l x → x ≤ (fold l).2) ∧ 0 ≤ (fold l).2 ∧
      ((fold l).2 = 0 ∨ IsFall l (fold l).2) by
    obtain ⟨hle, -, hzero | hfall⟩ := h
    · obtain ⟨a, ha⟩ := List.exists_mem_of_ne_nil l hne
      obtain ⟨i, hi⟩ := List.mem_iff_getElem?.1 ha
      refine ⟨?_, hle⟩
      rw [hzero]
      exact ⟨i, i, a, a, le_rfl, hi, hi, by rw [sub_self, zero_div]⟩
    · exact ⟨hfall, hle⟩
  clear hne
  induction l using List.reverseRecOn with
  | nil =>
    refine ⟨?_, le_rfl, Or.inl rfl⟩
    rintro x ⟨i, j, a, b, -, ha, -⟩
    cases ha
  | append_singleton l v ih =>
    obtain ⟨hle, hnonneg, hcase⟩ := ih fun a ha => hpos a (List.mem_append_left _ ha)
    have hv : 0 < v := hpos v (List.mem_append_right _ List.mem_cons_self)
    have hpeak := fold_peak hpos
    rw [fold_append_singleton] at hpeak ⊢
    obtain ⟨hhigh, hmem, -⟩ := hpeak
    refine ⟨fun x hx => ?_, hnonneg.trans (le_max_left _ _), ?_⟩
    · rcases isFall_append_singleton.1 hx with hx | ⟨a, ha, rfl⟩
      · exact (hle x hx).trans (le_max_left _ _)
      · exact (fall_le_fall (hpos a ha) hv (hhigh a ha)).trans (le_max_right _ _)
    · show max (fold l).2 _ = 0 ∨ IsFall _ (max (fold l).2 _)
      rcases le_total (fold l).2 ((max (fold l).1 v - v) / max (fold l).1 v) with h | h
      · rw [max_eq_right h]
        exact Or.inr (isFall_append_singleton.2 (Or.inr ⟨_, hmem (by simp), rfl⟩))
      · rw [max_eq_left h]
        exact hcase.imp_right fun hfall => isFall_append_singleton.2 (Or.inl hfall)

end RunningPeak
