import CtaManager.Library.OrdMap

/-!
Lists grouped by a key, and the results of the groups put together again.

`group key l` files every element of `l` under its key, in order (`getElem?_group`).  When
each group gives a list of elements of its own key, the elements of one key in all the
results together are the result of that group (`filter_flatten`).
-/

namespace OrdMap

variable {K V α β : Type} [LinearOrder K]

/-- The elements of `l` under their keys. -/
def group (key : α → K) (l : List α) : OrdMap K (List α) :=
  l.foldl (fun m a => m.upsert (key a) fun o => o.getD [] ++ [a]) ∅

theorem group_append_singleton (key : α → K) (l : List α) (a : α) :
    group key (l ++ [a]) = (group key l).upsert (key a) fun o => o.getD [] ++ [a] := by
  rw [group, List.foldl_append]
  rfl

/-- The group of `k`: its elements, in order. -/
theorem getElem?_group (key : α → K) (l : List α) (k : K) :
    (group key l)[k]? =
      if l.filter (fun a => key a = k) = [] then none else some (l.filter fun a => key a = k) := by
  induction l using List.reverseRecOn with
  | nil => exact Std.ExtTreeMap.getElem?_empty
  | append_singleton l a ih =>
    rw [group_append_singleton, getElem?_upsert, List.filter_append]
    by_cases hk : key a = k
    · subst hk
      rw [if_pos rfl, ih]
      by_cases hnil : l.filter (fun b => key b = key a) = []
      · simp [hnil]
      · simp [hnil]
    · rw [if_neg hk, ih]
      simp [hk]

theorem mem_toList_group {key : α → K} {l : List α} {k : K} {g : List α} :
    (k, g) ∈ (group key l).toList ↔ g ≠ [] ∧ g = l.filter fun a => key a = k := by
  rw [mem_toList, getElem?_group]
  constructor
  · intro h
    split at h
    · cases h
    · next hne =>
      cases h
      exact ⟨hne, rfl⟩
  · rintro ⟨hne, rfl⟩
    rw [if_neg hne]

/-- Maps with the same keys list them in the same order. -/
theorem forall₂_toList {m : OrdMap K V} {m' : OrdMap K β}
    (h : ∀ k : K, (m[k]? : Option V).isSome = (m'[k]? : Option β).isSome) :
    List.Forall₂ (fun p q => p.1 = q.1) m.toList m'.toList := by
  have hmem : ∀ {W : Type} (n : OrdMap K W) (k : K),
      k ∈ n.toList.map Prod.fst ↔ n[k]?.isSome = true := by
    intro W n k
    rw [List.mem_map, Option.isSome_iff_exists]
    constructor
    · rintro ⟨⟨k', v⟩, hmem, rfl⟩
      exact ⟨v, mem_toList.1 hmem⟩
    · rintro ⟨v, hv⟩
      exact ⟨(k, v), mem_toList.2 hv, rfl⟩
  have hsorted : ∀ {W : Type} (n : OrdMap K W),
      (n.toList.map Prod.fst).Pairwise fun a b => a < b := by
    intro W n
    exact List.pairwise_map.2 (sorted_keys_toList n)
  have hkeys : m.toList.map Prod.fst = m'.toList.map Prod.fst := by
    refine List.Perm.eq_of_pairwise (fun a b _ _ hab hba => absurd hab (lt_asymm hba))
      (hsorted m) (hsorted m') ?_
    rw [List.perm_ext_iff_of_nodup (nodup_keys_toList m) (nodup_keys_toList m')]
    intro k
    rw [hmem, hmem, h k]
  rw [← List.forall₂_eq_eq_eq, List.forall₂_map_left_iff, List.forall₂_map_right_iff] at hkeys
  exact hkeys

/-- Maps whose values are related key by key list related values. -/
theorem forall₂_toList_of_rel {m : OrdMap K V} {m' : OrdMap K β} {R : V → β → Prop}
    (h : ∀ k : K, Option.Rel R (m[k]? : Option V) (m'[k]? : Option β)) :
    List.Forall₂ (fun p q => p.1 = q.1 ∧ R p.2 q.2) m.toList m'.toList := by
  have hsome : ∀ k : K, (m[k]? : Option V).isSome = (m'[k]? : Option β).isSome := by
    intro k
    have hk := h k
    generalize (m[k]? : Option V) = x at hk
    generalize (m'[k]? : Option β) = y at hk
    cases hk with
    | some _ => rfl
    | none => rfl
  obtain ⟨hlength, hkeys⟩ := List.forall₂_iff_zip.1 (forall₂_toList hsome)
  refine List.forall₂_iff_zip.2 ⟨hlength, fun {p q} hpq => ?_⟩
  have hkey := hkeys hpq
  obtain ⟨hp, hq⟩ := List.of_mem_zip hpq
  have hrel := h p.1
  rw [mem_toList.1 (show (p.1, p.2) ∈ m.toList from hp), hkey,
    mem_toList.1 (show (q.1, q.2) ∈ m'.toList from hq)] at hrel
  cases hrel with
  | some hvalue => exact ⟨hkey, hvalue⟩

/-- The results of groups: those of one key are the result of its group. -/
theorem filter_flatten {key : β → K} {groups : List (K × V)} {results : List (List β)}
    (h : List.Forall₂ (fun g r => ∀ b ∈ r, key b = g.1) groups results)
    (hnodup : (groups.map Prod.fst).Nodup) :
    List.Forall₂ (fun g r => results.flatten.filter (fun b => key b = g.1) = r) groups results := by
  have hother : ∀ {groups : List (K × V)} {results : List (List β)} {k : K},
      List.Forall₂ (fun g r => ∀ b ∈ r, key b = g.1) groups results →
      k ∉ groups.map Prod.fst → results.flatten.filter (fun b => key b = k) = [] := by
    intro groups results k hgr hk
    induction hgr with
    | nil => rfl
    | cons hg _ ih =>
      rw [List.map_cons, List.mem_cons, not_or] at hk
      rw [List.flatten_cons, List.filter_append, ih hk.2, List.append_nil,
        List.filter_eq_nil_iff]
      intro b hb
      rw [decide_eq_true_eq, hg b hb]
      exact fun heq => hk.1 heq.symm
  induction h with
  | nil => exact List.Forall₂.nil
  | @cons g r groups results hg hrest ih =>
    rw [List.map_cons, List.nodup_cons] at hnodup
    have hown : r.filter (fun b => key b = g.1) = r := by
      rw [List.filter_eq_self]
      intro b hb
      rw [decide_eq_true_eq]
      exact hg b hb
    refine List.Forall₂.cons ?_ ?_
    · rw [List.flatten_cons, List.filter_append, hown, hother hrest hnodup.1, List.append_nil]
    · have hne : ∀ g' ∈ groups, r.filter (fun b => key b = g'.1) = [] := by
        intro g' hg'
        rw [List.filter_eq_nil_iff]
        intro b hb
        rw [decide_eq_true_eq, hg b hb]
        intro heq
        exact hnodup.1 (heq ▸ List.mem_map_of_mem hg')
      rw [List.forall₂_iff_zip] at ih ⊢
      refine ⟨(ih hnodup.2).1, fun {g' r'} hmem => ?_⟩
      rw [List.flatten_cons, List.filter_append, hne g' (List.of_mem_zip hmem).1, List.nil_append]
      exact (ih hnodup.2).2 hmem

end OrdMap
