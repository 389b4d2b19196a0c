import CtaManager.Library.OrdMap

/-!
Ranges of an ordered map: what an iterator finds from a key on, forward or backward.
-/

namespace OrdMap

variable {K V : Type} [LinearOrder K]

/-- The last entry of a range, if it has any, is the one with the greatest key. -/
theorem getLast?_filter_toList {m : OrdMap K V} {p : K → Bool} {k : K} {v : V}
    (h : (m.toList.filter fun e => p e.1).getLast? = some (k, v)) :
    m[k]? = some v ∧ p k = true ∧ ∀ k' v', m[k']? = some v' → p k' = true → k' ≤ k := by
  obtain ⟨init, hinit⟩ := List.getLast?_eq_some_iff.1 h
  have hmem : (k, v) ∈ m.toList.filter fun e => p e.1 := by
    rw [hinit]
    exact List.mem_append_right _ (List.mem_singleton_self _)
  rw [List.mem_filter] at hmem
  refine ⟨mem_toList.1 hmem.1, hmem.2, fun k' v' hk' hp => ?_⟩
  have hsorted := (sorted_keys_toList m).filter fun e => p e.1
  have hmem' : (k', v') ∈ m.toList.filter fun e => p e.1 :=
    List.mem_filter.2 ⟨mem_toList.2 hk', hp⟩
  rw [hinit] at hsorted hmem'
  rcases List.mem_append.1 hmem' with hmem' | hmem'
  · exact ((List.pairwise_append.1 hsorted).2.2 _ hmem' _ (List.mem_singleton_self _)).le
  · rw [List.mem_singleton] at hmem'
    exact (congrArg Prod.fst hmem').le

theorem getLast?_filter_toList_eq_none {m : OrdMap K V} {p : K → Bool}
    (h : (m.toList.filter fun e => p e.1).getLast? = none) :
    ∀ k v, m[k]? = some v → p k = false := by
  intro k v hk
  have hnil := List.filter_eq_nil_iff.1 (List.getLast?_eq_none_iff.1 h) (k, v) (mem_toList.2 hk)
  simpa using hnil

theorem getElem?_filter_eq_some {m : OrdMap K V} {p : K → V → Bool} {k : K} {v : V} :
    (m.filter p)[k]? = some v ↔ m[k]? = some v ∧ p k v = true := by
  rw [Std.ExtTreeMap.getElem?_filter', Option.filter_eq_some_iff]

/-- A set built from a list. -/
theorem mem_foldl_insert {α : Type} (f : α → K) {l : List α} {s : OrdSet K} {k : K} :
    k ∈ l.foldl (fun s a => s.insert (f a)) s ↔ (∃ a ∈ l, f a = k) ∨ k ∈ s := by
  induction l generalizing s with
  | nil => simp
  | cons a l ih =>
    rw [List.foldl_cons, ih, Std.ExtTreeSet.mem_insert, compare_eq_iff_eq]
    simp only [List.mem_cons, exists_eq_or_imp]
    rw [or_left_comm, or_assoc]

theorem mem_insert_iff {m : OrdMap K V} {k k' : K} {v : V} :
    k' ∈ m.insert k v ↔ k = k' ∨ k' ∈ m := by
  rw [Std.ExtTreeMap.mem_insert, compare_eq_iff_eq]

/-- The last entry has the greatest key. -/
theorem getLast?_toList {m : OrdMap K V} {e : K × V} (h : m.toList.getLast? = some e) :
    e.1 ∈ m ∧ ∀ k ∈ m, k ≤ e.1 := by
  have hfilter : (m.toList.filter fun _ => true).getLast? = some (e.1, e.2) := by
    rw [List.filter_true]
    exact h
  obtain ⟨hmem, -, hmax⟩ := getLast?_filter_toList (p := fun _ => true) hfilter
  refine ⟨Std.ExtTreeMap.mem_iff_isSome_getElem?.2 (by rw [hmem]; rfl), fun k hk => ?_⟩
  obtain ⟨v, hv⟩ := Option.isSome_iff_exists.1 (Std.ExtTreeMap.mem_iff_isSome_getElem?.1 hk)
  exact hmax k v hv rfl

theorem getLast?_toList_eq_none {m : OrdMap K V} (h : m.toList.getLast? = none) : m = ∅ :=
  Std.ExtTreeMap.toList_eq_nil_iff.1 (List.getLast?_eq_none_iff.1 h)

/-- Two strictly increasing lists of entries with the same members are equal. -/
theorem eq_of_sorted_of_mem_iff {l l' : List (K × V)} (hl : l.Pairwise fun a b => a.1 < b.1)
    (hl' : l'.Pairwise fun a b => a.1 < b.1) (h : ∀ e, e ∈ l ↔ e ∈ l') : l = l' := by
  refine List.Perm.eq_of_pairwise (fun a b _ _ (hab : a.1 < b.1) hba => absurd hab (lt_asymm hba))
    hl hl' ?_
  refine (List.perm_ext_iff_of_nodup ?_ ?_).2 h
  · exact hl.imp fun hab heq => (ne_of_lt hab) (congrArg Prod.fst heq)
  · exact hl'.imp fun hab heq => (ne_of_lt hab) (congrArg Prod.fst heq)

/-- From a key on: the entries that satisfy a test on an interval that starts there. -/
theorem takeWhile_filter_toList (m : OrdMap K V) (start : K) (p : K → Bool)
    (hstart : ∀ k, p k = true → start ≤ k)
    (hdown : ∀ k k', start ≤ k → k < k' → p k' = true → p k = true) :
    (m.toList.filter fun e => decide (start ≤ e.1)).takeWhile (fun e => p e.1) =
      m.toList.filter fun e => p e.1 := by
  have hsorted := sorted_keys_toList m
  generalize m.toList = l at hsorted
  induction l with
  | nil => rfl
  | cons e l ih =>
    obtain ⟨hhead, htail⟩ := List.pairwise_cons.1 hsorted
    by_cases hs : start ≤ e.1
    · rw [List.filter_cons_of_pos (by simpa using hs)]
      by_cases hp : p e.1 = true
      · rw [List.takeWhile_cons_of_pos (by simpa using hp), List.filter_cons_of_pos (by simpa using hp),
          ih htail]
      · rw [List.takeWhile_cons_of_neg (by simpa using hp), List.filter_cons_of_neg (by simpa using hp)]
        refine (List.filter_eq_nil_iff.2 fun e' he' hp' => hp ?_).symm
        exact hdown e.1 e'.1 hs (hhead e' he') hp'
    · rw [List.filter_cons_of_neg (by simpa using hs), ih htail,
        List.filter_cons_of_neg (by simpa using fun hp => hs (hstart _ hp))]

/-- The entries under some keys depend on those keys alone. -/
theorem filter_toList_congr {m m' : OrdMap K V} {p : K → Bool}
    (h : ∀ k, p k = true → m[k]? = m'[k]?) :
    (m.toList.filter fun e => p e.1) = m'.toList.filter fun e => p e.1 := by
  refine eq_of_sorted_of_mem_iff ((sorted_keys_toList m).filter _) ((sorted_keys_toList m').filter _)
    fun e => ?_
  rw [List.mem_filter, List.mem_filter, mem_toList, mem_toList]
  constructor
  · rintro ⟨he, hp⟩
    exact ⟨h e.1 hp ▸ he, hp⟩
  · rintro ⟨he, hp⟩
    exact ⟨(h e.1 hp).symm ▸ he, hp⟩

/-- The values of several keys, if all are there. -/
theorem mapM_getElem?_congr {m m' : OrdMap K V} {l : List K} (h : ∀ k ∈ l, m[k]? = m'[k]?) :
    (l.mapM fun k => m[k]?) = l.mapM fun k => m'[k]? := by
  induction l with
  | nil => rfl
  | cons k l ih =>
    rw [List.mapM_cons, List.mapM_cons, h k List.mem_cons_self,
      ih fun k' hk' => h k' (List.mem_cons_of_mem _ hk')]

theorem isSome_of_mapM_getElem? {m : OrdMap K V} {l : List K} {vs : List V}
    (h : (l.mapM fun k => m[k]?) = some vs) : ∀ k ∈ l, (m[k]?).isSome := by
  induction l generalizing vs with
  | nil => exact fun k hk => absurd hk List.not_mem_nil
  | cons k l ih =>
    rw [List.mapM_cons] at h
    obtain ⟨v, hv, h⟩ := Option.bind_eq_some_iff.1 h
    obtain ⟨vs', hvs', -⟩ := Option.bind_eq_some_iff.1 h
    intro k' hk'
    rcases List.mem_cons.1 hk' with rfl | hk'
    · rw [hv]
      rfl
    · exact ih hvs' k' hk'

/-- A map with other values under the same keys, built entry by entry. -/
theorem getElem?_foldl_insert_toList {W : Type} (m : OrdMap K V) (f : K → V → W) (k : K) :
    (m.toList.foldl (fun built e => built.insert e.1 (f e.1 e.2)) (∅ : OrdMap K W))[k]? =
      m[k]?.map (f k) := by
  have hfold : m.toList.foldl (fun built e => built.insert e.1 (f e.1 e.2)) (∅ : OrdMap K W) =
      (m.toList.map fun e => (e.1, f e.1 e.2)).foldl (fun built e => built.insert e.1 e.2) ∅ := by
    rw [List.foldl_map]
  rw [hfold]
  cases hk : m[k]? with
  | none =>
    rw [getElem?_foldl_insert_of_forall_ne, Std.ExtTreeMap.getElem?_empty]
    · rfl
    · intro w hw
      obtain ⟨e, he, heq⟩ := List.mem_map.1 hw
      have hlookup := mem_toList.1 (show (e.1, e.2) ∈ m.toList from he)
      rw [(Prod.mk.inj heq).1, hk] at hlookup
      cases hlookup
  | some v =>
    refine getElem?_foldl_insert _ _ _ _ (List.mem_map.2 ⟨(k, v), mem_toList.2 hk, rfl⟩) ?_
    intro w hw
    obtain ⟨⟨k', v'⟩, he, heq⟩ := List.mem_map.1 hw
    obtain ⟨rfl, rfl⟩ := Prod.mk.inj heq
    have hlookup := mem_toList.1 he
    rw [hk, Option.some.injEq] at hlookup
    rw [hlookup]

/-- An entry of a map built from a list is one of the list. -/
theorem mem_of_getElem?_foldl_insert {l : List (K × V)} {m : OrdMap K V} {k : K} {v : V}
    (h : (l.foldl (fun m p => m.insert p.1 p.2) m)[k]? = some v) :
    (k, v) ∈ l ∨ m[k]? = some v := by
  induction l generalizing m with
  | nil => exact Or.inr h
  | cons p l ih =>
    rcases ih h with hmem | hm
    · exact Or.inl (List.mem_cons_of_mem _ hmem)
    · rw [getElem?_insert_of_key] at hm
      split at hm
      · next heq =>
        cases hm
        rw [← heq]
        exact Or.inl List.mem_cons_self
      · exact Or.inr hm

/-- The entries of two kinds of keys, of which those of the first kind come first. -/
theorem filter_toList_append {m : OrdMap K V} {p q : K → Bool}
    (h : ∀ k k', p k = true → q k' = true → k < k') :
    (m.toList.filter fun e => p e.1 || q e.1) =
      (m.toList.filter fun e => p e.1) ++ m.toList.filter fun e => q e.1 := by
  refine eq_of_sorted_of_mem_iff ((sorted_keys_toList m).filter _) ?_ fun e => ?_
  · refine List.pairwise_append.2 ⟨(sorted_keys_toList m).filter _,
      (sorted_keys_toList m).filter _, fun e he e' he' => ?_⟩
    exact h e.1 e'.1 (List.mem_filter.1 he).2 (List.mem_filter.1 he').2
  · rw [List.mem_append, List.mem_filter, List.mem_filter, List.mem_filter, Bool.or_eq_true,
      and_or_left]

/-- The entries of some keys, as long as a test of the keys holds that fails from some key on. -/
theorem takeWhile_filter_toList_down (m : OrdMap K V) (p q : K → Bool)
    (hdown : ∀ k k', k < k' → p k' = true → p k = true) :
    (m.toList.filter fun e => q e.1).takeWhile (fun e => p e.1) =
      m.toList.filter fun e => q e.1 && p e.1 := by
  have hsorted := sorted_keys_toList m
  generalize m.toList = l at hsorted
  induction l with
  | nil => rfl
  | cons e l ih =>
    obtain ⟨hhead, htail⟩ := List.pairwise_cons.1 hsorted
    by_cases hq : q e.1 = true
    · rw [List.filter_cons_of_pos (by simpa using hq)]
      by_cases hp : p e.1 = true
      · rw [List.takeWhile_cons_of_pos (by simpa using hp), List.filter_cons_of_pos (by simp [hq, hp]), ih htail]
      · rw [List.takeWhile_cons_of_neg (by simpa using hp), List.filter_cons_of_neg (by simp [hp])]
        refine (List.filter_eq_nil_iff.2 fun e' he' hp' => hp ?_).symm
        exact hdown e.1 e'.1 (hhead e' he') (Bool.and_eq_true_iff.1 hp').2
    · rw [List.filter_cons_of_neg (by simpa using hq), List.filter_cons_of_neg (by simp [hq]), ih htail]

end OrdMap
