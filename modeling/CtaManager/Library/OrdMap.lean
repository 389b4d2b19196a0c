import Mathlib

/-! Ordered maps and the sums over their entries.

`OrdMap K V` is the extensional tree map of the standard library at the order
of `K`: two maps with the same lookups are equal, and `toList` lists the
entries in increasing key order.  Two things are added to it:

* `upsert m k f`: one entry updated from its old value (or from its absence).
* `sumOf g m`: the sum of `g` over the entries, and what an insertion does to
  it (`sumOf_insert`).

`accumulate` folds a list of keyed amounts into a map of totals; a total is
the sum of the amounts filed under its key (`getD_accumulate`). -/

/-- The comparison of a linear order is transitive. -/
instance transCmp_compare {K : Type} [LinearOrder K] : Std.TransCmp (compare : K → K → Ordering) :=
  inferInstance

abbrev OrdMap (K V : Type) [LinearOrder K] := Std.ExtTreeMap K V compare

abbrev OrdSet (K : Type) [LinearOrder K] := Std.ExtTreeSet K compare

namespace OrdMap

variable {K V : Type} [LinearOrder K]

/-- The entry of `k` becomes `f` of its old value; `none` when there was none. -/
def upsert (m : OrdMap K V) (k : K) (f : Option V → V) : OrdMap K V :=
  m.insert k (f m[k]?)

theorem getElem?_insert_of_key (m : OrdMap K V) (k k' : K) (v : V) :
    (m.insert k v)[k']? = if k = k' then some v else m[k']? := by
  rw [Std.ExtTreeMap.getElem?_insert]
  simp only [Std.compare_eq_iff_eq]

@[simp] theorem getElem?_upsert (m : OrdMap K V) (k k' : K) (f : Option V → V) :
    (m.upsert k f)[k']? = if k = k' then some (f m[k]?) else m[k']? :=
  getElem?_insert_of_key m k k' _

/-- The entries of a list, inserted one after the other: all entries of `k` say `v`. -/
theorem getElem?_foldl_insert (l : List (K × V)) (m : OrdMap K V) (k : K) (v : V)
    (hmem : (k, v) ∈ l) (hall : ∀ v', (k, v') ∈ l → v' = v) :
    (l.foldl (fun m p => m.insert p.1 p.2) m)[k]? = some v := by
  induction l using List.reverseRecOn generalizing m with
  | nil => exact absurd hmem List.not_mem_nil
  | append_singleton l p ih =>
    obtain ⟨k', v'⟩ := p
    rw [List.foldl_append, List.foldl_cons, List.foldl_nil, getElem?_insert_of_key]
    by_cases hk : k' = k
    · subst hk
      rw [if_pos rfl, hall v' (List.mem_append_right _ (List.mem_singleton_self _))]
    · rw [if_neg hk]
      refine ih m ?_ fun w hw => hall w (List.mem_append_left _ hw)
      rcases List.mem_append.1 hmem with h | h
      · exact h
      · rw [List.mem_singleton, Prod.mk.injEq] at h
        exact absurd h.1.symm hk

theorem getElem?_foldl_insert_of_forall_ne (l : List (K × V)) (m : OrdMap K V) (k : K)
    (hall : ∀ v, (k, v) ∉ l) : (l.foldl (fun m p => m.insert p.1 p.2) m)[k]? = m[k]? := by
  induction l generalizing m with
  | nil => rfl
  | cons p l ih =>
    rw [List.foldl_cons, ih _ fun v hv => hall v (List.mem_cons_of_mem _ hv),
      getElem?_insert_of_key, if_neg]
    rintro rfl
    exact hall p.2 List.mem_cons_self

/-- Updates of other keys. -/
theorem getElem?_foldl_upsert_of_forall_ne {α : Type} (key : α → K) (f : α → Option V → V)
    (l : List α) (m : OrdMap K V) (k : K) (h : ∀ a ∈ l, key a ≠ k) :
    (l.foldl (fun m a => upsert m (key a) (f a)) m)[k]? = m[k]? := by
  induction l generalizing m with
  | nil => rfl
  | cons a l ih =>
    rw [List.foldl_cons, ih _ fun b hb => h b (List.mem_cons_of_mem _ hb), getElem?_upsert,
      if_neg (h a List.mem_cons_self)]

theorem mem_toList {m : OrdMap K V} {k : K} {v : V} :
    (k, v) ∈ m.toList ↔ m[k]? = some v :=
  Std.ExtTreeMap.mem_toList_iff_getElem?_eq_some

theorem nodup_toList (m : OrdMap K V) : m.toList.Nodup := by
  have h := Std.ExtTreeMap.distinct_keys_toList (t := m)
  refine h.imp fun {a b} hab heq => ?_
  rw [heq] at hab
  exact hab (Std.compare_eq_iff_eq.2 rfl)

theorem nodup_keys_toList (m : OrdMap K V) : (m.toList.map Prod.fst).Nodup := by
  have h := Std.ExtTreeMap.distinct_keys_toList (t := m)
  refine List.pairwise_map.2 (h.imp fun {a b} hab heq => ?_)
  rw [heq] at hab
  exact hab (Std.compare_eq_iff_eq.2 rfl)

theorem sorted_keys_toList (m : OrdMap K V) :
    m.toList.Pairwise (fun a b => a.1 < b.1) := by
  have h := Std.ExtTreeMap.ordered_keys_toList (t := m)
  exact h.imp fun {a b} hab => compare_lt_iff_lt.1 hab

/-- The entries after an insertion: the new one, and the old ones under other keys. -/
theorem toList_insert_perm (m : OrdMap K V) (k : K) (v : V) :
    (m.insert k v).toList.Perm ((k, v) :: m.toList.filter (fun p => p.1 ≠ k)) := by
  rw [List.perm_ext_iff_of_nodup (nodup_toList _)]
  · rintro ⟨k', v'⟩
    rw [mem_toList, getElem?_insert_of_key, List.mem_cons, List.mem_filter, mem_toList]
    by_cases hk : k = k'
    · subst hk
      simp [eq_comm]
    · have hk' : k' ≠ k := fun h => hk h.symm
      simp [hk, hk']
  · refine List.nodup_cons.2 ⟨?_, (nodup_toList m).filter _⟩
    simp

section Sum

variable {M : Type} [AddCommMonoid M]

/-- The sum of `g` over the entries. -/
def sumOf (g : K → V → M) (m : OrdMap K V) : M :=
  (m.toList.map fun p => g p.1 p.2).sum

@[simp] theorem sumOf_empty (g : K → V → M) : sumOf g (∅ : OrdMap K V) = 0 := by
  have h : (∅ : OrdMap K V).toList = [] := Std.ExtTreeMap.toList_eq_nil_iff.2 rfl
  simp [sumOf, h]

theorem sumOf_congr {g h : K → V → M} {m : OrdMap K V}
    (hgh : ∀ k v, m[k]? = some v → g k v = h k v) : sumOf g m = sumOf h m := by
  unfold sumOf
  congr 1
  refine List.map_congr_left ?_
  rintro ⟨k, v⟩ hkv
  exact hgh k v (mem_toList.1 hkv)

theorem sumOf_add (g h : K → V → M) (m : OrdMap K V) :
    sumOf (fun k v => g k v + h k v) m = sumOf g m + sumOf h m := by
  unfold sumOf
  exact List.sum_map_add

theorem sumOf_eq_zero {g : K → V → M} {m : OrdMap K V}
    (hg : ∀ k v, m[k]? = some v → g k v = 0) : sumOf g m = 0 := by
  rw [sumOf_congr (h := fun _ _ => 0) hg]
  simp [sumOf]

theorem sumOf_split (g : K → V → M) (m : OrdMap K V) (k : K) :
    sumOf g m = m[k]?.elim 0 (g k) +
      ((m.toList.filter (fun p => p.1 ≠ k)).map fun p => g p.1 p.2).sum := by
  cases hk : m[k]? with
  | none =>
    have hf : m.toList.filter (fun p => p.1 ≠ k) = m.toList := by
      rw [List.filter_eq_self]
      rintro ⟨k', v'⟩ hm
      have hv := mem_toList.1 hm
      have hne : k' ≠ k := by
        rintro rfl
        rw [hk] at hv
        cases hv
      simpa using hne
    rw [hf]
    simp [sumOf]
  | some v =>
    have hperm : m.toList.Perm ((k, v) :: m.toList.filter (fun p => p.1 ≠ k)) := by
      have hins : m.insert k v = m := by
        refine Std.ExtTreeMap.ext_getElem? fun k' => ?_
        rw [getElem?_insert_of_key]
        split
        · next h => rw [← h, hk]
        · rfl
      have := toList_insert_perm m k v
      rwa [hins] at this
    unfold sumOf
    rw [(hperm.map _).sum_eq]
    simp

/-- The share of one key. -/
theorem sumOf_single (g : V → M) (m : OrdMap K V) (k : K) :
    sumOf (fun k' v => if k' = k then g v else 0) m = m[k]?.elim 0 g := by
  rw [sumOf_split _ m k]
  have hrest : ((m.toList.filter fun p => p.1 ≠ k).map fun p =>
      if p.1 = k then g p.2 else 0).sum = 0 := by
    refine List.sum_eq_zero fun x hx => ?_
    obtain ⟨p, hp, rfl⟩ := List.mem_map.1 hx
    have hne : p.1 ≠ k := by simpa using (List.mem_filter.1 hp).2
    rw [if_neg hne]
  rw [hrest, add_zero]
  cases m[k]? with
  | none => rfl
  | some v => simp

/-- An insertion replaces the share of its key and keeps the others. -/
theorem sumOf_insert (g : K → V → M) (m : OrdMap K V) (k : K) (v : V) :
    sumOf g (m.insert k v) + m[k]?.elim 0 (g k) = sumOf g m + g k v := by
  rw [sumOf_split g m k]
  unfold sumOf
  rw [((toList_insert_perm m k v).map _).sum_eq]
  simp only [List.map_cons, List.sum_cons]
  rw [add_comm (g k v), add_assoc, add_comm (g k v), ← add_assoc, add_comm _ (m[k]?.elim 0 (g k))]

theorem sumOf_insert_new (g : K → V → M) (m : OrdMap K V) (k : K) (v : V) (hk : m[k]? = none) :
    sumOf g (m.insert k v) = sumOf g m + g k v := by
  have := sumOf_insert g m k v
  simpa [hk] using this

/-- Totals filed by key: each amount is added to the total of its key. -/
def accumulate {α : Type} (key : α → K) (amount : α → M) (l : List α) (m : OrdMap K M) :
    OrdMap K M :=
  l.foldl (fun m a => m.upsert (key a) fun o => o.getD 0 + amount a) m

theorem accumulate_cons {α : Type} (key : α → K) (amount : α → M) (a : α) (l : List α)
    (m : OrdMap K M) : accumulate key amount (a :: l) m =
      accumulate key amount l (m.upsert (key a) fun o => o.getD 0 + amount a) := rfl

/-- The total of a key is what was filed under it. -/
theorem getD_accumulate {α : Type} (key : α → K) (amount : α → M) (l : List α) (m : OrdMap K M)
    (k : K) [DecidablePred fun a => key a = k] :
    (accumulate key amount l m)[k]?.getD 0 =
      m[k]?.getD 0 + (l.map fun a => if key a = k then amount a else 0).sum := by
  induction l generalizing m with
  | nil => simp [accumulate]
  | cons a l ih =>
    rw [accumulate_cons, ih, getElem?_upsert, List.map_cons, List.sum_cons]
    by_cases ha : key a = k
    · have hm : m[key a]? = m[k]? := by rw [ha]
      rw [if_pos ha, if_pos ha, hm, Option.getD_some, add_assoc]
    · rw [if_neg ha, if_neg ha, zero_add]

end Sum

/-! ## Sets -/

/-- The part of a set that is in a smaller one, in order. -/
theorem toList_filter_contains {s t : OrdSet K} (h : ∀ k ∈ t, k ∈ s) :
    s.toList.filter (fun k => t.contains k) = t.toList := by
  have hsorted : ∀ u : OrdSet K, u.toList.Pairwise fun a b => a < b := fun u =>
    Std.ExtTreeSet.ordered_toList.imp fun hab => compare_lt_iff_lt.1 hab
  have hmem : ∀ k, k ∈ s.toList.filter (fun k => t.contains k) ↔ k ∈ t.toList := by
    intro k
    rw [List.mem_filter, Std.ExtTreeSet.mem_toList, Std.ExtTreeSet.mem_toList,
      Std.ExtTreeSet.contains_iff_mem]
    exact ⟨fun hk => hk.2, fun hk => ⟨h k hk, hk⟩⟩
  refine List.Perm.eq_of_pairwise (fun a b _ _ hab hba => absurd hab (lt_asymm hba))
    ((hsorted s).filter _) (hsorted t) ?_
  refine (List.perm_ext_iff_of_nodup ?_ ?_).2 hmem
  · exact ((hsorted s).filter _).imp fun hab => ne_of_lt hab
  · exact (hsorted t).imp fun hab => ne_of_lt hab

end OrdMap
