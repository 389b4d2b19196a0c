import CtaManager.Library.OrdMap

/-!
Sums over two ordered maps.

A sum over the entries is a sum over any finite set of keys that has them all, with zero for
the keys that are absent (`sumOf_eq_sum`); so two maps whose shares agree key by key have the
same sum, whatever their values are and whichever keys they leave out (`sumOf_eq_of_share`).
-/

namespace OrdMap

variable {K V W M : Type} [LinearOrder K] [AddCommMonoid M]

theorem mem_toFinset_keys {m : OrdMap K V} {k : K} :
    k ∈ (m.toList.map Prod.fst).toFinset ↔ ∃ v, m[k]? = some v := by
  rw [List.mem_toFinset, List.mem_map]
  constructor
  · rintro ⟨⟨k', v⟩, hmem, rfl⟩
    exact ⟨v, mem_toList.1 hmem⟩
  · rintro ⟨v, hv⟩
    exact ⟨(k, v), mem_toList.2 hv, rfl⟩

/-- The sum over the entries, key by key. -/
theorem sumOf_eq_sum (g : K → V → M) (m : OrdMap K V) {s : Finset K}
    (hs : (m.toList.map Prod.fst).toFinset ⊆ s) :
    sumOf g m = ∑ k ∈ s, m[k]?.elim 0 (g k) := by
  have habsent : ∀ k ∈ s, k ∉ (m.toList.map Prod.fst).toFinset → m[k]?.elim 0 (g k) = 0 := by
    intro k _ hk
    cases hv : m[k]? with
    | none => rfl
    | some v => exact absurd (mem_toFinset_keys.2 ⟨v, hv⟩) hk
  rw [← Finset.sum_subset hs habsent, List.sum_toFinset _ (nodup_keys_toList m), List.map_map]
  unfold sumOf
  refine congrArg List.sum (List.map_congr_left fun p hp => ?_)
  show g p.1 p.2 = m[p.1]?.elim 0 (g p.1)
  rw [mem_toList.1 (show (p.1, p.2) ∈ m.toList from hp)]
  rfl

/-- A sum is over any keys outside of which there are no shares. -/
theorem sumOf_eq_sum_of_share (g : K → V → M) (m : OrdMap K V) {s : Finset K}
    (hs : ∀ k ∉ s, m[k]?.elim 0 (g k) = 0) : sumOf g m = ∑ k ∈ s, m[k]?.elim 0 (g k) := by
  rw [sumOf_eq_sum g m (Finset.subset_union_left : _ ⊆ _ ∪ s)]
  exact (Finset.sum_subset Finset.subset_union_right fun k _ hk => hs k hk).symm

/-- Maps whose shares agree key by key have the same sum. -/
theorem sumOf_eq_of_share {g : K → V → M} {h : K → W → M} {m : OrdMap K V} {m' : OrdMap K W}
    (hshare : ∀ k, m[k]?.elim 0 (g k) = m'[k]?.elim 0 (h k)) : sumOf g m = sumOf h m' := by
  let keys := (m.toList.map Prod.fst).toFinset
  let keys' := (m'.toList.map Prod.fst).toFinset
  have hleft : keys ⊆ keys ∪ keys' := Finset.subset_union_left
  have hright : keys' ⊆ keys ∪ keys' := Finset.subset_union_right
  rw [sumOf_eq_sum g m hleft, sumOf_eq_sum h m' hright]
  exact Finset.sum_congr rfl fun k _ => hshare k

/-- A map whose shares are at most those of another. -/
theorem sumOf_le_of_share {g : K → V → ℕ} {h : K → W → ℕ} {m : OrdMap K V} {m' : OrdMap K W}
    (hshare : ∀ k, m[k]?.elim 0 (g k) ≤ m'[k]?.elim 0 (h k)) : sumOf g m ≤ sumOf h m' := by
  let keys := (m.toList.map Prod.fst).toFinset
  let keys' := (m'.toList.map Prod.fst).toFinset
  have hleft : keys ⊆ keys ∪ keys' := Finset.subset_union_left
  have hright : keys' ⊆ keys ∪ keys' := Finset.subset_union_right
  rw [sumOf_eq_sum g m hleft, sumOf_eq_sum h m' hright]
  exact Finset.sum_le_sum fun k _ => hshare k

theorem sumOf_one (m : OrdMap K V) : sumOf (fun _ _ => (1 : ℕ)) m = m.size := by
  unfold sumOf
  rw [List.map_const', List.sum_replicate, smul_eq_mul, mul_one, Std.ExtTreeMap.length_toList]

/-- An insertion over what the key had, or over a default without a share. -/
theorem sumOf_insert_getD {G : Type} [AddCommGroup G] (g : K → V → G) (m : OrdMap K V) (k : K)
    (v default : V) (hdefault : g k default = 0) :
    sumOf g (m.insert k v) = sumOf g m - g k (m[k]?.getD default) + g k v := by
  have hinsert := sumOf_insert g m k v
  cases hk : m[k]? with
  | none =>
    rw [hk, Option.elim_none, add_zero] at hinsert
    rw [Option.getD_none, hdefault, sub_zero]
    exact hinsert
  | some old =>
    rw [hk, Option.elim_some] at hinsert
    rw [Option.getD_some, sub_add_eq_add_sub]
    exact eq_sub_of_add_eq hinsert

end OrdMap
