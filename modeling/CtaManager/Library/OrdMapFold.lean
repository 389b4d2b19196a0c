import CtaManager.Library.OrdMap

/-!
Updates filed by key.

Insertions under different keys commute (`insert_comm`).  A loop that updates the value
of each item's key, with a default where the key is absent, runs at each key the updates
of that key's items (`getD_foldl_update`).
-/

namespace OrdMap

variable {K V α : Type} [LinearOrder K]

theorem insert_insert (m : OrdMap K V) (k : K) (v w : V) :
    (m.insert k v).insert k w = m.insert k w := by
  refine Std.ExtTreeMap.ext_getElem? fun k' => ?_
  rw [getElem?_insert_of_key, getElem?_insert_of_key, getElem?_insert_of_key]
  split
  · rfl
  · rfl

theorem insert_comm (m : OrdMap K V) {k k' : K} (h : k ≠ k') (v w : V) :
    (m.insert k v).insert k' w = (m.insert k' w).insert k v := by
  refine Std.ExtTreeMap.ext_getElem? fun k'' => ?_
  rw [getElem?_insert_of_key, getElem?_insert_of_key, getElem?_insert_of_key,
    getElem?_insert_of_key]
  by_cases hk : k = k''
  · subst hk
    rw [if_neg (Ne.symm h), if_pos rfl, if_pos rfl]
  · rw [if_neg hk, if_neg hk]

/-- The entry of a key, found in the list. -/
theorem find?_toList (m : OrdMap K V) (k : K) {f : K × V → Bool}
    (hf : ∀ p, f p = true ↔ p.1 = k) : m.toList.find? f = (m[k]?).map fun v => (k, v) := by
  cases hk : m[k]? with
  | none =>
    refine List.find?_eq_none.2 ?_
    rintro ⟨k', v⟩ hmem heq
    have hkey : k' = k := (hf (k', v)).1 heq
    rw [mem_toList, hkey, hk] at hmem
    cases hmem
  | some v =>
    cases hfind : m.toList.find? f with
    | none =>
      have hmissed := List.find?_eq_none.1 hfind (k, v) (mem_toList.2 hk)
      exact absurd ((hf (k, v)).2 rfl) hmissed
    | some p =>
      have hkey : p.1 = k := (hf p).1 (List.find?_some hfind)
      have hmem := mem_toList.1 (show (p.1, p.2) ∈ m.toList from List.mem_of_find?_eq_some hfind)
      rw [hkey, hk] at hmem
      cases hmem
      exact congrArg some (Prod.ext hkey rfl)

/-- A loop over the entries of a map that inserts something under the keys of some of them. -/
theorem getElem?_foldl_insert_if {W : Type} (m : OrdMap K V) (P : K → V → Prop)
    [∀ k v, Decidable (P k v)] (g : K → V → W) (acc : OrdMap K W) (k : K) :
    (m.toList.foldl (fun acc p => if P p.1 p.2 then acc.insert p.1 (g p.1 p.2) else acc) acc)[k]? =
      ((m[k]?).bind fun v => if P k v then some (g k v) else none).or acc[k]? := by
  have hlist : ∀ (l : List (K × V)) (acc : OrdMap K W), (l.map Prod.fst).Nodup →
      (l.foldl (fun acc p => if P p.1 p.2 then acc.insert p.1 (g p.1 p.2) else acc) acc)[k]? =
        ((l.find? fun p => decide (p.1 = k)).bind fun p =>
          if P p.1 p.2 then some (g p.1 p.2) else none).or acc[k]? := by
    intro l
    induction l with
    | nil => exact fun acc _ => rfl
    | cons p l ih =>
      intro acc hnodup
      rw [List.map_cons, List.nodup_cons] at hnodup
      rw [List.foldl_cons, ih _ hnodup.2]
      by_cases hp : p.1 = k
      · have hrest : l.find? (fun p => decide (p.1 = k)) = none := by
          refine List.find?_eq_none.2 fun q hq hk => hnodup.1 ?_
          rw [hp, ← of_decide_eq_true hk]
          exact List.mem_map_of_mem hq
        rw [hrest, List.find?_cons_of_pos (by simpa using hp)]
        by_cases hP : P p.1 p.2
        · rw [if_pos hP, getElem?_insert_of_key, if_pos hp]
          simp [hP]
        · rw [if_neg hP]
          simp [hP]
      · rw [List.find?_cons_of_neg (by simpa using hp)]
        by_cases hP : P p.1 p.2
        · rw [if_pos hP, getElem?_insert_of_key, if_neg hp]
        · rw [if_neg hP]
  rw [hlist _ _ (nodup_keys_toList m), find?_toList m k fun p => by simp]
  cases m[k]? with
  | none => rfl
  | some v => rfl

/-- `entry(key).or_default()` and an update. -/
def updateAt (key : α → K) (f : V → α → V) (default : V) (m : OrdMap K V) (a : α) : OrdMap K V :=
  m.insert (key a) (f ((m[key a]?).getD default) a)

variable {key : α → K} {f : V → α → V} {default : V}

theorem getD_updateAt (m : OrdMap K V) (a : α) (k : K) :
    ((updateAt key f default m a)[k]?).getD default =
      if key a = k then f ((m[k]?).getD default) a else (m[k]?).getD default := by
  unfold updateAt
  rw [getElem?_insert_of_key]
  split
  · next h =>
    subst h
    rfl
  · rfl

theorem getD_foldl_update (l : List α) (m : OrdMap K V) (k : K) :
    ((l.foldl (updateAt key f default) m)[k]?).getD default =
      (l.filter fun a => decide (key a = k)).foldl f ((m[k]?).getD default) := by
  induction l generalizing m with
  | nil => rfl
  | cons a l ih =>
    rw [List.foldl_cons, ih, getD_updateAt]
    by_cases h : key a = k
    · rw [if_pos h, List.filter_cons_of_pos (by simpa using h), List.foldl_cons]
    · rw [if_neg h, List.filter_cons_of_neg (by simpa using h)]

end OrdMap
