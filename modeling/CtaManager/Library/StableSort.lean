import Mathlib

/-! Stable sorting by a key.

`stableSort key l` lists `l` in nondecreasing key order and keeps elements of
one key in the order they had.  Both facts together determine the result
(`eq_of_sorted_of_filter_eq`), so an identity between two ways of sorting only
needs the two inputs to agree key by key (`stableSort_congr`).  Filtering
commutes with sorting (`filter_stableSort`). -/

namespace StableSort

variable {α κ : Type} [LinearOrder κ]

/-- A stable sort by nondecreasing `key`. -/
def stableSort (key : α → κ) (l : List α) : List α :=
  l.insertionSort (fun a b => key a ≤ key b)

/-- `l` is in nondecreasing key order. -/
def Sorted (key : α → κ) (l : List α) : Prop := l.Pairwise (fun a b => key a ≤ key b)

theorem stableSort_cons (key : α → κ) (a : α) (l : List α) :
    stableSort key (a :: l) = (stableSort key l).orderedInsert (fun a b => key a ≤ key b) a := rfl

theorem perm_stableSort (key : α → κ) (l : List α) : (stableSort key l).Perm l :=
  List.perm_insertionSort _ l

theorem mem_stableSort (key : α → κ) (l : List α) (a : α) : a ∈ stableSort key l ↔ a ∈ l :=
  (perm_stableSort key l).mem_iff

theorem sorted_stableSort (key : α → κ) (l : List α) : Sorted key (stableSort key l) := by
  have : Std.Total (fun a b : α => key a ≤ key b) := ⟨fun a b => le_total (key a) (key b)⟩
  have : IsTrans α (fun a b : α => key a ≤ key b) := ⟨fun _ _ _ h1 h2 => le_trans h1 h2⟩
  exact List.pairwise_insertionSort _ l

theorem filter_orderedInsert (key : α → κ) (p : α → Bool) (a : α) (l : List α)
    (hl : Sorted key l) :
    (l.orderedInsert (fun a b => key a ≤ key b) a).filter p =
      if p a then (l.filter p).orderedInsert (fun a b => key a ≤ key b) a else l.filter p := by
  induction l with
  | nil => by_cases ha : p a <;> simp [ha]
  | cons b l ih =>
    have hbl := List.pairwise_cons.1 hl
    rw [List.orderedInsert_cons]
    by_cases hab : key a ≤ key b
    · rw [if_pos hab]
      by_cases ha : p a
      · simp only [List.filter_cons, ha, if_true]
        by_cases hb : p b
        · simp [hb, hab]
        · -- every kept element stands after `b`, so `a` stays in front
          simp only [hb, Bool.false_eq_true, if_false]
          cases hf : l.filter p with
          | nil => rfl
          | cons c t =>
            have hc : c ∈ l := List.mem_of_mem_filter (by rw [hf]; exact List.mem_cons_self)
            rw [List.orderedInsert_cons, if_pos (le_trans hab (hbl.1 c hc))]
      · simp [List.filter_cons, ha]
    · rw [if_neg hab, List.filter_cons]
      by_cases hb : p b
      · rw [if_pos hb, ih hbl.2, List.filter_cons, if_pos hb]
        by_cases ha : p a
        · simp [ha, hab]
        · simp [ha]
      · rw [if_neg hb, ih hbl.2, List.filter_cons, if_neg hb]

theorem filter_stableSort (key : α → κ) (p : α → Bool) (l : List α) :
    (stableSort key l).filter p = stableSort key (l.filter p) := by
  induction l with
  | nil => rfl
  | cons a l ih =>
    rw [stableSort_cons, filter_orderedInsert key p a _ (sorted_stableSort key l), ih,
      List.filter_cons]
    split
    · rfl
    · rfl

theorem stableSort_of_sorted (key : α → κ) (l : List α) (hl : Sorted key l) :
    stableSort key l = l := by
  induction l with
  | nil => rfl
  | cons a l ih =>
    have hal := List.pairwise_cons.1 hl
    rw [stableSort_cons, ih hal.2]
    cases l with
    | nil => rfl
    | cons b t => rw [List.orderedInsert_cons, if_pos (hal.1 b List.mem_cons_self)]

/-- Elements of one key keep their order. -/
theorem filter_key_stableSort (key : α → κ) (k : κ) (l : List α) :
    (stableSort key l).filter (fun a => key a = k) = l.filter (fun a => key a = k) := by
  rw [filter_stableSort]
  refine stableSort_of_sorted key _ (List.pairwise_iff_forall_sublist.2 fun {a b} hab => ?_)
  have ha : a ∈ l.filter (fun a => key a = k) := hab.subset (by simp)
  have hb : b ∈ l.filter (fun a => key a = k) := hab.subset (by simp)
  simp only [List.mem_filter, decide_eq_true_eq] at ha hb
  rw [ha.2, hb.2]

/-- Two sorted lists that agree key by key are equal. -/
theorem eq_of_sorted_of_filter_eq (key : α → κ) (l₁ l₂ : List α)
    (h₁ : Sorted key l₁) (h₂ : Sorted key l₂)
    (h : ∀ k, l₁.filter (fun a => key a = k) = l₂.filter (fun a => key a = k)) : l₁ = l₂ := by
  induction l₁ generalizing l₂ with
  | nil =>
    cases l₂ with
    | nil => rfl
    | cons b t =>
      have := h (key b)
      simp at this
  | cons a l₁ ih =>
    cases l₂ with
    | nil =>
      have := h (key a)
      simp at this
    | cons b l₂ =>
      have ha := List.pairwise_cons.1 h₁
      have hb := List.pairwise_cons.1 h₂
      have hmem : ∀ c, c ∈ a :: l₁ ↔ c ∈ b :: l₂ := by
        intro c
        have hc := h (key c)
        constructor
        · intro hm
          have : c ∈ (a :: l₁).filter (fun x => key x = key c) := by
            rw [List.mem_filter]; exact ⟨hm, by simp⟩
          rw [hc] at this
          exact (List.mem_filter.1 this).1
        · intro hm
          have : c ∈ (b :: l₂).filter (fun x => key x = key c) := by
            rw [List.mem_filter]; exact ⟨hm, by simp⟩
          rw [← hc] at this
          exact (List.mem_filter.1 this).1
      have hkey : key a = key b := by
        refine le_antisymm ?_ ?_
        · rcases List.mem_cons.1 ((hmem b).2 List.mem_cons_self) with hba | hba
          · rw [hba]
          · exact ha.1 b hba
        · rcases List.mem_cons.1 ((hmem a).1 List.mem_cons_self) with hab | hab
          · rw [hab]
          · exact hb.1 a hab
      have hhead := h (key a)
      simp only [List.filter_cons, hkey, decide_true, if_true, List.cons.injEq] at hhead
      obtain ⟨rfl, -⟩ := hhead
      congr 1
      refine ih l₂ ha.2 hb.2 fun k => ?_
      have hk := h k
      simp only [List.filter_cons] at hk
      split at hk
      · exact (List.cons.injEq _ _ _ _ ▸ hk).2
      · exact hk

theorem stableSort_congr (key : α → κ) (l₁ l₂ : List α)
    (h : ∀ k, l₁.filter (fun a => key a = k) = l₂.filter (fun a => key a = k)) :
    stableSort key l₁ = stableSort key l₂ := by
  refine eq_of_sorted_of_filter_eq key _ _ (sorted_stableSort key l₁) (sorted_stableSort key l₂)
    fun k => ?_
  rw [filter_key_stableSort, filter_key_stableSort, h k]

/-- Sorting either part first changes nothing. -/
theorem stableSort_append_stableSort (key : α → κ) (l₁ l₂ : List α) :
    stableSort key (stableSort key l₁ ++ stableSort key l₂) = stableSort key (l₁ ++ l₂) := by
  refine stableSort_congr key _ _ fun k => ?_
  simp only [List.filter_append, filter_key_stableSort]

theorem sorted_append (key : α → κ) (l₁ l₂ : List α) (h₁ : Sorted key l₁) (h₂ : Sorted key l₂)
    (h : ∀ a ∈ l₁, ∀ b ∈ l₂, key a ≤ key b) : Sorted key (l₁ ++ l₂) :=
  List.pairwise_append.2 ⟨h₁, h₂, h⟩

/-- Parts that are already apart are sorted apart. -/
theorem stableSort_append_of_le (key : α → κ) (l₁ l₂ : List α)
    (h : ∀ a ∈ l₁, ∀ b ∈ l₂, key a ≤ key b) :
    stableSort key (l₁ ++ l₂) = stableSort key l₁ ++ stableSort key l₂ := by
  rw [← stableSort_append_stableSort]
  refine stableSort_of_sorted key _ (sorted_append key _ _ (sorted_stableSort key l₁)
    (sorted_stableSort key l₂) fun a ha b hb => ?_)
  rw [mem_stableSort] at ha hb
  exact h a ha b hb

/-- Sorting commutes with a map that keeps the key. -/
theorem map_stableSort {β : Type} (key : α → κ) (key' : β → κ) (f : α → β)
    (hf : ∀ a, key' (f a) = key a) (l : List α) :
    (stableSort key l).map f = stableSort key' (l.map f) := by
  refine eq_of_sorted_of_filter_eq key' _ _ ?_ (sorted_stableSort key' _) fun k => ?_
  · exact (List.pairwise_map).2 ((sorted_stableSort key l).imp fun h => by rw [hf, hf]; exact h)
  · rw [filter_key_stableSort, List.filter_map, List.filter_map]
    have hcomp : ((fun b => decide (key' b = k)) ∘ f) = fun a => decide (key a = k) := by
      funext a
      simp [hf]
    rw [hcomp, filter_key_stableSort]

theorem filter_key_filterMap {β : Type} (key : α → κ) (key' : β → κ) (f : α → Option β)
    (hf : ∀ a b, f a = some b → key' b = key a) (k : κ) (l : List α) :
    (l.filterMap f).filter (fun b => key' b = k) =
      (l.filter (fun a => key a = k)).filterMap f := by
  induction l with
  | nil => rfl
  | cons a l ih =>
    cases hfa : f a with
    | none =>
      rw [List.filterMap_cons_none hfa, ih, List.filter_cons]
      split
      · rw [List.filterMap_cons_none hfa]
      · rfl
    | some b =>
      rw [List.filterMap_cons_some hfa, List.filter_cons, List.filter_cons, hf a b hfa, ih]
      split
      · rw [List.filterMap_cons_some hfa]
      · rfl

/-- Sorting commutes with a partial map that keeps the key. -/
theorem filterMap_stableSort {β : Type} (key : α → κ) (key' : β → κ) (f : α → Option β)
    (hf : ∀ a b, f a = some b → key' b = key a) (l : List α) :
    (stableSort key l).filterMap f = stableSort key' (l.filterMap f) := by
  refine eq_of_sorted_of_filter_eq key' _ _ ?_ (sorted_stableSort key' _) fun k => ?_
  · refine (sorted_stableSort key l).filterMap f fun a a' haa b hb b' hb' => ?_
    rw [hf a b hb, hf a' b' hb']
    exact haa
  · rw [filter_key_stableSort, filter_key_filterMap key key' f hf,
      filter_key_filterMap key key' f hf, filter_key_stableSort]

/-- Sorting by a coarser key first changes nothing. -/
theorem stableSort_stableSort {κ' : Type} [LinearOrder κ'] (key : α → κ) (coarse : α → κ')
    (h : ∀ a b, key a = key b → coarse a = coarse b) (l : List α) :
    stableSort key (stableSort coarse l) = stableSort key l := by
  refine stableSort_congr key _ _ fun k => ?_
  rcases hl : l.filter (fun a => key a = k) with _ | ⟨a, t⟩
  · rw [List.filter_eq_nil_iff] at hl ⊢
    intro b hb
    exact hl b ((mem_stableSort coarse l b).1 hb)
  · -- all elements of key `k` share one coarse key
    have ha : key a = k := by
      have : a ∈ l.filter (fun a => key a = k) := by simp [hl]
      simpa using (List.mem_filter.1 this).2
    have hsub : ∀ b, decide (key b = k) = (decide (key b = k) && decide (coarse b = coarse a)) := by
      intro b
      by_cases hb : key b = k
      · simp [hb, h b a (hb.trans ha.symm)]
      · simp [hb]
    have hfilter : ∀ m : List α, m.filter (fun b => key b = k) =
        (m.filter (fun b => coarse b = coarse a)).filter (fun b => key b = k) := by
      intro m
      rw [List.filter_filter]
      exact List.filter_congr fun b _ => hsub b
    rw [hfilter, filter_key_stableSort, ← hfilter, hl]

end StableSort
