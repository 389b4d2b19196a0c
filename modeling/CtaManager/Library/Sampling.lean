import Mathlib
import CtaManager.Library.StableSort

/-!
Sampling a curve by its extremes.

The points of a curve stand in strictly increasing order of `key`.  A sample keeps the
first and the last point, and of each bucket of the points between them the first least
and the last greatest point of every series (`bucketExtrema`).  It is a part of the curve
in the same order (`sample_sublist`), and every series still reaches its least and its
greatest value (`sample_least`, `sample_greatest`).  With one bucket the sample is as long
as there are such points (`length_sample_one`); with more, the bucket count bounds it
(`length_sample_le`).
-/

namespace Sampling

open StableSort

variable {α F κ : Type}

/-! ## Picking one element -/

/-- One pass over a list: an element that is better than the best one so far replaces it. -/
def pick (better : α → α → Bool) : List α → Option α
  | [] => none
  | p :: rest => some (rest.foldl (fun best p => if better p best then p else best) p)

/-- `r` is better than what stands before it, and nothing behind it is better. -/
def Best (better : α → α → Bool) (l : List α) (r : α) : Prop :=
  ∃ before after, l = before ++ r :: after ∧ (∀ q ∈ before, better r q = true) ∧
    ∀ q ∈ after, better q r = false

/-- An element better than `r` is better than what is worse than `r`. -/
def Ranked (better : α → α → Bool) (l : List α) : Prop :=
  ∀ x ∈ l, ∀ r ∈ l, ∀ q ∈ l, better x r = true → (better r q = true ∨ better q r = false) →
    better x q = true

theorem Ranked.of_subset {better : α → α → Bool} {l l' : List α} (h : Ranked better l)
    (hsub : l' ⊆ l) : Ranked better l' :=
  fun x hx r hr q hq => h x (hsub hx) r (hsub hr) q (hsub hq)

/-- What one more element does. -/
theorem Best.concat {better : α → α → Bool} {l : List α} {r x : α} (h : Best better l r)
    (hranked : Ranked better (l ++ [x])) :
    Best better (l ++ [x]) (if better x r then x else r) := by
  obtain ⟨before, after, rfl, hbefore, hafter⟩ := h
  by_cases hx : better x r = true
  · rw [if_pos hx]
    refine ⟨before ++ r :: after, [], rfl, fun q hq => ?_, fun q hq => absurd hq List.not_mem_nil⟩
    have hmem : q ∈ before ++ r :: after ++ [x] := List.mem_append_left _ hq
    rcases List.mem_append.1 hq with hq | hq
    · exact hranked x (by simp) r (by simp) q hmem hx (Or.inl (hbefore q hq))
    · rcases List.mem_cons.1 hq with rfl | hq
      · exact hx
      · exact hranked x (by simp) r (by simp) q hmem hx (Or.inr (hafter q hq))
  · rw [if_neg hx]
    refine ⟨before, after ++ [x], by simp, hbefore, fun q hq => ?_⟩
    rcases List.mem_append.1 hq with hq | hq
    · exact hafter q hq
    · rw [List.mem_singleton.1 hq]
      exact Bool.eq_false_iff.2 hx

theorem best_foldl {better : α → α → Bool} (p : α) (rest : List α)
    (hranked : Ranked better (p :: rest)) :
    Best better (p :: rest) (rest.foldl (fun best p => if better p best then p else best) p) := by
  induction rest using List.reverseRecOn with
  | nil =>
    exact ⟨[], [], rfl, fun q hq => absurd hq List.not_mem_nil,
      fun q hq => absurd hq List.not_mem_nil⟩
  | append_singleton rest x ih =>
    rw [List.foldl_append]
    have hsub : p :: rest ⊆ p :: (rest ++ [x]) := by
      rw [← List.cons_append]
      exact List.subset_append_left _ _
    exact (ih (hranked.of_subset hsub)).concat hranked

theorem pick_best {better : α → α → Bool} {l : List α} (hranked : Ranked better l) {r : α}
    (h : pick better l = some r) : Best better l r := by
  cases l with
  | nil => cases h
  | cons p rest =>
    obtain rfl := Option.some.inj h
    exact best_foldl p rest hranked

/-- A pass over elements picks one of them, whatever the comparison. -/
theorem pick_mem {better : α → α → Bool} {l : List α} {r : α} (h : pick better l = some r) :
    r ∈ l := by
  cases l with
  | nil => cases h
  | cons p rest =>
    obtain rfl := Option.some.inj h
    induction rest using List.reverseRecOn with
    | nil => exact List.mem_singleton_self p
    | append_singleton rest x ih =>
      rw [List.foldl_append, ← List.cons_append, List.mem_append]
      show (if better x _ then x else _) ∈ _ ∨ (if better x _ then x else _) ∈ _
      split
      · exact Or.inr (List.mem_singleton_self x)
      · exact Or.inl (ih rfl)

theorem pick_isSome (better : α → α → Bool) {l : List α} (h : l ≠ []) :
    ∃ r, pick better l = some r := by
  cases l with
  | nil => exact absurd rfl h
  | cons p rest => exact ⟨_, rfl⟩

/-! ## The first least and the last greatest -/

section

variable [LT F] [DecidableLT F]

def minBy (value : α → F) (l : List α) : Option α :=
  pick (fun p least => decide (value p < value least)) l

def maxBy (value : α → F) (l : List α) : Option α :=
  pick (fun p greatest => !decide (value p < value greatest)) l

/-- The values of a series can be compared with each other. -/
structure Comparable (value : α → F) (l : List α) : Prop where
  asymm : ∀ p ∈ l, ∀ q ∈ l, value p < value q → ¬ value q < value p
  le_trans : ∀ p ∈ l, ∀ q ∈ l, ∀ r ∈ l,
    ¬ value q < value p → ¬ value r < value q → ¬ value r < value p

variable [LT κ] {key : α → κ} {value : α → F} {l : List α}

def FirstLeast (key : α → κ) (value : α → F) (l : List α) (p : α) : Prop :=
  ∀ q ∈ l, ¬ value q < value p ∧ (key q < key p → value p < value q)

def LastGreatest (key : α → κ) (value : α → F) (l : List α) (p : α) : Prop :=
  ∀ q ∈ l, ¬ value p < value q ∧ (key p < key q → value q < value p)

instance [DecidableLT κ] (p : α) : Decidable (FirstLeast key value l p) :=
  inferInstanceAs (Decidable (∀ q ∈ l, ¬ value q < value p ∧ (key q < key p → value p < value q)))

instance [DecidableLT κ] (p : α) : Decidable (LastGreatest key value l p) :=
  inferInstanceAs (Decidable (∀ q ∈ l, ¬ value p < value q ∧ (key p < key q → value q < value p)))

omit [LT κ] [DecidableLT F] in
theorem Comparable.of_subset {l' : List α} (h : Comparable value l) (hsub : l' ⊆ l) :
    Comparable value l' where
  asymm p hp q hq := h.asymm p (hsub hp) q (hsub hq)
  le_trans p hp q hq r hr := h.le_trans p (hsub hp) q (hsub hq) r (hsub hr)

omit [LT κ] in
theorem Comparable.ranked_least (h : Comparable value l) :
    Ranked (fun p least => decide (value p < value least)) l := by
  intro x hx r hr q hq hxr hrq
  simp only [decide_eq_true_eq, decide_eq_false_iff_not] at hxr hrq ⊢
  by_contra hxq
  have hle : ¬ value q < value r := by
    rcases hrq with hrq | hrq
    · exact h.asymm r hr q hq hrq
    · exact hrq
  exact h.le_trans r hr q hq x hx hle hxq hxr

omit [LT κ] in
theorem Comparable.ranked_greatest (h : Comparable value l) :
    Ranked (fun p greatest => !decide (value p < value greatest)) l := by
  intro x hx r hr q hq hxr hrq
  simp only [Bool.not_eq_true', Bool.not_eq_false', decide_eq_true_eq,
    decide_eq_false_iff_not] at hxr hrq ⊢
  have hle : ¬ value r < value q := by
    rcases hrq with hrq | hrq
    · exact hrq
    · exact h.asymm q hq r hr hrq
  exact h.le_trans q hq r hr x hx hle hxr

end

section

variable [LT F] [DecidableLT F] [LinearOrder κ] {key : α → κ} {value : α → F} {l : List α}

/-- The list is a curve: strictly increasing in `key`. -/
def Increasing (key : α → κ) (l : List α) : Prop := l.Pairwise fun p q => key p < key q

omit [LT F] [DecidableLT F] in
theorem Increasing.sides {before after : List α} {r : α}
    (h : Increasing key (before ++ r :: after)) :
    (∀ q ∈ before, key q < key r) ∧ ∀ q ∈ after, key r < key q := by
  obtain ⟨-, hafter, hcross⟩ := List.pairwise_append.1 h
  exact ⟨fun q hq => hcross q hq r List.mem_cons_self, (List.pairwise_cons.1 hafter).1⟩

omit [LT F] [DecidableLT F] in
theorem Increasing.eq_of_key (h : Increasing key l) {p q : α} (hp : p ∈ l) (hq : q ∈ l)
    (hkey : key p = key q) : p = q := by
  have hnodup : (l.map key).Nodup := List.pairwise_map.2 (h.imp fun hlt => hlt.ne)
  exact List.inj_on_of_nodup_map hnodup hp hq hkey

/-- Two curves with the same points are one. -/
theorem Increasing.eq_of_mem_iff {l' : List α} (h : Increasing key l) (h' : Increasing key l')
    (hmem : ∀ p, p ∈ l ↔ p ∈ l') : l = l' := by
  have : Std.Irrefl fun p q : α => key p < key q := ⟨fun p => lt_irrefl (key p)⟩
  have : Std.Antisymm fun p q : α => key p < key q :=
    ⟨fun p q hpq hqp => absurd hpq hqp.not_gt⟩
  exact List.Pairwise.eq_of_mem_iff h h' hmem

/-- Points of a curve in its order are a part of it. -/
theorem Increasing.sublist {l' : List α} (h' : Increasing key l') (h : Increasing key l)
    (hsub : l' ⊆ l) : l'.Sublist l := by
  have : Std.Antisymm fun p q : α => key p < key q :=
    ⟨fun p q hpq hqp => absurd hpq hqp.not_gt⟩
  have hnodup : l'.Nodup := h'.imp fun hlt heq => hlt.ne (congrArg key heq)
  exact List.sublist_of_subperm_of_pairwise (List.subperm_of_subset hnodup hsub) h' h

theorem firstLeast_of_minBy (hl : Increasing key l) (hvalue : Comparable value l) {p : α}
    (h : minBy value l = some p) : FirstLeast key value l p := by
  obtain ⟨before, after, rfl, hbefore, hafter⟩ := pick_best hvalue.ranked_least h
  obtain ⟨hless, hmore⟩ := hl.sides
  have hp : p ∈ before ++ p :: after := by simp
  intro q hq
  rcases List.mem_append.1 hq with hmem | hmem
  · have hlt : value p < value q := of_decide_eq_true (hbefore q hmem)
    exact ⟨hvalue.asymm p hp q hq hlt, fun _ => hlt⟩
  · rcases List.mem_cons.1 hmem with rfl | hmem
    · exact ⟨fun hlt => hvalue.asymm q hq q hq hlt hlt, fun hlt => absurd hlt (lt_irrefl _)⟩
    · exact ⟨of_decide_eq_false (hafter q hmem), fun hlt => absurd hlt (hmore q hmem).not_gt⟩

theorem lastGreatest_of_maxBy (hl : Increasing key l) (hvalue : Comparable value l) {p : α}
    (h : maxBy value l = some p) : LastGreatest key value l p := by
  obtain ⟨before, after, rfl, hbefore, hafter⟩ := pick_best hvalue.ranked_greatest h
  obtain ⟨hless, hmore⟩ := hl.sides
  have hp : p ∈ before ++ p :: after := by simp
  intro q hq
  rcases List.mem_append.1 hq with hmem | hmem
  · have hle : ¬ value p < value q := by simpa using hbefore q hmem
    exact ⟨hle, fun hlt => absurd hlt (hless q hmem).not_gt⟩
  · rcases List.mem_cons.1 hmem with rfl | hmem
    · exact ⟨fun hlt => hvalue.asymm q hq q hq hlt hlt, fun hlt => absurd hlt (lt_irrefl _)⟩
    · have hlt : value q < value p := by simpa using hafter q hmem
      exact ⟨hvalue.asymm q hq p hp hlt, fun _ => hlt⟩

omit [DecidableLT F] in
theorem FirstLeast.unique (hl : Increasing key l) {p q : α} (hp : p ∈ l) (hq : q ∈ l)
    (hpl : FirstLeast key value l p) (hql : FirstLeast key value l q) : p = q := by
  by_contra hne
  have hkey : key p ≠ key q := fun heq => hne (hl.eq_of_key hp hq heq)
  rcases lt_or_gt_of_ne hkey with hlt | hlt
  · exact (hpl q hq).1 ((hql p hp).2 hlt)
  · exact (hql p hp).1 ((hpl q hq).2 hlt)

omit [DecidableLT F] in
theorem LastGreatest.unique (hl : Increasing key l) {p q : α} (hp : p ∈ l) (hq : q ∈ l)
    (hpl : LastGreatest key value l p) (hql : LastGreatest key value l q) : p = q := by
  by_contra hne
  have hkey : key p ≠ key q := fun heq => hne (hl.eq_of_key hp hq heq)
  rcases lt_or_gt_of_ne hkey with hlt | hlt
  · exact (hql p hp).1 ((hpl q hq).2 hlt)
  · exact (hpl q hq).1 ((hql p hp).2 hlt)

theorem minBy_eq_some_iff (hl : Increasing key l) (hvalue : Comparable value l) (p : α) :
    minBy value l = some p ↔ p ∈ l ∧ FirstLeast key value l p := by
  constructor
  · intro h
    exact ⟨pick_mem h, firstLeast_of_minBy hl hvalue h⟩
  · rintro ⟨hp, hleast⟩
    obtain ⟨q, hq⟩ : ∃ q, minBy value l = some q := pick_isSome _ (List.ne_nil_of_mem hp)
    rw [hleast.unique hl hp (pick_mem hq) (firstLeast_of_minBy hl hvalue hq)]
    exact hq

theorem maxBy_eq_some_iff (hl : Increasing key l) (hvalue : Comparable value l) (p : α) :
    maxBy value l = some p ↔ p ∈ l ∧ LastGreatest key value l p := by
  constructor
  · intro h
    exact ⟨pick_mem h, lastGreatest_of_maxBy hl hvalue h⟩
  · rintro ⟨hp, hgreatest⟩
    obtain ⟨q, hq⟩ : ∃ q, maxBy value l = some q := pick_isSome _ (List.ne_nil_of_mem hp)
    rw [hgreatest.unique hl hp (pick_mem hq) (lastGreatest_of_maxBy hl hvalue hq)]
    exact hq

/-! ## The points of a bucket -/

/-- Of neighbours with one key the first stays. -/
def dedupBy (key : α → κ) : List α → List α
  | [] => []
  | p :: rest =>
    match dedupBy key rest with
    | [] => [p]
    | next :: kept => if key next = key p then p :: kept else p :: next :: kept

def extremes (selectors : List (α → F)) (bucket : List α) : List α :=
  selectors.flatMap fun value => (minBy value bucket).toList ++ (maxBy value bucket).toList

def bucketExtrema (key : α → κ) (selectors : List (α → F)) (bucket : List α) : List α :=
  dedupBy key (stableSort key (extremes selectors bucket))

/-- The first least and the last greatest points of the series. -/
def turningPoints (key : α → κ) (selectors : List (α → F)) (l : List α) : List α :=
  l.filter fun p =>
    decide (∃ value ∈ selectors, FirstLeast key value l p ∨ LastGreatest key value l p)

omit [LT F] [DecidableLT F] in
theorem dedupBy_cons (p : α) (rest : List α) (key : α → κ) :
    ∃ kept, dedupBy key (p :: rest) = p :: kept ∧
      (dedupBy key rest = kept ∨ ∃ next, dedupBy key rest = next :: kept ∧ key next = key p) := by
  cases hrest : dedupBy key rest with
  | nil => exact ⟨[], by rw [dedupBy, hrest], Or.inl rfl⟩
  | cons next kept =>
    rw [dedupBy, hrest]
    by_cases hkey : key next = key p
    · exact ⟨kept, if_pos hkey, Or.inr ⟨next, rfl, hkey⟩⟩
    · exact ⟨next :: kept, if_neg hkey, Or.inl rfl⟩

omit [LT F] [DecidableLT F] in
theorem dedupBy_subset (key : α → κ) (l : List α) : dedupBy key l ⊆ l := by
  induction l with
  | nil => exact List.Subset.refl []
  | cons p rest ih =>
    obtain ⟨kept, heq, hrest⟩ := dedupBy_cons p rest key
    rw [heq, List.cons_subset]
    refine ⟨List.mem_cons_self, fun q hq => List.mem_cons_of_mem _ (ih ?_)⟩
    rcases hrest with h | ⟨next, h, -⟩
    · rw [h]
      exact hq
    · rw [h]
      exact List.mem_cons_of_mem _ hq

omit [LT F] [DecidableLT F] in
theorem mem_dedupBy_key (key : α → κ) (l : List α) (k : κ) :
    (∃ p ∈ dedupBy key l, key p = k) ↔ ∃ p ∈ l, key p = k := by
  induction l with
  | nil => exact Iff.rfl
  | cons p rest ih =>
    obtain ⟨kept, heq, hrest⟩ := dedupBy_cons p rest key
    rw [heq, List.exists_mem_cons_iff, List.exists_mem_cons_iff, ← ih]
    rcases hrest with h | ⟨next, h, hkey⟩
    · rw [h]
    · rw [h, List.exists_mem_cons_iff, hkey]
      tauto

omit [LT F] [DecidableLT F] in
theorem length_dedupBy_le (key : α → κ) (l : List α) : (dedupBy key l).length ≤ l.length := by
  induction l with
  | nil => exact le_rfl
  | cons p rest ih =>
    obtain ⟨kept, heq, hrest⟩ := dedupBy_cons p rest key
    rw [heq]
    rcases hrest with h | ⟨next, h, -⟩
    · rw [h] at ih
      simp only [List.length_cons]
      omega
    · rw [h] at ih
      simp only [List.length_cons] at ih ⊢
      omega

omit [LT F] [DecidableLT F] in
theorem increasing_dedupBy (h : Sorted key l) : Increasing key (dedupBy key l) := by
  induction l with
  | nil => exact List.Pairwise.nil
  | cons p rest ih =>
    obtain ⟨hp, hrest⟩ := List.pairwise_cons.1 h
    have hle : ∀ q ∈ dedupBy key rest, key p ≤ key q :=
      fun q hq => hp q (dedupBy_subset key rest hq)
    have hinc := ih hrest
    unfold dedupBy
    split
    · exact List.pairwise_singleton _ p
    · rename_i next kept heq
      rw [heq] at hinc hle
      obtain ⟨hnext, hkept⟩ := List.pairwise_cons.1 hinc
      have hfirst := hle next List.mem_cons_self
      split
      · rename_i hkey
        rw [← hkey] at hfirst
        exact List.pairwise_cons.2 ⟨fun q hq => hkey ▸ hnext q hq, hkept⟩
      · rename_i hkey
        have hlt : key p < key next := lt_of_le_of_ne hfirst fun heq => hkey heq.symm
        refine List.pairwise_cons.2 ⟨fun q hq => ?_, hinc⟩
        rcases List.mem_cons.1 hq with rfl | hq
        · exact hlt
        · exact hlt.trans (hnext q hq)

theorem mem_extremes (selectors : List (α → F)) (bucket : List α) (p : α) :
    p ∈ extremes selectors bucket ↔
      ∃ value ∈ selectors, minBy value bucket = some p ∨ maxBy value bucket = some p := by
  simp [extremes, List.mem_flatMap, Option.mem_toList]

theorem extremes_subset (selectors : List (α → F)) (bucket : List α) :
    extremes selectors bucket ⊆ bucket := by
  intro p hp
  obtain ⟨value, -, h | h⟩ := (mem_extremes selectors bucket p).1 hp
  · exact pick_mem h
  · exact pick_mem h

theorem length_extremes_le (selectors : List (α → F)) (bucket : List α) :
    (extremes selectors bucket).length ≤ selectors.length * 2 := by
  have hone : ∀ o : Option α, o.toList.length ≤ 1 := by
    rintro (_ | _)
    · exact Nat.zero_le 1
    · exact le_rfl
  induction selectors with
  | nil => exact le_rfl
  | cons value selectors ih =>
    have hmin := hone (minBy value bucket)
    have hmax := hone (maxBy value bucket)
    have heq : extremes (value :: selectors) bucket =
      ((minBy value bucket).toList ++ (maxBy value bucket).toList) ++
        extremes selectors bucket := rfl
    rw [heq, List.length_append, List.length_append, List.length_cons]
    omega

variable {selectors : List (α → F)}

theorem bucketExtrema_subset (key : α → κ) (selectors : List (α → F)) (bucket : List α) :
    bucketExtrema key selectors bucket ⊆ bucket := by
  intro p hp
  have hsorted := dedupBy_subset key _ hp
  exact extremes_subset selectors bucket ((mem_stableSort key _ p).1 hsorted)

theorem increasing_bucketExtrema (key : α → κ) (selectors : List (α → F)) (bucket : List α) :
    Increasing key (bucketExtrema key selectors bucket) :=
  increasing_dedupBy (sorted_stableSort key _)

theorem length_bucketExtrema_le (key : α → κ) (selectors : List (α → F)) (bucket : List α) :
    (bucketExtrema key selectors bucket).length ≤ selectors.length * 2 := by
  refine (length_dedupBy_le key _).trans ?_
  rw [(perm_stableSort key _).length_eq]
  exact length_extremes_le selectors bucket

theorem mem_bucketExtrema (hl : Increasing key l) (p : α) :
    p ∈ bucketExtrema key selectors l ↔ p ∈ extremes selectors l := by
  constructor
  · intro hp
    exact (mem_stableSort key _ p).1 (dedupBy_subset key _ hp)
  · intro hp
    -- an extreme of its key stays, and on a curve it is the point itself
    obtain ⟨q, hq, hkey⟩ := (mem_dedupBy_key key _ (key p)).2
      ⟨p, (mem_stableSort key _ p).2 hp, rfl⟩
    have hql := bucketExtrema_subset key selectors l hq
    rw [hl.eq_of_key (extremes_subset selectors l hp) hql hkey.symm]
    exact hq

/-- The points kept of a bucket are its turning points. -/
theorem bucketExtrema_eq (hl : Increasing key l) (hvalue : ∀ value ∈ selectors, Comparable value l) :
    bucketExtrema key selectors l = turningPoints key selectors l := by
  refine (increasing_bucketExtrema key selectors l).eq_of_mem_iff (hl.filter _) fun p => ?_
  rw [mem_bucketExtrema hl, mem_extremes, turningPoints, List.mem_filter, decide_eq_true_eq]
  constructor
  · rintro ⟨value, hmem, h | h⟩
    · obtain ⟨hp, hleast⟩ := (minBy_eq_some_iff hl (hvalue value hmem) p).1 h
      exact ⟨hp, value, hmem, Or.inl hleast⟩
    · obtain ⟨hp, hgreatest⟩ := (maxBy_eq_some_iff hl (hvalue value hmem) p).1 h
      exact ⟨hp, value, hmem, Or.inr hgreatest⟩
  · rintro ⟨hp, value, hmem, h | h⟩
    · exact ⟨value, hmem, Or.inl ((minBy_eq_some_iff hl (hvalue value hmem) p).2 ⟨hp, h⟩)⟩
    · exact ⟨value, hmem, Or.inr ((maxBy_eq_some_iff hl (hvalue value hmem) p).2 ⟨hp, h⟩)⟩

/-! ## Buckets -/

omit [LT F] [DecidableLT F] [LinearOrder κ] in
theorem toChunks_go (n : Nat) (xs : List α) (acc₁ : Array α) (acc₂ : Array (List α))
    (hpos : 0 < acc₁.size) (hle : acc₁.size ≤ n) :
    (List.toChunks.go n xs acc₁ acc₂).flatten = acc₂.toList.flatten ++ (acc₁.toList ++ xs) ∧
      ∃ k, (List.toChunks.go n xs acc₁ acc₂).length = acc₂.size + k + 1 ∧
        k * n < acc₁.size + xs.length := by
  induction xs generalizing acc₁ acc₂ with
  | nil =>
    refine ⟨by simp [List.toChunks.go], 0, by simp [List.toChunks.go], ?_⟩
    omega
  | cons x xs ih =>
    rw [List.toChunks.go]
    by_cases hfull : acc₁.size = n
    · -- a full chunk is put away
      rw [if_pos (beq_iff_eq.2 hfull)]
      obtain ⟨hflat, k, hlength, hk⟩ := ih ((Array.mkEmpty n).push x) (acc₂.push acc₁.toList)
        (by simp) (by simp; omega)
      have hone : ((Array.mkEmpty n).push x).size = 1 := rfl
      refine ⟨by rw [hflat]; simp, k + 1, by rw [hlength]; simp; omega, ?_⟩
      rw [hone] at hk
      rw [List.length_cons, Nat.add_mul, one_mul]
      omega
    · rw [if_neg fun h => hfull (beq_iff_eq.1 h)]
      obtain ⟨hflat, k, hlength, hk⟩ := ih (acc₁.push x) acc₂ (by simp) (by simp; omega)
      refine ⟨by rw [hflat]; simp, k, hlength, ?_⟩
      simp only [Array.size_push, List.length_cons] at hk ⊢
      omega

omit [LT F] [DecidableLT F] [LinearOrder κ] in
theorem flatten_toChunks {n : Nat} (hn : 0 < n) (l : List α) : (l.toChunks n).flatten = l := by
  cases l with
  | nil => cases n with
    | zero => rfl
    | succ n => rfl
  | cons x xs =>
    obtain ⟨n, rfl⟩ := Nat.exists_eq_add_one.2 hn
    exact (toChunks_go (n + 1) xs #[x] #[] (by simp) (by simp)).1

omit [LT F] [DecidableLT F] [LinearOrder κ] in
/-- There are no more chunks than the size asks for. -/
theorem length_toChunks_le {n count : Nat} (hn : 0 < n) {l : List α}
    (hcount : l.length ≤ count * n) : (l.toChunks n).length ≤ count := by
  cases l with
  | nil => cases n with
    | zero => exact Nat.zero_le count
    | succ n => exact Nat.zero_le count
  | cons x xs =>
    obtain ⟨n, rfl⟩ := Nat.exists_eq_add_one.2 hn
    obtain ⟨-, k, hlength, hk⟩ := toChunks_go (n + 1) xs #[x] #[] (by simp) (by simp)
    have hlt : k * (n + 1) < count * (n + 1) := by
      refine lt_of_lt_of_le hk ?_
      simpa [Nat.add_comm] using hcount
    have hk : k < count := Nat.lt_of_mul_lt_mul_right hlt
    show (List.toChunks.go (n + 1) xs #[x] #[]).length ≤ count
    rw [hlength]
    simp only [List.size_toArray, List.length_nil]
    omega

/-! ## The sample -/

/-- `a.div_ceil(b)`. -/
def divCeil (a b : Nat) : Nat := (a + b - 1) / b

def interior (points : List α) : List α := (points.drop 1).dropLast

def sample (key : α → κ) (selectors : List (α → F)) (bucketCount : Nat) (points : List α) : List α :=
  points.take 1 ++
    ((interior points).toChunks (divCeil (interior points).length bucketCount)).flatMap
      (bucketExtrema key selectors) ++
    points.getLast?.toList

/-- What a sample of a curve keeps: it is a part of the curve with its ends, and every
series reaches its least and its greatest value in it. -/
structure FaithfulSample (key : α → κ) (selectors : List (α → F)) (points sampled : List α) :
    Prop where
  sublist : sampled.Sublist points
  increasing : Increasing key sampled
  first : sampled.head? = points.head?
  last : sampled.getLast? = points.getLast?
  least : ∀ value ∈ selectors, ∃ p ∈ sampled, ∀ q ∈ points, ¬ value q < value p
  greatest : ∀ value ∈ selectors, ∃ p ∈ sampled, ∀ q ∈ points, ¬ value p < value q

variable {points : List α} {bucketCount : Nat}

omit [LT F] [DecidableLT F] [LinearOrder κ] in
theorem split_points (points : List α) (h : 2 ≤ points.length) :
    points.take 1 ++ interior points ++ points.getLast?.toList = points := by
  cases points with
  | nil => simp at h
  | cons p rest =>
    have hrest : rest ≠ [] := by
      intro hnil
      rw [hnil] at h
      simp at h
    have hlast : (p :: rest).getLast? = some (rest.getLast hrest) := by
      rw [List.getLast?_cons, List.getLast?_eq_some_getLast hrest]
      rfl
    rw [hlast]
    show p :: (rest.dropLast ++ [rest.getLast hrest]) = p :: rest
    rw [List.dropLast_append_getLast hrest]

omit [LT F] [DecidableLT F] [LinearOrder κ] in
theorem length_interior (points : List α) : (interior points).length = points.length - 2 := by
  unfold interior
  rw [List.length_dropLast, List.length_drop]
  omega

/-- The buckets of a curve with points between its ends. -/
theorem buckets (hcount : 0 < bucketCount) (h : 2 < points.length) :
    0 < divCeil (interior points).length bucketCount ∧
      (interior points).length ≤ bucketCount * divCeil (interior points).length bucketCount := by
  have hlength := length_interior points
  have hlt := Nat.lt_mul_div_succ ((interior points).length + bucketCount - 1) hcount
  rw [Nat.mul_add, mul_one] at hlt
  unfold divCeil
  refine ⟨Nat.div_pos (by omega) hcount, by omega⟩

omit [LT F] [DecidableLT F] [LinearOrder κ] in
theorem flatMap_sublist_flatten {f : List α → List α} {chunks : List (List α)}
    (h : ∀ chunk ∈ chunks, (f chunk).Sublist chunk) :
    (chunks.flatMap f).Sublist chunks.flatten := by
  induction chunks with
  | nil => exact List.Sublist.refl []
  | cons chunk chunks ih =>
    rw [List.flatMap_cons, List.flatten_cons]
    exact (h chunk List.mem_cons_self).append
      (ih fun chunk' hmem => h chunk' (List.mem_cons_of_mem _ hmem))

theorem bucketExtrema_sublist (hl : Increasing key l) :
    (bucketExtrema key selectors l).Sublist l :=
  (increasing_bucketExtrema key selectors l).sublist hl (bucketExtrema_subset key selectors l)

theorem Increasing.of_mem_flatten {chunks : List (List α)} (h : Increasing key chunks.flatten)
    {chunk : List α} (hchunk : chunk ∈ chunks) : Increasing key chunk :=
  List.Pairwise.sublist (List.sublist_flatten_of_mem hchunk) h

theorem sample_sublist (hpoints : Increasing key points) (hcount : 0 < bucketCount)
    (h : 2 < points.length) : (sample key selectors bucketCount points).Sublist points := by
  have hsplit := split_points points (by omega)
  have hflat := flatten_toChunks (buckets hcount h).1 (interior points)
  have hinterior : Increasing key (interior points) :=
    List.Pairwise.sublist ((List.dropLast_sublist _).trans (List.drop_sublist 1 points)) hpoints
  conv_rhs => rw [← hsplit, ← hflat]
  refine ((List.Sublist.refl _).append (flatMap_sublist_flatten fun chunk hchunk => ?_)).append
    (List.Sublist.refl _)
  rw [← hflat] at hinterior
  exact bucketExtrema_sublist (hinterior.of_mem_flatten hchunk)

/-- Each point is an end of the sample, or it stands in a bucket. -/
theorem mem_points (hcount : 0 < bucketCount) (h : 2 < points.length) {p : α} (hp : p ∈ points) :
    p ∈ sample key selectors bucketCount points ∨
      ∃ chunk ∈ (interior points).toChunks (divCeil (interior points).length bucketCount),
        p ∈ chunk := by
  rw [← split_points points (by omega), List.mem_append, List.mem_append] at hp
  unfold sample
  rw [List.mem_append, List.mem_append]
  rcases hp with (hp | hp) | hp
  · exact Or.inl (Or.inl (Or.inl hp))
  · rw [← flatten_toChunks (buckets hcount h).1 (interior points), List.mem_flatten] at hp
    exact Or.inr hp
  · exact Or.inl (Or.inr hp)

theorem mem_sample_of_mem_chunk {chunk : List α}
    (hchunk : chunk ∈ (interior points).toChunks (divCeil (interior points).length bucketCount))
    {p : α} (hp : p ∈ bucketExtrema key selectors chunk) :
    p ∈ sample key selectors bucketCount points := by
  unfold sample
  rw [List.mem_append, List.mem_append]
  exact Or.inl (Or.inr (List.mem_flatMap.2 ⟨chunk, hchunk, hp⟩))

theorem chunk_sublist (hcount : 0 < bucketCount) (h : 2 < points.length) {chunk : List α}
    (hchunk : chunk ∈ (interior points).toChunks (divCeil (interior points).length bucketCount)) :
    chunk.Sublist points := by
  have hinterior : (interior points).Sublist points :=
    (List.dropLast_sublist _).trans (List.drop_sublist 1 points)
  rw [← flatten_toChunks (buckets hcount h).1 (interior points)] at hinterior
  exact (List.sublist_flatten_of_mem hchunk).trans hinterior

theorem sample_least (hpoints : Increasing key points) (hcount : 0 < bucketCount)
    (h : 2 < points.length) {value : α → F} (hvalue : value ∈ selectors)
    (hcomparable : Comparable value points) :
    ∃ p ∈ sample key selectors bucketCount points, ∀ q ∈ points, ¬ value q < value p := by
  have hne : points ≠ [] := List.ne_nil_of_length_pos (by omega)
  obtain ⟨p, hp⟩ := pick_isSome (fun p least => decide (value p < value least)) hne
  have hleast := firstLeast_of_minBy hpoints hcomparable hp
  have hplace : p ∈ sample key selectors bucketCount points ∨ _ :=
    mem_points hcount h (pick_mem hp)
  rcases hplace with hmem | ⟨chunk, hchunk, hmem⟩
  · exact ⟨p, hmem, fun q hq => (hleast q hq).1⟩
  · -- the least point of its bucket is as low
    have hsub := chunk_sublist hcount h hchunk
    have hinc : Increasing key chunk := List.Pairwise.sublist hsub hpoints
    obtain ⟨m, hm⟩ := pick_isSome (fun p least => decide (value p < value least))
      (List.ne_nil_of_mem hmem)
    have hkept : m ∈ bucketExtrema key selectors chunk :=
      (mem_bucketExtrema hinc m).2 ((mem_extremes _ _ m).2 ⟨value, hvalue, Or.inl hm⟩)
    have hlow := firstLeast_of_minBy hinc (hcomparable.of_subset hsub.subset) hm
    refine ⟨m, mem_sample_of_mem_chunk hchunk hkept, fun q hq => ?_⟩
    exact hcomparable.le_trans m (hsub.subset (pick_mem hm)) p (pick_mem hp) q hq
      (hlow p hmem).1 (hleast q hq).1

theorem sample_greatest (hpoints : Increasing key points) (hcount : 0 < bucketCount)
    (h : 2 < points.length) {value : α → F} (hvalue : value ∈ selectors)
    (hcomparable : Comparable value points) :
    ∃ p ∈ sample key selectors bucketCount points, ∀ q ∈ points, ¬ value p < value q := by
  have hne : points ≠ [] := List.ne_nil_of_length_pos (by omega)
  obtain ⟨p, hp⟩ := pick_isSome
    (fun p greatest => !decide (value p < value greatest)) hne
  have hgreatest := lastGreatest_of_maxBy hpoints hcomparable hp
  have hplace : p ∈ sample key selectors bucketCount points ∨ _ :=
    mem_points hcount h (pick_mem hp)
  rcases hplace with hmem | ⟨chunk, hchunk, hmem⟩
  · exact ⟨p, hmem, fun q hq => (hgreatest q hq).1⟩
  · have hsub := chunk_sublist hcount h hchunk
    have hinc : Increasing key chunk := List.Pairwise.sublist hsub hpoints
    obtain ⟨m, hm⟩ := pick_isSome
      (fun p greatest => !decide (value p < value greatest)) (List.ne_nil_of_mem hmem)
    have hkept : m ∈ bucketExtrema key selectors chunk :=
      (mem_bucketExtrema hinc m).2 ((mem_extremes _ _ m).2 ⟨value, hvalue, Or.inr hm⟩)
    have hhigh := lastGreatest_of_maxBy hinc (hcomparable.of_subset hsub.subset) hm
    refine ⟨m, mem_sample_of_mem_chunk hchunk hkept, fun q hq => ?_⟩
    exact hcomparable.le_trans q hq p (pick_mem hp) m (hsub.subset (pick_mem hm))
      (hgreatest q hq).1 (hhigh p hmem).1

omit [LT F] [DecidableLT F] [LinearOrder κ] in
theorem take_one_getLast {f : List α} (h : points ≠ []) :
    (points.take 1 ++ f ++ points.getLast?.toList).head? = points.head? ∧
      (points.take 1 ++ f ++ points.getLast?.toList).getLast? = points.getLast? := by
  cases points with
  | nil => exact absurd rfl h
  | cons p rest =>
    refine ⟨rfl, ?_⟩
    rw [List.getLast?_eq_some_getLast h, Option.toList_some, List.getLast?_concat]

theorem sample_faithful (hpoints : Increasing key points) (hcount : 0 < bucketCount)
    (h : 2 < points.length) (hvalue : ∀ value ∈ selectors, Comparable value points) :
    FaithfulSample key selectors points (sample key selectors bucketCount points) where
  sublist := sample_sublist hpoints hcount h
  increasing := List.Pairwise.sublist (sample_sublist hpoints hcount h) hpoints
  first := (take_one_getLast (List.ne_nil_of_length_pos (by omega))).1
  last := (take_one_getLast (List.ne_nil_of_length_pos (by omega))).2
  least value hmem := sample_least hpoints hcount h hmem (hvalue value hmem)
  greatest value hmem := sample_greatest hpoints hcount h hmem (hvalue value hmem)

/-! ## The size of a sample -/

theorem length_sample (h : points ≠ []) :
    (sample key selectors bucketCount points).length =
      (((interior points).toChunks (divCeil (interior points).length bucketCount)).flatMap
        (bucketExtrema key selectors)).length + 2 := by
  have htake : (points.take 1).length = 1 := by
    rw [List.length_take]
    have := List.length_pos_of_ne_nil h
    omega
  have hlast : points.getLast?.toList.length = 1 := by
    rw [List.getLast?_eq_some_getLast h]
    rfl
  unfold sample
  rw [List.length_append, List.length_append, htake, hlast]
  omega

theorem length_flatMap_extrema_le (key : α → κ) (selectors : List (α → F))
    (chunks : List (List α)) :
    (chunks.flatMap (bucketExtrema key selectors)).length ≤
      chunks.length * (selectors.length * 2) := by
  induction chunks with
  | nil => exact Nat.zero_le _
  | cons chunk chunks ih =>
    have hone := length_bucketExtrema_le key selectors chunk
    rw [List.flatMap_cons, List.length_append, List.length_cons, Nat.add_mul, one_mul]
    omega

/-- Each bucket leaves at most two points for a series. -/
theorem length_sample_le (hcount : 0 < bucketCount) (h : 2 < points.length) :
    (sample key selectors bucketCount points).length ≤
      bucketCount * (selectors.length * 2) + 2 := by
  obtain ⟨hsize, hcover⟩ := buckets hcount h
  rw [length_sample (List.ne_nil_of_length_pos (by omega))]
  have hchunks := length_toChunks_le hsize hcover
  have hle := length_flatMap_extrema_le key selectors
    ((interior points).toChunks (divCeil (interior points).length bucketCount))
  have hmul := Nat.mul_le_mul_right (selectors.length * 2) hchunks
  omega

/-- One bucket holds all points between the ends. -/
theorem length_sample_one (hpoints : Increasing key points) (h : 2 < points.length)
    (hvalue : ∀ value ∈ selectors, Comparable value points) :
    (sample key selectors 1 points).length =
      (turningPoints key selectors (interior points)).length + 2 := by
  obtain ⟨hsize, hcover⟩ := buckets Nat.one_pos h
  have hflat := flatten_toChunks hsize (interior points)
  have hlength := length_interior points
  have hchunks := length_toChunks_le hsize hcover
  have hsub : (interior points).Sublist points :=
    (List.dropLast_sublist _).trans (List.drop_sublist 1 points)
  have hone : (interior points).toChunks (divCeil (interior points).length 1) =
      [interior points] := by
    rcases hcase : (interior points).toChunks (divCeil (interior points).length 1) with
      _ | ⟨chunk, _ | ⟨chunk', chunks⟩⟩
    · rw [hcase, List.flatten_nil] at hflat
      rw [← hflat, List.length_nil] at hlength
      omega
    · rw [hcase, List.flatten_singleton] at hflat
      rw [hflat]
    · rw [hcase] at hchunks
      simp at hchunks
  rw [length_sample (List.ne_nil_of_length_pos (by omega)), hone, List.flatMap_singleton,
    bucketExtrema_eq (List.Pairwise.sublist hsub hpoints)
      fun value hmem => (hvalue value hmem).of_subset hsub.subset]

end

/-- Values of a linear order can be compared. -/
theorem Comparable.of_linearOrder [LinearOrder F] (value : α → F) (l : List α) :
    Comparable value l where
  asymm _ _ _ _ h := h.not_gt
  le_trans _ _ _ _ _ _ hpq hqr := not_lt.2 ((not_lt.1 hpq).trans (not_lt.1 hqr))

end Sampling
