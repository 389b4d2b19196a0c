import Mathlib

/-!
Reading an ordered list page by page.

The entries of `l` stand in strictly increasing order of `key`.  A page is what
follows a key, up to `limit` entries (`page`); reading from the last key of each page
gives the whole list, each entry once (`flatten_pages`).

A list may also be read by page numbers while entries are still added to it.  Then a
page that is not full shows that nothing was missed, as long as no entry came twice
(`perm_of_short_page`).
-/

namespace Pages

variable {α κ : Type} [LinearOrder κ] (key : α → κ)

/-- What follows a key; everything at the start. -/
def following (l : List α) (after : Option κ) : List α :=
  l.filter fun a => after.all fun k => decide (k < key a)

def page (l : List α) (limit : Nat) (after : Option κ) : List α :=
  (following key l after).take limit

/-- Page after page, until one is empty. -/
def pages (l : List α) (limit : Nat) : Nat → Option κ → List (List α)
  | 0, _ => []
  | rounds + 1, after =>
    match (page key l limit after).getLast? with
    | none => []
    | some last => page key l limit after :: pages l limit rounds (some (key last))

variable {key}

/-- Behind the last entry of a prefix stands the rest. -/
theorem following_getLast {l : List α} (hl : l.Pairwise fun a b => key a < key b) {n : Nat}
    {last : α} (h : (l.take n).getLast? = some last) :
    following key l (some (key last)) = l.drop n := by
  have hsplit := List.take_append_drop n l
  have hpair := hl
  rw [← hsplit, List.pairwise_append] at hpair
  obtain ⟨htake, -, hcross⟩ := hpair
  have hmem := List.mem_of_getLast? h
  unfold following
  conv_lhs => rw [← hsplit]
  rw [List.filter_append]
  have hbefore : (l.take n).filter (fun a => (some (key last)).all fun k => decide (k < key a)) =
      [] := by
    rw [List.filter_eq_nil_iff]
    intro a ha
    obtain ⟨init, hinit⟩ := List.getLast?_eq_some_iff.1 h
    rw [hinit] at ha htake
    have hle : key a ≤ key last := by
      rcases List.mem_append.1 ha with ha | ha
      · exact ((List.pairwise_append.1 htake).2.2 a ha last (List.mem_singleton_self _)).le
      · rw [List.mem_singleton.1 ha]
    simpa using hle
  have hafter : (l.drop n).filter (fun a => (some (key last)).all fun k => decide (k < key a)) =
      l.drop n := by
    rw [List.filter_eq_self]
    intro a ha
    simpa using hcross last hmem a ha
  rw [hbefore, hafter, List.nil_append]

theorem following_following {l : List α} {k : κ} {after : Option κ}
    (h : ∀ a ∈ after, a ≤ k) : following key (following key l after) (some k) =
      following key l (some k) := by
  unfold following
  rw [List.filter_filter]
  refine List.filter_congr fun a _ => ?_
  cases after with
  | none => simp
  | some a' =>
    have := h a' rfl
    by_cases hk : k < key a
    · simp [hk, lt_of_le_of_lt this hk]
    · simp [hk]

/-- The pages from a key on are what follows it. -/
theorem flatten_pages {l : List α} (hl : l.Pairwise fun a b => key a < key b) {limit : Nat}
    (hlimit : 0 < limit) (rounds : Nat) (after : Option κ)
    (hrounds : (following key l after).length < rounds) :
    (pages key l limit rounds after).flatten = following key l after := by
  induction rounds generalizing after with
  | zero => exact absurd hrounds (Nat.not_lt_zero _)
  | succ rounds ih =>
    have hsorted : (following key l after).Pairwise fun a b => key a < key b := hl.filter _
    unfold pages
    cases hlast : (page key l limit after).getLast? with
    | none =>
      have hnil : page key l limit after = [] := List.getLast?_eq_none_iff.1 hlast
      unfold page at hnil
      rcases List.take_eq_nil_iff.1 hnil with h | h
      · omega
      · rw [h]
        rfl
    | some last =>
      have hmem : last ∈ following key l after :=
        List.mem_of_mem_take (List.mem_of_getLast? hlast)
      have hle : ∀ a ∈ after, a ≤ key last := by
        intro a ha
        unfold following at hmem
        rw [List.mem_filter] at hmem
        obtain rfl : after = some a := ha
        have hlt : a < key last := by simpa using hmem.2
        exact hlt.le
      have hrest : following key l (some (key last)) = (following key l after).drop limit := by
        rw [← following_following hle]
        exact following_getLast hsorted hlast
      have hpos : 0 < (following key l after).length := List.length_pos_of_mem hmem
      rw [List.flatten_cons, ih _ (by rw [hrest, List.length_drop]; omega), hrest]
      exact List.take_append_drop limit _

/-! ## Pages by number -/

/-- `n` distinct entries of the list and its last page, all distinct, are the list. -/
theorem perm_of_short_page {l read : List α} {limit n : Nat} (hread : read.length = n)
    (hsub : read ⊆ l) (hnodup : (read ++ (l.drop n).take limit).Nodup)
    (hshort : ((l.drop n).take limit).length < limit) :
    (read ++ (l.drop n).take limit).Perm l := by
  have hlast : (l.drop n).take limit = l.drop n := by
    rw [List.take_eq_self_iff]
    rw [List.length_take] at hshort
    omega
  rw [hlast] at hnodup ⊢
  have hapart := (List.nodup_append.1 hnodup).2.2
  -- what was read before stands before the last page
  have htake : read ⊆ l.take n := fun a ha => by
    have hmem := hsub ha
    rw [← List.take_append_drop n l, List.mem_append] at hmem
    rcases hmem with h | h
    · exact h
    · exact absurd rfl (hapart a ha a h)
  have hperm : read.Perm (l.take n) :=
    ((List.nodup_append.1 hnodup).1.subperm htake).perm_of_length_le
      (by rw [hread, List.length_take]; exact Nat.min_le_left _ _)
  exact (hperm.append_right _).trans (List.Perm.of_eq (List.take_append_drop n l))

end Pages
