import CtaManager.Library.StableSort

/-!
Prefixes of a sorted list.

In nondecreasing key order the elements up to a bound come first, so a list can be taken bound
by bound: what a lower bound leaves is where the next one goes on (`filter_le_append`).
-/

namespace StableSort

variable {α κ : Type} [LinearOrder κ] {key : α → κ} {l : List α}

/-- The elements up to a bound, and then the others. -/
theorem filter_le_append_filter_lt (h : Sorted key l) (bound : κ) :
    (l.filter fun a => decide (key a ≤ bound)) ++ (l.filter fun a => decide (bound < key a)) = l := by
  induction l with
  | nil => rfl
  | cons a l ih =>
    obtain ⟨hhead, htail⟩ := List.pairwise_cons.1 h
    by_cases ha : key a ≤ bound
    · rw [List.filter_cons_of_pos (by simpa using ha), List.filter_cons_of_neg (by simpa using ha),
        List.cons_append, ih htail]
    · have hbeyond : ∀ b ∈ l, bound < key b := fun b hb => (not_le.1 ha).trans_le (hhead b hb)
      have hnone : (l.filter fun a => decide (key a ≤ bound)) = [] := by
        rw [List.filter_eq_nil_iff]
        intro b hb
        simpa using hbeyond b hb
      have hall : (l.filter fun a => decide (bound < key a)) = l := by
        rw [List.filter_eq_self]
        intro b hb
        simpa using hbeyond b hb
      rw [List.filter_cons_of_neg (by simpa using ha),
        List.filter_cons_of_pos (by simpa using not_le.1 ha), hnone, hall, List.nil_append]

/-- From one bound to a later one. -/
theorem filter_le_append (h : Sorted key l) {low high : κ} (hle : low ≤ high) :
    (l.filter fun a => decide (key a ≤ high)) =
      (l.filter fun a => decide (key a ≤ low)) ++
        (l.filter fun a => decide (low < key a)).filter fun a => decide (key a ≤ high) := by
  conv_lhs => rw [← filter_le_append_filter_lt h low, List.filter_append, List.filter_filter]
  refine congrArg (· ++ _) (List.filter_congr fun a _ => ?_)
  rw [Bool.and_eq_right_iff_imp, decide_eq_true_eq, decide_eq_true_eq]
  exact fun hlow => hlow.trans hle

end StableSort
