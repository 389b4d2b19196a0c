import Mathlib

/-! Binary search for the partition point of a list.

`partitionPoint p l` halves the interval `[low, high)` until it is empty.  When
every element that satisfies `p` stands before every element that does not
(`Partitioned`), the result is the number of elements that satisfy `p`
(`take_partitionPoint`, `drop_partitionPoint`). -/

namespace PartitionPoint

variable {α : Type}

/-- The elements that satisfy `p` come first. -/
def Partitioned (p : α → Bool) (l : List α) : Prop := l.Pairwise fun a b => p b → p a

/-- The loop; the interval shrinks every round, so `rounds` as large as the
interval is enough. -/
def search (p : α → Bool) (l : List α) : Nat → Nat → Nat → Nat
  | 0, low, _ => low
  | rounds + 1, low, high =>
    if low < high then
      let mid := low + (high - low) / 2
      if (l[mid]?).any p then search p l rounds (mid + 1) high else search p l rounds low mid
    else low

def partitionPoint (p : α → Bool) (l : List α) : Nat := search p l l.length 0 l.length

theorem search_spec (p : α → Bool) (l : List α) (hl : Partitioned p l) (rounds low high : Nat)
    (hr : high - low ≤ rounds) (hlh : low ≤ high) (hh : high ≤ l.length)
    (hlow : ∀ i (h : i < l.length), i < low → p l[i])
    (hhigh : ∀ i (h : i < l.length), high ≤ i → ¬ p l[i]) :
    search p l rounds low high ≤ l.length ∧
      (∀ i (h : i < l.length), i < search p l rounds low high → p l[i]) ∧
      (∀ i (h : i < l.length), search p l rounds low high ≤ i → ¬ p l[i]) := by
  induction rounds generalizing low high with
  | zero =>
    obtain rfl : low = high := by omega
    exact ⟨hh, hlow, hhigh⟩
  | succ rounds ih =>
    unfold search
    by_cases hlt : low < high
    · have hmid : low + (high - low) / 2 < l.length := by omega
      simp only [if_pos hlt, List.getElem?_eq_getElem hmid, Option.any_some]
      by_cases hp : p l[low + (high - low) / 2]
      · simp only [if_pos hp]
        refine ih _ _ (by omega) (by omega) hh (fun i hi hlt' => ?_) hhigh
        rcases Nat.lt_or_eq_of_le (Nat.lt_succ_iff.1 hlt') with h | h
        · exact List.pairwise_iff_getElem.1 hl i _ hi hmid h hp
        · subst h
          exact hp
      · simp only [if_neg hp]
        refine ih _ _ (by omega) (by omega) (by omega) hlow fun i hi hle => ?_
        rcases Nat.lt_or_eq_of_le hle with h | h
        · exact fun hpi => hp (List.pairwise_iff_getElem.1 hl _ i hmid hi h hpi)
        · subst h
          exact hp
    · simp only [if_neg hlt]
      obtain rfl : low = high := by omega
      exact ⟨hh, hlow, hhigh⟩

theorem partitionPoint_spec (p : α → Bool) (l : List α) (hl : Partitioned p l) :
    partitionPoint p l ≤ l.length ∧
      (∀ i (h : i < l.length), i < partitionPoint p l → p l[i]) ∧
      (∀ i (h : i < l.length), partitionPoint p l ≤ i → ¬ p l[i]) :=
  search_spec p l hl l.length 0 l.length (by omega) (by omega) le_rfl
    (fun i _ h => absurd h (by omega)) (fun i h hi => absurd h (by omega))

theorem take_partitionPoint (p : α → Bool) (l : List α) (hl : Partitioned p l) :
    ∀ a ∈ l.take (partitionPoint p l), p a := by
  obtain ⟨-, hin, -⟩ := partitionPoint_spec p l hl
  intro a ha
  obtain ⟨i, hi, rfl⟩ := List.mem_take_iff_getElem.1 ha
  exact hin i (by omega) (by omega)

theorem drop_partitionPoint (p : α → Bool) (l : List α) (hl : Partitioned p l) :
    ∀ a ∈ l.drop (partitionPoint p l), ¬ p a := by
  obtain ⟨-, -, hout⟩ := partitionPoint_spec p l hl
  intro a ha
  obtain ⟨i, hi, rfl⟩ := List.mem_drop_iff_getElem.1 ha
  exact hout _ _ (by omega)

theorem take_partitionPoint_eq_filter (p : α → Bool) (l : List α) (hl : Partitioned p l) :
    l.take (partitionPoint p l) = l.filter p := by
  conv_rhs => rw [← List.take_append_drop (partitionPoint p l) l, List.filter_append]
  rw [List.filter_eq_self.2 (take_partitionPoint p l hl),
    List.filter_eq_nil_iff.2 (drop_partitionPoint p l hl), List.append_nil]

theorem drop_partitionPoint_eq_filter (p : α → Bool) (l : List α) (hl : Partitioned p l) :
    l.drop (partitionPoint p l) = l.filter fun a => !p a := by
  conv_rhs => rw [← List.take_append_drop (partitionPoint p l) l, List.filter_append]
  have htake : (l.take (partitionPoint p l)).filter (fun a => !p a) = [] :=
    List.filter_eq_nil_iff.2 fun a ha => by simp [take_partitionPoint p l hl a ha]
  have hdrop : (l.drop (partitionPoint p l)).filter (fun a => !p a) =
      l.drop (partitionPoint p l) :=
    List.filter_eq_self.2 fun a ha => by simpa using drop_partitionPoint p l hl a ha
  rw [htake, hdrop, List.nil_append]

theorem search_map {β : Type} (f : α → β) (p : β → Bool) (l : List α) (rounds low high : Nat) :
    search p (l.map f) rounds low high = search (fun a => p (f a)) l rounds low high := by
  induction rounds generalizing low high with
  | zero => rfl
  | succ rounds ih =>
    unfold search
    simp only [List.getElem?_map, Option.any_map, ih]

theorem partitionPoint_map {β : Type} (f : α → β) (p : β → Bool) (l : List α) :
    partitionPoint p (l.map f) = partitionPoint (fun a => p (f a)) l := by
  unfold partitionPoint
  rw [search_map, List.length_map]

end PartitionPoint
