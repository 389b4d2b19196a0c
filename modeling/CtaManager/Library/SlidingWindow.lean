import Mathlib

/-!
Amounts booked at times, and the part of them that is younger than a duration.

`kept d now` drops what is `d` old or older.  Dropping twice is dropping at the later
time (`kept_kept`), so a log that is pruned now and then gives the same answers as
one that is not.  If every entry, when it was booked, fitted under a limit with what
was kept, then every window of length `d` fits (`sum_window_le`).
-/

namespace SlidingWindow

variable {α : Type} (time : α → Nat)

/-- What is younger than `d`. -/
def kept (d now : Nat) (l : List α) : List α := l.filter fun a => decide (now - time a < d)

variable {time}

theorem mem_kept {d now : Nat} {l : List α} {a : α} :
    a ∈ kept time d now l ↔ a ∈ l ∧ now - time a < d := by
  unfold kept
  rw [List.mem_filter, decide_eq_true_eq]

@[simp] theorem kept_append (d now : Nat) (l₁ l₂ : List α) :
    kept time d now (l₁ ++ l₂) = kept time d now l₁ ++ kept time d now l₂ :=
  List.filter_append ..

theorem kept_kept (time : α → Nat) {d d' now later : Nat} (h : now ≤ later) (hd : d ≤ d') (l : List α) :
    kept time d later (kept time d' now l) = kept time d later l := by
  unfold kept
  rw [List.filter_filter]
  refine List.filter_congr fun a _ => ?_
  by_cases ha : later - time a < d
  · have : now - time a < d' := by omega
    simp [ha, this]
  · simp [ha]

theorem kept_map {β : Type} (time : α → Nat) (f : β → α) {d now : Nat} (l : List β) :
    kept time d now (l.map f) = (kept (fun b => time (f b)) d now l).map f :=
  List.filter_map

/-- Every entry, when it was booked, fitted under the limit with what was kept. -/
def Booked (time weight : α → Nat) (d limit : Nat) (l : List α) : Prop :=
  ∀ before a after, l = before ++ a :: after →
    ((kept time d (time a) before).map weight).sum + weight a ≤ limit

theorem Booked.nil {weight : α → Nat} {d limit : Nat} : Booked time weight d limit [] := by
  intro before a after h
  exact absurd h.symm (by simp)

/-- One more entry that fits. -/
theorem Booked.append_singleton {weight : α → Nat} {d limit : Nat} {l : List α} {a : α}
    (h : Booked time weight d limit l)
    (ha : ((kept time d (time a) l).map weight).sum + weight a ≤ limit) :
    Booked time weight d limit (l ++ [a]) := by
  intro before b after heq
  rcases List.eq_nil_or_concat after with rfl | ⟨init, last, rfl⟩
  · obtain ⟨rfl, hlast⟩ := List.append_inj' heq rfl
    obtain rfl := List.singleton_inj.1 hlast
    exact ha
  · rw [List.concat_eq_append, ← List.cons_append, ← List.append_assoc] at heq
    obtain ⟨hl, -⟩ := List.append_inj' heq rfl
    exact h before b init hl

/-- The sum over any window of length `d`. -/
theorem Booked.sum_window_le {weight : α → Nat} {d limit : Nat} {l : List α}
    (h : Booked time weight d limit l) (hsorted : l.Pairwise fun a b => time a ≤ time b)
    (start : Nat) :
    ((l.filter fun a => decide (start ≤ time a ∧ time a < start + d)).map weight).sum ≤ limit := by
  induction l using List.reverseRecOn with
  | nil => exact Nat.zero_le _
  | append_singleton l a ih =>
    obtain ⟨hl, -, hlast⟩ := List.pairwise_append.1 hsorted
    have ih := ih (fun before b after hb => h before b (after ++ [a]) (by
      rw [hb, List.append_assoc, List.cons_append])) hl
    rw [List.filter_append]
    by_cases hin : start ≤ time a ∧ time a < start + d
    · -- what stands in the window before the last entry was kept when it was booked
      have hsub : (l.filter fun b => decide (start ≤ time b ∧ time b < start + d)).Sublist
          (kept time d (time a) l) := by
        unfold kept
        refine List.monotone_filter_right l fun b hb => ?_
        simp only [decide_eq_true_eq] at hb ⊢
        omega
      have hle := (hsub.map weight).sum_le_sum (fun _ _ => Nat.zero_le _)
      rw [List.filter_cons_of_pos (by simpa using hin), List.filter_nil, List.map_append,
        List.sum_append]
      have := h l a [] rfl
      simp only [List.map_cons, List.map_nil, List.sum_cons, List.sum_nil, Nat.add_zero]
      omega
    · rw [List.filter_cons_of_neg (by simpa using hin), List.filter_nil, List.append_nil]
      exact ih

end SlidingWindow
