import Mathlib

/-!
The newest of timestamped values.

`keep` replaces a value by one that is not older.  After any run it holds a newest value of
the run (`IsNewest.keep`), and where a time has one value, runs over the same values hold
the same (`IsNewest.unique`): the order and the repetitions of a run do not matter.
-/

namespace Newest

variable {α T : Type} [LinearOrder T] {ts : α → T}

/-- A newest value of a list; none of an empty one. -/
def IsNewest (ts : α → T) (l : List α) : Option α → Prop
  | none => l = []
  | some a => a ∈ l ∧ ∀ b ∈ l, ts b ≤ ts a

/-- The value after one more. -/
def keep (ts : α → T) (x : Option α) (a : α) : Option α :=
  if x.any fun b => decide (ts a < ts b) then x else some a

theorem keep_some (b a : α) : keep ts (some b) a = if ts a < ts b then some b else some a := by
  unfold keep
  rw [Option.any_some]
  by_cases h : ts a < ts b
  · rw [if_pos h, if_pos (decide_eq_true h)]
  · rw [if_neg h, if_neg (by simpa using h)]

theorem IsNewest.keep {l : List α} {x : Option α} (h : IsNewest ts l x) (a : α) :
    IsNewest ts (l ++ [a]) (keep ts x a) := by
  cases x with
  | none =>
    rw [show l = [] from h]
    refine ⟨List.mem_singleton_self a, fun b hb => ?_⟩
    rw [List.nil_append, List.mem_singleton] at hb
    rw [hb]
  | some b =>
    obtain ⟨hmem, hmax⟩ := h
    rw [keep_some]
    split
    · next hlt =>
      refine ⟨List.mem_append_left _ hmem, fun c hc => ?_⟩
      rcases List.mem_append.1 hc with hc | hc
      · exact hmax c hc
      · rw [List.mem_singleton.1 hc]
        exact le_of_lt hlt
    · next hle =>
      refine ⟨List.mem_append_right _ (List.mem_singleton_self a), fun c hc => ?_⟩
      rcases List.mem_append.1 hc with hc | hc
      · exact (hmax c hc).trans (not_lt.1 hle)
      · rw [List.mem_singleton.1 hc]

/-- One more item, of which there may be a value. -/
theorem IsNewest.keep_elim {l : List α} {x : Option α} (h : IsNewest ts l x) (a : Option α) :
    IsNewest ts (l ++ a.toList) (a.elim x (Newest.keep ts x)) := by
  cases a with
  | none => rwa [Option.toList_none, List.append_nil]
  | some a => exact h.keep a

/-- Runs over the same values hold the same. -/
theorem IsNewest.unique {l l' : List α} {x y : Option α}
    (hinj : ∀ a ∈ l, ∀ b ∈ l, ts a = ts b → a = b) (hsame : ∀ a, a ∈ l ↔ a ∈ l')
    (hx : IsNewest ts l x) (hy : IsNewest ts l' y) : x = y := by
  cases x with
  | none =>
    cases y with
    | none => rfl
    | some b =>
      have hb := (hsame b).2 hy.1
      rw [show l = [] from hx] at hb
      exact absurd hb List.not_mem_nil
  | some a =>
    cases y with
    | none =>
      have ha := (hsame a).1 hx.1
      rw [show l' = [] from hy] at ha
      exact absurd ha List.not_mem_nil
    | some b =>
      have hb := (hsame b).2 hy.1
      have hle := hx.2 b hb
      have hge := hy.2 a ((hsame a).1 hx.1)
      rw [hinj a hx.1 b hb (le_antisymm hge hle)]

theorem IsNewest.mem {l : List α} {a : α} (h : IsNewest ts l (some a)) : a ∈ l := h.1

theorem IsNewest.le {l : List α} {a b : α} (h : IsNewest ts l (some a)) (hb : b ∈ l) :
    ts b ≤ ts a := h.2 b hb

end Newest
