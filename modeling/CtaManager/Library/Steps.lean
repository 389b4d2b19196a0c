import Mathlib

/-!
Runs of a deterministic step system.

`run step s l` takes the steps of `l` one after the other.  `Along step P s l` says
that `P` holds of every step of the run, with the state before it.  What each step
that meets `P` preserves, the run preserves (`Along.invariant`).
-/

namespace Steps

variable {σ α : Type} {step : σ → α → σ}

/-- The state after the steps of `l`. -/
def run (step : σ → α → σ) (s : σ) (l : List α) : σ := l.foldl step s

@[simp] theorem run_nil (s : σ) : run step s [] = s := rfl

@[simp] theorem run_cons (s : σ) (a : α) (l : List α) :
    run step s (a :: l) = run step (step s a) l := rfl

theorem run_append (s : σ) (l₁ l₂ : List α) :
    run step s (l₁ ++ l₂) = run step (run step s l₁) l₂ := List.foldl_append ..

/-- `P` holds of every step of the run from `s`. -/
def Along (step : σ → α → σ) (P : σ → α → Prop) : σ → List α → Prop
  | _, [] => True
  | s, a :: l => P s a ∧ Along step P (step s a) l

theorem along_append {P : σ → α → Prop} {s : σ} {l₁ l₂ : List α} :
    Along step P s (l₁ ++ l₂) ↔ Along step P s l₁ ∧ Along step P (run step s l₁) l₂ := by
  induction l₁ generalizing s with
  | nil => simp [Along]
  | cons a l₁ ih =>
    show P s a ∧ Along step P (step s a) (l₁ ++ l₂) ↔
      (P s a ∧ Along step P (step s a) l₁) ∧ Along step P (run step (step s a) l₁) l₂
    rw [ih, and_assoc]

/-- The invariant rule: what the steps that meet `P` preserve. -/
theorem Along.invariant {P : σ → α → Prop} {I : σ → Prop}
    (hstep : ∀ s a, I s → P s a → I (step s a)) {s : σ} {l : List α}
    (h : Along step P s l) (hs : I s) : I (run step s l) := by
  induction l generalizing s with
  | nil => exact hs
  | cons a l ih => exact ih h.2 (hstep s a hs h.1)

/-- A run that meets `P` as long as it meets `I`, which `P` preserves. -/
theorem Along.strengthen {P Q : σ → α → Prop} {I : σ → Prop}
    (hstep : ∀ s a, I s → P s a → I (step s a)) (hQ : ∀ s a, I s → P s a → Q s a)
    {s : σ} {l : List α} (h : Along step P s l) (hs : I s) : Along step Q s l := by
  induction l generalizing s with
  | nil => trivial
  | cons a l ih => exact ⟨hQ s a hs h.1, ih h.2 (hstep s a hs h.1)⟩

theorem invariant {I : σ → Prop} (hstep : ∀ s a, I s → I (step s a)) {s : σ} (hs : I s)
    (l : List α) : I (run step s l) := by
  induction l generalizing s with
  | nil => exact hs
  | cons a l ih => exact ih (hstep s a hs)

/-- Two properties of the steps that agree wherever an invariant holds. -/
theorem along_iff {P Q : σ → α → Prop} {I : σ → Prop} (hstep : ∀ s a, I s → I (step s a))
    (hPQ : ∀ s a, I s → (P s a ↔ Q s a)) {s : σ} (hs : I s) (l : List α) :
    Along step P s l ↔ Along step Q s l := by
  induction l generalizing s with
  | nil => exact Iff.rfl
  | cons a l ih => exact and_congr (hPQ s a hs) (ih (hstep s a hs))

end Steps
