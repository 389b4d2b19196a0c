import CtaManager.Library.Check

/-!
Steps that commute.

A loop whose steps commute has one result for every order of its items
(`foldlM_perm`).  A fallible loop is compared up to its error: what it fails with may
depend on the order, whether it fails does not (`toOption_foldlM`).
-/

namespace Commute

variable {α β σ τ ε : Type}

/-- Two steps in either order fail or end in one state. -/
def Commutes (f : σ → α → Option σ) : Prop :=
  ∀ s a b, ((f s a).bind fun t => f t b) = ((f s b).bind fun t => f t a)

theorem foldlM_perm {f : σ → α → Option σ} (hf : Commutes f) {l l' : List α} (h : l.Perm l')
    (s : σ) : l.foldlM f s = l'.foldlM f s := by
  induction h generalizing s with
  | nil => rfl
  | cons a _ ih =>
    rw [List.foldlM_cons, List.foldlM_cons]
    exact bind_congr fun t => ih t
  | swap a b l =>
    have hcons : ∀ a b, (a :: b :: l).foldlM f s =
        ((f s a).bind fun t => f t b).bind fun t => l.foldlM f t := by
      intro a b
      rw [Option.bind_assoc]
      rfl
    rw [hcons, hcons, hf]
  | trans _ _ ih₁ ih₂ => rw [ih₁, ih₂]

/-- What is seen of a fallible loop, as a loop over what is seen of its items. -/
theorem toOption_foldlM {f : σ → α → Except ε σ} {g : τ → β → Option τ} {view : σ → τ} {c : α → β}
    (h : ∀ s a, (f s a).toOption.map view = g (view s) (c a)) (l : List α) (s : σ) :
    (l.foldlM f s).toOption.map view = (l.map c).foldlM g (view s) := by
  induction l generalizing s with
  | nil => rfl
  | cons a l ih =>
    rw [Check.foldlM_cons, List.map_cons, List.foldlM_cons, ← h]
    cases f s a with
    | error e => rfl
    | ok t => exact ih t

end Commute
