import Mathlib

/-!
Drawing an amount from lots, in order.

`draw skip tolerance needed lots` takes from the lots that are neither empty nor skipped,
each as far as it goes, until no more than `tolerance` is missing.  What is taken and what
stays add up, lot by lot (`draw_conserves`) and for the amount (`draw_total`).  A draw that
leaves nothing missing can be made part by part, with the same lots in the end
(`draw_oneByOne`).
-/

namespace Draw

variable {α F : Type}

/-- The parts taken, the lots that stay, and what is still missing. -/
structure Drawn (α F : Type) where
  parts : List (α × F)
  lots : List (α × F)
  left : F

section

variable [Zero F] [Sub F] [Min F] [LE F] [DecidableLE F]

def draw (skip : α → Bool) (tolerance : F) : F → List (α × F) → Drawn α F
  | needed, [] => ⟨[], [], needed⟩
  | needed, lot :: lots =>
    if decide (lot.2 ≤ 0) || skip lot.1 then
      let rest := draw skip tolerance needed lots
      ⟨rest.parts, lot :: rest.lots, rest.left⟩
    else
      let part := min needed lot.2
      let left := needed - part
      if left ≤ tolerance then ⟨[(lot.1, part)], (lot.1, lot.2 - part) :: lots, left⟩
      else
        let rest := draw skip tolerance left lots
        ⟨(lot.1, part) :: rest.parts, (lot.1, lot.2 - part) :: rest.lots, rest.left⟩

end

/-- The share of the lots that meet `p`. -/
def share [AddMonoid F] (p : α → Bool) (lots : List (α × F)) : F :=
  (lots.map fun lot => if p lot.1 then lot.2 else 0).sum

@[simp] theorem share_nil [AddMonoid F] (p : α → Bool) : share p ([] : List (α × F)) = 0 := rfl

@[simp] theorem share_cons [AddMonoid F] (p : α → Bool) (lot : α × F) (lots : List (α × F)) :
    share p (lot :: lots) = (if p lot.1 then lot.2 else 0) + share p lots := rfl

theorem share_append [AddMonoid F] (p : α → Bool) (l₁ l₂ : List (α × F)) :
    share p (l₁ ++ l₂) = share p l₁ + share p l₂ := by
  simp [share]

variable [AddCommGroup F] [LinearOrder F]

variable {skip : α → Bool} {tolerance needed : F} {lots : List (α × F)}

theorem draw_cons_skip {lot : α × F} (h : lot.2 ≤ 0 ∨ skip lot.1 = true) :
    draw skip tolerance needed (lot :: lots) =
      ⟨(draw skip tolerance needed lots).parts, lot :: (draw skip tolerance needed lots).lots,
        (draw skip tolerance needed lots).left⟩ := by
  rw [draw, if_pos]
  simpa using h

theorem draw_cons_enough {lot : α × F} (h : ¬(lot.2 ≤ 0 ∨ skip lot.1 = true))
    (henough : needed - min needed lot.2 ≤ tolerance) :
    draw skip tolerance needed (lot :: lots) =
      ⟨[(lot.1, min needed lot.2)], (lot.1, lot.2 - min needed lot.2) :: lots,
        needed - min needed lot.2⟩ := by
  rw [draw, if_neg (by simpa using h)]
  exact if_pos henough

theorem draw_cons_more {lot : α × F} (h : ¬(lot.2 ≤ 0 ∨ skip lot.1 = true))
    (hmore : ¬needed - min needed lot.2 ≤ tolerance) :
    draw skip tolerance needed (lot :: lots) =
      ⟨(lot.1, min needed lot.2) ::
          (draw skip tolerance (needed - min needed lot.2) lots).parts,
        (lot.1, lot.2 - min needed lot.2) ::
          (draw skip tolerance (needed - min needed lot.2) lots).lots,
        (draw skip tolerance (needed - min needed lot.2) lots).left⟩ := by
  rw [draw, if_neg (by simpa using h)]
  exact if_neg hmore

/-- What one lot does to a draw: the lot is passed over, it is enough, or it is emptied. -/
theorem draw_induction {P : F → List (α × F) → Drawn α F → Prop}
    (nil : ∀ needed, P needed [] ⟨[], [], needed⟩)
    (passed : ∀ needed lot lots d, lot.2 ≤ 0 ∨ skip lot.1 = true → P needed lots d →
      P needed (lot :: lots) ⟨d.parts, lot :: d.lots, d.left⟩)
    (enough : ∀ needed (lot : α × F) lots, 0 < lot.2 → skip lot.1 = false →
      needed - min needed lot.2 ≤ tolerance →
      P needed (lot :: lots) ⟨[(lot.1, min needed lot.2)],
        (lot.1, lot.2 - min needed lot.2) :: lots, needed - min needed lot.2⟩)
    (emptied : ∀ needed (lot : α × F) lots d, 0 < lot.2 → skip lot.1 = false →
      ¬needed - min needed lot.2 ≤ tolerance → P (needed - min needed lot.2) lots d →
      P needed (lot :: lots) ⟨(lot.1, min needed lot.2) :: d.parts,
        (lot.1, lot.2 - min needed lot.2) :: d.lots, d.left⟩)
    (needed : F) (lots : List (α × F)) : P needed lots (draw skip tolerance needed lots) := by
  induction lots generalizing needed with
  | nil => exact nil needed
  | cons lot lots ih =>
    by_cases hskip : lot.2 ≤ 0 ∨ skip lot.1 = true
    · rw [draw_cons_skip hskip]
      exact passed needed lot lots _ hskip (ih needed)
    · have hlot : 0 < lot.2 ∧ skip lot.1 = false := by
        rw [not_or, not_le, Bool.not_eq_true] at hskip
        exact hskip
      by_cases henough : needed - min needed lot.2 ≤ tolerance
      · rw [draw_cons_enough hskip henough]
        exact enough needed lot lots hlot.1 hlot.2 henough
      · rw [draw_cons_more hskip henough]
        exact emptied needed lot lots _ hlot.1 hlot.2 henough (ih _)

/-! ## What is taken and what stays -/

theorem draw_total (skip : α → Bool) (tolerance needed : F) (lots : List (α × F)) :
    ((draw skip tolerance needed lots).parts.map Prod.snd).sum +
      (draw skip tolerance needed lots).left = needed := by
  apply draw_induction (P := fun needed _ d => (d.parts.map Prod.snd).sum + d.left = needed)
  · intro needed
    simp
  · intro needed lot lots d _ ih
    exact ih
  · intro needed lot lots _ _ _
    simp
  · intro needed lot lots d _ _ _ ih
    show min needed lot.2 + (d.parts.map Prod.snd).sum + d.left = needed
    rw [add_assoc, ih, add_sub_cancel]

/-- No draw changes which lots there are. -/
theorem draw_lots (skip : α → Bool) (tolerance needed : F) (lots : List (α × F)) :
    (draw skip tolerance needed lots).lots.map Prod.fst = lots.map Prod.fst := by
  apply draw_induction (P := fun _ lots d => d.lots.map Prod.fst = lots.map Prod.fst)
  · intro needed
    rfl
  · intro needed lot lots d _ ih
    simp [ih]
  · intro needed lot lots _ _ _
    rfl
  · intro needed lot lots d _ _ _ ih
    simp [ih]

/-- Lot by lot, what is taken and what stays is what there was. -/
theorem draw_conserves (p : α → Bool) (skip : α → Bool) (tolerance needed : F)
    (lots : List (α × F)) :
    share p (draw skip tolerance needed lots).parts +
      share p (draw skip tolerance needed lots).lots = share p lots := by
  apply draw_induction (P := fun _ lots d => share p d.parts + share p d.lots = share p lots)
  · intro needed
    simp
  · intro needed lot lots d _ ih
    rw [share_cons, share_cons, add_left_comm, ih]
  · intro needed lot lots _ _ _
    simp only [share_cons, share_nil]
    split
    · abel
    · abel
  · intro needed lot lots d _ _ _ ih
    simp only [share_cons, ← ih]
    split
    · abel
    · abel

/-- Every part is something, of a lot that is not skipped. -/
theorem mem_parts (htolerance : 0 ≤ tolerance) (h : 0 < needed) :
    ∀ part ∈ (draw skip tolerance needed lots).parts,
      0 < part.2 ∧ skip part.1 = false ∧ part.1 ∈ lots.map Prod.fst := by
  revert h
  apply draw_induction (P := fun needed lots d => 0 < needed →
    ∀ part ∈ d.parts, 0 < part.2 ∧ skip part.1 = false ∧ part.1 ∈ lots.map Prod.fst)
  · intro needed _ part hpart
    exact absurd hpart List.not_mem_nil
  · intro needed lot lots d _ ih h part hpart
    obtain ⟨hpos, hskip, hmem⟩ := ih h part hpart
    exact ⟨hpos, hskip, List.mem_cons_of_mem _ hmem⟩
  · intro needed lot lots hlot hskip _ h part hpart
    obtain rfl := List.mem_singleton.1 hpart
    exact ⟨lt_min h hlot, hskip, List.mem_cons_self⟩
  · intro needed lot lots d hlot hskip hmore ih h part hpart
    rcases List.mem_cons.1 hpart with rfl | hpart
    · exact ⟨lt_min h hlot, hskip, List.mem_cons_self⟩
    · obtain ⟨hpos, hskip, hmem⟩ := ih (htolerance.trans_lt (not_le.1 hmore)) part hpart
      exact ⟨hpos, hskip, List.mem_cons_of_mem _ hmem⟩

/-- An amount and lots of one subgroup leave lots and a rest of it. -/
theorem draw_mem (skip : α → Bool) (tolerance : F) (G : AddSubgroup F) (h : needed ∈ G)
    (hlots : ∀ lot ∈ lots, lot.2 ∈ G) :
    (draw skip tolerance needed lots).left ∈ G ∧
      ∀ lot ∈ (draw skip tolerance needed lots).lots, lot.2 ∈ G := by
  have hmin : ∀ {a b : F}, a ∈ G → b ∈ G → min a b ∈ G := by
    intro a b ha hb
    rcases min_choice a b with hab | hab
    · rw [hab]; exact ha
    · rw [hab]; exact hb
  revert h hlots
  apply draw_induction (P := fun needed lots d => needed ∈ G → (∀ lot ∈ lots, lot.2 ∈ G) →
    d.left ∈ G ∧ ∀ lot ∈ d.lots, lot.2 ∈ G)
  · intro needed h hlots
    exact ⟨h, hlots⟩
  · intro needed lot lots d _ ih h hlots
    rw [List.forall_mem_cons] at hlots
    obtain ⟨hleft, hrest⟩ := ih h hlots.2
    exact ⟨hleft, List.forall_mem_cons.2 ⟨hlots.1, hrest⟩⟩
  · intro needed lot lots _ _ _ h hlots
    rw [List.forall_mem_cons] at hlots
    have hpart := hmin h hlots.1
    exact ⟨G.sub_mem h hpart, List.forall_mem_cons.2 ⟨G.sub_mem hlots.1 hpart, hlots.2⟩⟩
  · intro needed lot lots d _ _ _ ih h hlots
    rw [List.forall_mem_cons] at hlots
    have hpart := hmin h hlots.1
    obtain ⟨hleft, hrest⟩ := ih (G.sub_mem h hpart) hlots.2
    exact ⟨hleft, List.forall_mem_cons.2 ⟨G.sub_mem hlots.1 hpart, hrest⟩⟩

/-! ## A draw again, part by part -/

/-- The first lot that counts has enough. -/
theorem draw_cons_le {lot : α × F} (htolerance : 0 ≤ tolerance) (h : 0 < lot.2)
    (hskip : skip lot.1 = false) (hneeded : needed ≤ lot.2) :
    draw skip tolerance needed (lot :: lots) =
      ⟨[(lot.1, needed)], (lot.1, lot.2 - needed) :: lots, 0⟩ := by
  have hmin : min needed lot.2 = needed := min_eq_left hneeded
  rw [draw_cons_enough, hmin, sub_self]
  · rw [hskip, not_or, not_le]
    exact ⟨h, Bool.false_ne_true⟩
  · rw [hmin, sub_self]
    exact htolerance

/-- Each part is what a draw of its amount takes from the lots the ones before it leave. -/
inductive OneByOne (skip : α → Bool) : List (α × F) → List (α × F) → List (α × F) → Prop
  | nil (lots : List (α × F)) : OneByOne skip [] lots lots
  | cons {part : α × F} {parts lots lots' lots'' : List (α × F)} :
      (∀ tolerance, 0 ≤ tolerance →
        draw skip tolerance part.2 lots = ⟨[part], lots', 0⟩) →
      OneByOne skip parts lots' lots'' → OneByOne skip (part :: parts) lots lots''

theorem OneByOne.cons_skip {parts lots' : List (α × F)} (h : OneByOne skip parts lots lots')
    {lot : α × F} (hlot : lot.2 ≤ 0 ∨ skip lot.1 = true) :
    OneByOne skip parts (lot :: lots) (lot :: lots') := by
  induction h with
  | nil lots => exact OneByOne.nil (lot :: lots)
  | cons hpart _ ih =>
    refine OneByOne.cons (fun tolerance htolerance => ?_) ih
    rw [draw_cons_skip hlot, hpart tolerance htolerance]

variable [IsOrderedAddMonoid F]

/-- A draw that leaves nothing missing, made part by part. -/
theorem draw_oneByOne (htolerance : 0 ≤ tolerance) (h : 0 < needed)
    (hleft : (draw skip tolerance needed lots).left = 0) :
    OneByOne skip (draw skip tolerance needed lots).parts lots
      (draw skip tolerance needed lots).lots := by
  revert h hleft
  apply draw_induction (P := fun needed lots d => 0 < needed → d.left = 0 →
    OneByOne skip d.parts lots d.lots)
  · intro needed _ _
    exact OneByOne.nil []
  · intro needed lot lots d hskip ih h hleft
    exact (ih h hleft).cons_skip hskip
  · intro needed lot lots hlot hskip _ _ hleft
    have hmin : min needed lot.2 = needed := (sub_eq_zero.1 hleft).symm
    rw [hmin]
    refine OneByOne.cons (fun tolerance htolerance => ?_) (OneByOne.nil _)
    exact draw_cons_le htolerance hlot hskip (min_eq_left_iff.1 hmin)
  · intro needed lot lots d hlot hskip hmore ih h hleft
    -- the lot is emptied, and passed over from then on
    have hlt : lot.2 < needed := by
      by_contra hle
      rw [not_lt] at hle
      rw [min_eq_left hle, sub_self] at hmore
      exact hmore htolerance
    have hmin : min needed lot.2 = lot.2 := min_eq_right hlt.le
    rw [hmin] at ih ⊢
    have hrest := ih (sub_pos.2 hlt) hleft
    rw [sub_self]
    have hfirst : ∀ tolerance, 0 ≤ tolerance → draw skip tolerance lot.2 (lot :: lots) =
        ⟨[(lot.1, lot.2)], (lot.1, 0) :: lots, 0⟩ := by
      intro tolerance htolerance
      rw [draw_cons_le htolerance hlot hskip le_rfl, sub_self]
    exact OneByOne.cons hfirst (hrest.cons_skip (Or.inl le_rfl))

/-! ## Signs -/

theorem share_nonneg {p : α → Bool} (h : ∀ lot ∈ lots, 0 ≤ lot.2) : 0 ≤ share p lots := by
  apply List.sum_nonneg
  intro x hx
  obtain ⟨lot, hlot, rfl⟩ := List.mem_map.1 hx
  split
  · exact h lot hlot
  · exact le_rfl

theorem draw_lots_nonneg (h : ∀ lot ∈ lots, 0 ≤ lot.2) :
    ∀ lot ∈ (draw skip tolerance needed lots).lots, 0 ≤ lot.2 := by
  revert h
  apply draw_induction (P := fun _ lots d => (∀ lot ∈ lots, 0 ≤ lot.2) → ∀ lot ∈ d.lots, 0 ≤ lot.2)
  · intro needed _ lot hlot
    exact absurd hlot List.not_mem_nil
  · intro needed lot lots d _ ih h
    rw [List.forall_mem_cons] at h ⊢
    exact ⟨h.1, ih h.2⟩
  · intro needed lot lots _ _ _ h
    rw [List.forall_mem_cons] at h ⊢
    exact ⟨sub_nonneg.2 (min_le_right _ _), h.2⟩
  · intro needed lot lots d _ _ _ ih h
    rw [List.forall_mem_cons] at h ⊢
    exact ⟨sub_nonneg.2 (min_le_right _ _), ih h.2⟩

theorem draw_left_nonneg (h : 0 ≤ needed) : 0 ≤ (draw skip tolerance needed lots).left := by
  revert h
  apply draw_induction (P := fun needed _ d => 0 ≤ needed → 0 ≤ d.left)
  · intro needed h
    exact h
  · intro needed lot lots d _ ih h
    exact ih h
  · intro needed lot lots _ _ _ _
    exact sub_nonneg.2 (min_le_left _ _)
  · intro needed lot lots d _ _ _ ih _
    exact ih (sub_nonneg.2 (min_le_left _ _))

end Draw
