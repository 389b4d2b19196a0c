import CtaManager.Nav.FillRecovery

/-!
Lifecycle rows against the executions of their order, in exact arithmetic.

A row that is matched is kept with the role of its executions, or split where they have
different ones.  No quantity of an execution is used twice (`matchRows_taken`), and no
price, time or quantity of the lifecycle changes (`matchRows_pointTotal`).  Where no
quantity is left over, the rows match again, each what it was made from
(`matchRows_again`).
-/

namespace CtaManager.FillRecovery

open Check

variable {event row : NavEvent ℚ} {remaining remaining' : List (Fill ℚ × ℚ)}
  {events rows : List (NavEvent ℚ)}

/-! ## Rows of one fill -/

/-- `row` is `event` but for its key, quantity and role. -/
def SameFill (event row : NavEvent ℚ) : Prop :=
  row = { event with
    recordKey := row.recordKey
    amountUpdate := row.amountUpdate
    fillLiquidity := row.fillLiquidity }

theorem SameFill.refl (event : NavEvent ℚ) : SameFill event event := rfl

theorem SameFill.elsewhere_eq (h : SameFill event row) : elsewhere row = elsewhere event := by
  rw [h]
  rfl

theorem SameFill.price_eq (h : SameFill event row) : row.price = event.price := by
  rw [h]

theorem withRole_eq_ok {role : Option FillLiquidity} (h : withRole event role = .ok row) :
    row = { event with fillLiquidity := role.or event.fillLiquidity } := by
  cases role with
  | none =>
    cases h
    rfl
  | some role =>
    obtain ⟨_, _, h⟩ := bind_eq_ok.1 h
    cases h
    rfl

/-- A row that has the role takes it again. -/
theorem withRole_of_eq {role : Option FillLiquidity}
    (h : ∀ r, role = some r → event.fillLiquidity = some r) : withRole event role = .ok event := by
  cases role with
  | none => rfl
  | some role =>
    have hevent := h role rfl
    show (ensure (event.fillLiquidity.all _) _ >>= fun _ => _) = _
    rw [hevent]
    have hrole : (Option.all (fun old => old == FillLiquidity.unknown || old == role)
        (some role)) = true := by simp
    rw [hrole, ensure_true, ok_bind, ← hevent]
    rfl

/-! ## A row in parts -/

def partRow (event : NavEvent ℚ) (i : Nat) (fill : Fill ℚ) (amount : ℚ) : NavEvent ℚ :=
  { event with
    recordKey := event.recordKey ++ ":liquidity:" ++ PaddedDecimal.pad 8 i
    amountUpdate := amount
    fillLiquidity := fill.liquidity.or event.fillLiquidity }

/-- The parts of a row: each has the quantity of its execution, the last one also what is
left over. -/
inductive Split (event : NavEvent ℚ) (extra : ℚ) :
    Nat → List (Fill ℚ × ℚ) → List (NavEvent ℚ) → Prop
  | last (i : Nat) (part : Fill ℚ × ℚ) :
      Split event extra i [part] [partRow event i part.1 (part.2 + extra)]
  | cons {i : Nat} {parts : List (Fill ℚ × ℚ)} {rows : List (NavEvent ℚ)} (part : Fill ℚ × ℚ) :
      Split event extra (i + 1) parts rows →
      Split event extra i (part :: parts) (partRow event i part.1 part.2 :: rows)

theorem splitRows_split {i : Nat} {used : ℚ} {parts : List (Fill ℚ × ℚ)} (hne : parts ≠ [])
    (h : splitRows event i used parts = .ok rows) :
    Split event (event.amountUpdate - used - (parts.map Prod.snd).sum) i parts rows := by
  induction parts generalizing i used rows with
  | nil => exact absurd rfl hne
  | cons part parts ih =>
    obtain ⟨fill, quantity⟩ := part
    obtain ⟨first, hfirst, h⟩ := bind_eq_ok.1 h
    obtain ⟨rest, hrest, h⟩ := bind_eq_ok.1 h
    cases h
    rw [withRole_eq_ok hfirst]
    cases parts with
    | nil =>
      cases hrest
      have hamount : event.amountUpdate - used =
          quantity + (event.amountUpdate - used - ([(fill, quantity)].map Prod.snd).sum) := by
        simp
      have hlast : Split event (event.amountUpdate - used - ([(fill, quantity)].map Prod.snd).sum) i
          [(fill, quantity)] [partRow event i fill (quantity +
            (event.amountUpdate - used - ([(fill, quantity)].map Prod.snd).sum))] :=
        Split.last i (fill, quantity)
      rw [← hamount] at hlast
      exact hlast
    | cons next parts =>
      have hsplit := ih (List.cons_ne_nil _ _) hrest
      have hextra : event.amountUpdate - (used + quantity) - ((next :: parts).map Prod.snd).sum =
          event.amountUpdate - used - (((fill, quantity) :: next :: parts).map Prod.snd).sum := by
        simp only [List.map_cons, List.sum_cons]
        ring
      change Split event (event.amountUpdate - (used + quantity) - _) _ _ _ at hsplit
      rw [hextra] at hsplit
      exact Split.cons (fill, quantity) hsplit

namespace Split

variable {extra : ℚ} {i : Nat} {parts : List (Fill ℚ × ℚ)}

theorem sameFill (h : Split event extra i parts rows) : ∀ row ∈ rows, SameFill event row := by
  induction h with
  | last i part =>
    intro row hrow
    obtain rfl := List.mem_singleton.1 hrow
    rfl
  | cons part _ ih => exact List.forall_mem_cons.2 ⟨rfl, ih⟩

theorem sum_amounts (h : Split event extra i parts rows) :
    (rows.map NavEvent.amountUpdate).sum = (parts.map Prod.snd).sum + extra := by
  induction h with
  | last i part => simp [partRow]
  | cons part _ ih =>
    rw [List.map_cons, List.sum_cons, ih, List.map_cons, List.sum_cons, ← add_assoc]
    rfl

/-- The key of the row at `i`, and the order of the keys. -/
theorem keys (h : Split event extra i parts rows) (hcount : i + parts.length ≤ 10 ^ 8) :
    rows.Pairwise (fun a b => a.recordKey < b.recordKey) ∧
      ∀ row ∈ rows, ∃ j, i ≤ j ∧ j < 10 ^ 8 ∧
        row.recordKey = event.recordKey ++ ":liquidity:" ++ PaddedDecimal.pad 8 j := by
  induction h with
  | last i part =>
    have hi : i < 10 ^ 8 := by
      rw [List.length_singleton] at hcount
      omega
    refine ⟨List.pairwise_singleton _ _, fun row hrow => ?_⟩
    obtain rfl := List.mem_singleton.1 hrow
    exact ⟨i, Nat.le_refl i, hi, rfl⟩
  | @cons i parts rows part _ ih =>
    rw [List.length_cons] at hcount
    obtain ⟨hsorted, hkeys⟩ := ih (by omega)
    have hi : i < 10 ^ 8 := by omega
    refine ⟨List.pairwise_cons.2 ⟨fun row hrow => ?_, hsorted⟩,
      List.forall_mem_cons.2 ⟨⟨i, Nat.le_refl i, hi, rfl⟩, fun row hrow => ?_⟩⟩
    · obtain ⟨j, hij, hj, hkey⟩ := hkeys row hrow
      have hpad : PaddedDecimal.pad 8 i < PaddedDecimal.pad 8 j :=
        PaddedDecimal.pad_lt_pad (by omega) hj
      rw [hkey]
      show event.recordKey ++ ":liquidity:" ++ PaddedDecimal.pad 8 i < _
      simp only [String.lt_iff_toList_lt, String.toList_append]
      exact List.append_left_lt hpad
    · obtain ⟨j, hij, hj, hkey⟩ := hkeys row hrow
      exact ⟨j, by omega, hj, hkey⟩

/-- Each row with its part. -/
theorem drawn (h : Split event extra i parts rows) :
    ∃ drawn : List (NavEvent ℚ × List (Fill ℚ × ℚ)), drawn.map Prod.fst = rows ∧
      drawn.flatMap Prod.snd = parts ∧
      ∀ d ∈ drawn, ∃ part ∈ parts, d.2 = [part] ∧ |d.1.amountUpdate - part.2| ≤ |extra| ∧
        d.1.fillLiquidity = part.1.liquidity.or event.fillLiquidity := by
  induction h with
  | last i part =>
    refine ⟨[(_, [part])], rfl, rfl, List.forall_mem_singleton.2
      ⟨part, List.mem_singleton_self part, rfl, ?_, rfl⟩⟩
    show |part.2 + extra - part.2| ≤ |extra|
    rw [add_sub_cancel_left]
  | @cons i parts rows part _ ih =>
    obtain ⟨drawn, hfst, hsnd, hdrawn⟩ := ih
    refine ⟨(partRow event i part.1 part.2, [part]) :: drawn, ?_, ?_, List.forall_mem_cons.2
      ⟨⟨part, List.mem_cons_self, rfl, ?_, rfl⟩, fun d hd => ?_⟩⟩
    · rw [List.map_cons, hfst]
    · rw [List.flatMap_cons, hsnd]
      rfl
    · show |part.2 - part.2| ≤ |extra|
      rw [sub_self, abs_zero]
      exact abs_nonneg extra
    · obtain ⟨part', hmem, hpart'⟩ := hdrawn d hd
      exact ⟨part', List.mem_cons_of_mem _ hmem, hpart'⟩

end Split

/-! ## One row -/

/-- What a row takes from the executions. -/
def drawnFor (remaining : List (Fill ℚ × ℚ)) (event : NavEvent ℚ) : Draw.Drawn (Fill ℚ) ℚ :=
  Draw.draw (elsewhere event) (F64.abs event.amountUpdate * F64.eps12) event.amountUpdate remaining

theorem tolerance_nonneg (amount : ℚ) : 0 ≤ F64.abs amount * F64.eps12 := by
  apply mul_nonneg
  · exact abs_nonneg amount
  · show (0 : ℚ) ≤ 1 / 1000000000000
    norm_num

theorem matchRow_drawn (hpos : 0 < event.amountUpdate) :
    matchRow remaining event =
      if F64.abs event.amountUpdate * F64.eps12 < (drawnFor remaining event).left then
        .ok (remaining, [event])
      else if (drawnFor remaining event).parts.all fun part => part.1.liquidity ==
          (drawnFor remaining event).parts.head?.bind fun part => part.1.liquidity then do
        let row ← withRole event
          ((drawnFor remaining event).parts.head?.bind fun part => part.1.liquidity)
        return ((drawnFor remaining event).lots, [row])
      else do
        let rows ← splitRows event 0 0 (drawnFor remaining event).parts
        return ((drawnFor remaining event).lots, rows) := by
  rw [matchRow, if_neg (not_le.2 hpos)]
  rfl

/-- A row is kept, takes the one role of its executions, or is split. -/
theorem matchRow_cases (h : matchRow remaining event = .ok (remaining', rows)) :
    (remaining' = remaining ∧ rows = [event]) ∨
      (0 < event.amountUpdate ∧
        (drawnFor remaining event).left ≤ F64.abs event.amountUpdate * F64.eps12 ∧
        remaining' = (drawnFor remaining event).lots ∧
        ((∃ role row, (∀ part ∈ (drawnFor remaining event).parts, part.1.liquidity = role) ∧
            withRole event role = .ok row ∧ rows = [row]) ∨
          Split event (drawnFor remaining event).left 0 (drawnFor remaining event).parts rows)) := by
  by_cases hpos : event.amountUpdate ≤ 0
  · rw [matchRow, if_pos hpos] at h
    cases h
    exact Or.inl ⟨rfl, rfl⟩
  · rw [matchRow_drawn (not_le.1 hpos)] at h
    split at h
    · cases h
      exact Or.inl ⟨rfl, rfl⟩
    · next hleft =>
      refine Or.inr ⟨not_le.1 hpos, not_lt.1 hleft, ?_⟩
      split at h
      · next hall =>
        obtain ⟨row, hrow, h⟩ := bind_eq_ok.1 h
        cases h
        refine ⟨rfl, Or.inl ⟨_, row, fun part hpart => ?_, hrow, rfl⟩⟩
        exact beq_iff_eq.1 (List.all_eq_true.1 hall part hpart)
      · next hall =>
        obtain ⟨parts, hparts, h⟩ := bind_eq_ok.1 h
        cases h
        refine ⟨rfl, Or.inr ?_⟩
        have hne : (drawnFor remaining event).parts ≠ [] := by
          intro hnil
          rw [hnil] at hall
          exact hall rfl
        have hsplit := splitRows_split hne hparts
        have htotal : ((drawnFor remaining event).parts.map Prod.snd).sum +
            (drawnFor remaining event).left = event.amountUpdate := Draw.draw_total _ _ _ _
        have hextra : event.amountUpdate - 0 - ((drawnFor remaining event).parts.map Prod.snd).sum =
            (drawnFor remaining event).left := by
          linarith
        change Split event (event.amountUpdate - 0 -
          ((drawnFor remaining event).parts.map Prod.snd).sum) _ _ _ at hsplit
        rw [hextra] at hsplit
        exact hsplit

/-- The rows of one fill have its price, time and quantity together. -/
theorem matchRow_sameFill (h : matchRow remaining event = .ok (remaining', rows)) :
    (∀ row ∈ rows, SameFill event row) ∧
      (rows.map NavEvent.amountUpdate).sum = event.amountUpdate := by
  rcases matchRow_cases h with ⟨_, rfl⟩ | ⟨_, _, _, ⟨role, row, _, hrow, rfl⟩ | hsplit⟩
  · exact ⟨List.forall_mem_singleton.2 (SameFill.refl event), by simp⟩
  · rw [withRole_eq_ok hrow]
    exact ⟨List.forall_mem_singleton.2 rfl, by simp⟩
  · refine ⟨hsplit.sameFill, ?_⟩
    rw [hsplit.sum_amounts]
    exact Draw.draw_total _ _ _ _

theorem matchRow_nonneg (h : matchRow remaining event = .ok (remaining', rows))
    (hremaining : ∀ lot ∈ remaining, 0 ≤ lot.2) : ∀ lot ∈ remaining', 0 ≤ lot.2 := by
  rcases matchRow_cases h with ⟨rfl, _⟩ | ⟨_, _, rfl, _⟩
  · exact hremaining
  · exact Draw.draw_lots_nonneg hremaining

theorem matchRow_lots (h : matchRow remaining event = .ok (remaining', rows)) :
    remaining'.map Prod.fst = remaining.map Prod.fst := by
  rcases matchRow_cases h with ⟨rfl, _⟩ | ⟨_, _, rfl, _⟩
  · rfl
  · exact Draw.draw_lots _ _ _ _

/-! ## What a row is made from -/

/-- A row that is covered by what it takes from executions. -/
structure Covered (original : List (NavEvent ℚ)) (order : List (Fill ℚ)) (row : NavEvent ℚ)
    (uses : List (Fill ℚ × ℚ)) : Prop where
  quantity : ∃ event ∈ original,
    |row.amountUpdate - (uses.map Prod.snd).sum| ≤ |event.amountUpdate| * F64.eps12
  uses : ∀ use ∈ uses, use.1 ∈ order ∧ 0 < use.2 ∧ elsewhere row use.1 = false ∧
    ∀ role, use.1.liquidity = some role → row.fillLiquidity = some role

/-- A row of the result with what it takes: an original row that takes nothing, or a row
covered by executions. -/
def Taken (original : List (NavEvent ℚ)) (order : List (Fill ℚ))
    (drawn : NavEvent ℚ × List (Fill ℚ × ℚ)) : Prop :=
  (drawn.2 = [] ∧ drawn.1 ∈ original) ∨ Covered original order drawn.1 drawn.2

theorem Taken.mono {original original' : List (NavEvent ℚ)} {order : List (Fill ℚ)}
    {drawn : NavEvent ℚ × List (Fill ℚ × ℚ)} (hsub : ∀ event ∈ original, event ∈ original')
    (h : Taken original order drawn) : Taken original' order drawn := by
  rcases h with ⟨hnil, hmem⟩ | ⟨⟨event, hevent, hquantity⟩, huses⟩
  · exact Or.inl ⟨hnil, hsub _ hmem⟩
  · exact Or.inr ⟨⟨event, hsub _ hevent, hquantity⟩, huses⟩

/-- One row: what its rows take is what the executions lose. -/
theorem matchRow_taken (h : matchRow remaining event = .ok (remaining', rows)) :
    ∃ drawn : List (NavEvent ℚ × List (Fill ℚ × ℚ)), drawn.map Prod.fst = rows ∧
      (∀ p, Draw.share p (drawn.flatMap Prod.snd) + Draw.share p remaining' =
        Draw.share p remaining) ∧
      ∀ d ∈ drawn, Taken [event] (remaining.map Prod.fst) d := by
  rcases matchRow_cases h with ⟨rfl, rfl⟩ | ⟨hpos, hleft, rfl, hrows⟩
  · refine ⟨[(event, [])], rfl, fun p => ?_, ?_⟩
    · simp
    · exact List.forall_mem_singleton.2 (Or.inl ⟨rfl, List.mem_singleton_self event⟩)
  · have hparts : ∀ part ∈ (drawnFor remaining event).parts,
        0 < part.2 ∧ elsewhere event part.1 = false ∧ part.1 ∈ remaining.map Prod.fst :=
      Draw.mem_parts (tolerance_nonneg _) hpos
    have hnonneg : 0 ≤ (drawnFor remaining event).left := Draw.draw_left_nonneg hpos.le
    have habs : |(drawnFor remaining event).left| ≤ |event.amountUpdate| * F64.eps12 := by
      rw [abs_of_nonneg hnonneg]
      exact hleft
    have hconserves : ∀ p, Draw.share p (drawnFor remaining event).parts +
        Draw.share p (drawnFor remaining event).lots = Draw.share p remaining := fun p =>
      Draw.draw_conserves p _ _ _ _
    rcases hrows with ⟨role, row, hrole, hrow, rfl⟩ | hsplit
    · have hrow' := withRole_eq_ok hrow
      refine ⟨[(row, (drawnFor remaining event).parts)], rfl, fun p => ?_, ?_⟩
      · rw [List.flatMap_cons, List.flatMap_nil, List.append_nil]
        exact hconserves p
      · refine List.forall_mem_singleton.2 (Or.inr ⟨⟨event, List.mem_singleton_self event, ?_⟩, ?_⟩)
        · have htotal : ((drawnFor remaining event).parts.map Prod.snd).sum +
              (drawnFor remaining event).left = event.amountUpdate := Draw.draw_total _ _ _ _
          have hrest : row.amountUpdate - ((drawnFor remaining event).parts.map Prod.snd).sum =
              (drawnFor remaining event).left := by
            rw [hrow']
            show event.amountUpdate - _ = _
            linarith
          show |row.amountUpdate - ((drawnFor remaining event).parts.map Prod.snd).sum| ≤ _
          rw [hrest]
          exact habs
        · intro part hpart
          obtain ⟨hquantity, hwhere, hmem⟩ := hparts part hpart
          refine ⟨hmem, hquantity, ?_, fun r hr => ?_⟩
          · rw [hrow']
            exact hwhere
          · rw [hrow', ← hrole part hpart, hr]
            rfl
    · obtain ⟨drawn, hfst, hsnd, hdrawn⟩ := hsplit.drawn
      refine ⟨drawn, hfst, fun p => ?_, fun d hd => ?_⟩
      · rw [hsnd]
        exact hconserves p
      · obtain ⟨part, hpart, huses, hquantity, hliquidity⟩ := hdrawn d hd
        obtain ⟨hpositive, hwhere, hmem⟩ := hparts part hpart
        have hsame : SameFill event d.1 :=
          hsplit.sameFill d.1 (hfst ▸ List.mem_map_of_mem hd)
        refine Or.inr ⟨⟨event, List.mem_singleton_self event, ?_⟩, ?_⟩
        · rw [huses, List.map_singleton, List.sum_singleton]
          exact hquantity.trans habs
        · rw [huses]
          refine List.forall_mem_singleton.2 ⟨hmem, hpositive, ?_, fun r hr => ?_⟩
          · rw [hsame.elsewhere_eq]
            exact hwhere
          · rw [hliquidity, hr]
            rfl

/-! ## All rows -/

theorem matchRows_cons (h : matchRows remaining (event :: events) = .ok rows) :
    ∃ remaining' first rest, matchRow remaining event = .ok (remaining', first) ∧
      matchRows remaining' events = .ok rest ∧ rows = first ++ rest := by
  obtain ⟨⟨remaining', first⟩, hfirst, h⟩ := bind_eq_ok.1 h
  obtain ⟨rest, hrest, h⟩ := bind_eq_ok.1 h
  cases h
  exact ⟨remaining', first, rest, hfirst, hrest, rfl⟩

theorem matchRows_of_ok {first rest : List (NavEvent ℚ)}
    (hfirst : matchRow remaining event = .ok (remaining', first))
    (hrest : matchRows remaining' events = .ok rest) :
    matchRows remaining (event :: events) = .ok (first ++ rest) := by
  rw [matchRows, hfirst, ok_bind]
  show (matchRows remaining' events >>= fun _ => _) = _
  rw [hrest]
  rfl

theorem matchRows_sameFill (h : matchRows remaining events = .ok rows) :
    ∀ row ∈ rows, ∃ event ∈ events, SameFill event row := by
  induction events generalizing remaining rows with
  | nil =>
    cases h
    exact fun row hrow => absurd hrow List.not_mem_nil
  | cons event events ih =>
    obtain ⟨remaining', first, rest, hfirst, hrest, rfl⟩ := matchRows_cons h
    intro row hrow
    rcases List.mem_append.1 hrow with hrow | hrow
    · exact ⟨event, List.mem_cons_self, (matchRow_sameFill hfirst).1 row hrow⟩
    · obtain ⟨event', hevent', hsame⟩ := ih hrest row hrow
      exact ⟨event', List.mem_cons_of_mem _ hevent', hsame⟩

/-- The quantity filled at one price and time. -/
def pointTotal (price : ℚ) (tsUs : Int) (events : List (NavEvent ℚ)) : ℚ :=
  amountTotal (events.filter fun event => event.price = price ∧ event.updateTsUs = tsUs)

theorem amountTotal_append (l₁ l₂ : List (NavEvent ℚ)) :
    amountTotal (l₁ ++ l₂) = amountTotal l₁ + amountTotal l₂ := by
  unfold amountTotal
  rw [List.map_append, Exact.sum_eq, Exact.sum_eq, Exact.sum_eq, List.sum_append]

theorem pointTotal_append (price : ℚ) (tsUs : Int) (l₁ l₂ : List (NavEvent ℚ)) :
    pointTotal price tsUs (l₁ ++ l₂) = pointTotal price tsUs l₁ + pointTotal price tsUs l₂ := by
  unfold pointTotal
  rw [List.filter_append, amountTotal_append]

theorem pointTotal_of_sameFill (hsame : ∀ row ∈ rows, SameFill event row)
    (hsum : (rows.map NavEvent.amountUpdate).sum = event.amountUpdate) (price : ℚ) (tsUs : Int) :
    pointTotal price tsUs rows = pointTotal price tsUs [event] := by
  unfold pointTotal amountTotal
  have hfilter : rows.filter (fun row => row.price = price ∧ row.updateTsUs = tsUs) =
      rows.filter fun _ => event.price = price ∧ event.updateTsUs = tsUs := by
    apply List.filter_congr
    intro row hrow
    rw [hsame row hrow]
  rw [hfilter, Exact.sum_eq, Exact.sum_eq]
  by_cases hpoint : event.price = price ∧ event.updateTsUs = tsUs
  · simp [hpoint, hsum]
  · simp [hpoint]

/-- No price, time or quantity of the lifecycle changes. -/
theorem matchRows_pointTotal (h : matchRows remaining events = .ok rows) (price : ℚ) (tsUs : Int) :
    pointTotal price tsUs rows = pointTotal price tsUs events := by
  induction events generalizing remaining rows with
  | nil =>
    cases h
    rfl
  | cons event events ih =>
    obtain ⟨remaining', first, rest, hfirst, hrest, rfl⟩ := matchRows_cons h
    obtain ⟨hsame, hsum⟩ := matchRow_sameFill hfirst
    rw [pointTotal_append, pointTotal_of_sameFill hsame hsum, ih hrest, ← pointTotal_append]
    rfl

theorem matchRows_amountTotal (h : matchRows remaining events = .ok rows) :
    amountTotal rows = amountTotal events := by
  induction events generalizing remaining rows with
  | nil =>
    cases h
    rfl
  | cons event events ih =>
    obtain ⟨remaining', first, rest, hfirst, hrest, rfl⟩ := matchRows_cons h
    have hevent : amountTotal first = amountTotal [event] := by
      unfold amountTotal
      rw [Exact.sum_eq, Exact.sum_eq, (matchRow_sameFill hfirst).2]
      simp
    rw [amountTotal_append, ih hrest, hevent, ← amountTotal_append]
    rfl

/-- No quantity of an execution is used twice. -/
theorem matchRows_taken (h : matchRows remaining events = .ok rows)
    (hremaining : ∀ lot ∈ remaining, 0 ≤ lot.2) :
    ∃ drawn : List (NavEvent ℚ × List (Fill ℚ × ℚ)), drawn.map Prod.fst = rows ∧
      (∀ p, Draw.share p (drawn.flatMap Prod.snd) ≤ Draw.share p remaining) ∧
      ∀ d ∈ drawn, Taken events (remaining.map Prod.fst) d := by
  induction events generalizing remaining rows with
  | nil =>
    cases h
    refine ⟨[], rfl, fun p => ?_, fun d hd => absurd hd List.not_mem_nil⟩
    exact Draw.share_nonneg hremaining
  | cons event events ih =>
    obtain ⟨remaining', first, rest, hfirst, hrest, rfl⟩ := matchRows_cons h
    obtain ⟨drawn₁, hfst₁, hshare₁, htaken₁⟩ := matchRow_taken hfirst
    obtain ⟨drawn₂, hfst₂, hshare₂, htaken₂⟩ := ih hrest (matchRow_nonneg hfirst hremaining)
    rw [matchRow_lots hfirst] at htaken₂
    refine ⟨drawn₁ ++ drawn₂, ?_, fun p => ?_, fun d hd => ?_⟩
    · rw [List.map_append, hfst₁, hfst₂]
    · rw [List.flatMap_append, Draw.share_append, ← hshare₁ p]
      exact add_le_add_right (hshare₂ p) _
    · rcases List.mem_append.1 hd with hd | hd
      · refine (htaken₁ d hd).mono fun e he => ?_
        obtain rfl := List.mem_singleton.1 he
        exact List.mem_cons_self
      · exact (htaken₂ d hd).mono fun e he => List.mem_cons_of_mem _ he

/-! ## Rows that match again -/

/-- A row that has the one role of what it draws stays as it is. -/
theorem matchRow_keeps (remaining : List (Fill ℚ × ℚ)) (row : NavEvent ℚ)
    (hpos : 0 < row.amountUpdate)
    (hleft : (drawnFor remaining row).left ≤ F64.abs row.amountUpdate * F64.eps12)
    (role : Option FillLiquidity)
    (hparts : ∀ part ∈ (drawnFor remaining row).parts, part.1.liquidity = role)
    (hrole : ∀ r, role = some r → row.fillLiquidity = some r) :
    matchRow remaining row = .ok ((drawnFor remaining row).lots, [row]) := by
  rw [matchRow_drawn hpos, if_neg (not_lt.2 hleft)]
  cases hlist : (drawnFor remaining row).parts with
  | nil => rfl
  | cons part parts =>
    rw [hlist] at hparts
    have hfirst : part.1.liquidity = role := hparts part List.mem_cons_self
    have hall : ((part :: parts).all fun part' => part'.1.liquidity ==
        (part :: parts).head?.bind fun part => part.1.liquidity) = true := by
      rw [List.all_eq_true]
      intro part' hpart'
      rw [beq_iff_eq, hparts part' hpart']
      exact hfirst.symm
    rw [if_pos hall]
    show (withRole row part.1.liquidity >>= fun _ => _) = _
    rw [hfirst, withRole_of_eq hrole]
    rfl

/-- The rows of a split with nothing left over, in front of other rows. -/
theorem Split.matchRows {i : Nat} {parts lots lots' : List (Fill ℚ × ℚ)}
    (h : Split event 0 i parts rows) (hdraws : Draw.OneByOne (elsewhere event) parts lots lots')
    (hpositive : ∀ part ∈ parts, 0 < part.2) {tail tail' : List (NavEvent ℚ)}
    (htail : matchRows lots' tail = .ok tail') :
    matchRows lots (rows ++ tail) = .ok (rows ++ tail') := by
  have hone : ∀ {i : Nat} {part : Fill ℚ × ℚ} {lots mid : List (Fill ℚ × ℚ)}, 0 < part.2 →
      (∀ tolerance, 0 ≤ tolerance →
        Draw.draw (elsewhere event) tolerance part.2 lots = ⟨[part], mid, 0⟩) →
      matchRow lots (partRow event i part.1 part.2) =
        .ok (mid, [partRow event i part.1 part.2]) := by
    intro i part lots mid hpart hdraw
    have hdrawn : drawnFor lots (partRow event i part.1 part.2) = ⟨[part], mid, 0⟩ :=
      hdraw _ (tolerance_nonneg _)
    have hkeeps := matchRow_keeps lots (partRow event i part.1 part.2) hpart
    rw [hdrawn] at hkeeps
    refine hkeeps (tolerance_nonneg _) part.1.liquidity (List.forall_mem_singleton.2 rfl)
      fun r hr => ?_
    show part.1.liquidity.or event.fillLiquidity = some r
    rw [hr]
    rfl
  induction h generalizing lots with
  | last i part =>
    rw [add_zero]
    cases hdraws with
    | cons hdraw hrest =>
      cases hrest with
      | nil lots' =>
        exact matchRows_of_ok (hone (hpositive part List.mem_cons_self) hdraw) htail
  | @cons i parts rows part _ ih =>
    cases hdraws with
    | cons hdraw hrest =>
      rw [List.forall_mem_cons] at hpositive
      have hfirst : matchRow lots (partRow event i part.1 part.2) = _ := hone hpositive.1 hdraw
      have hrows := matchRows_of_ok hfirst (ih hrest hpositive.2)
      exact hrows

theorem eq_zero_of_mem_zmultiples {step x : ℚ} (hx : x ∈ AddSubgroup.zmultiples step)
    (hnonneg : 0 ≤ x) (hlt : x < step) : x = 0 := by
  obtain ⟨k, hk⟩ := AddSubgroup.mem_zmultiples_iff.1 hx
  rw [zsmul_eq_mul] at hk
  have hstep : 0 < step := hnonneg.trans_lt hlt
  rw [← hk] at hnonneg hlt ⊢
  have hk0 : 0 ≤ k := by
    have := nonneg_of_mul_nonneg_left hnonneg hstep
    exact_mod_cast this
  have hk1 : k < 1 := by
    have : (k : ℚ) < 1 := by
      by_contra hge
      rw [not_lt] at hge
      have := mul_le_mul_of_nonneg_right hge hstep.le
      linarith
    exact_mod_cast this
  have : k = 0 := by omega
  rw [this]
  simp

/-- Matched rows match again, each what it was made from. -/
theorem matchRows_again {step : ℚ} (h : matchRows remaining events = .ok rows)
    (hremaining : ∀ lot ∈ remaining, lot.2 ∈ AddSubgroup.zmultiples step)
    (hevents : ∀ event ∈ events, event.amountUpdate ∈ AddSubgroup.zmultiples step ∧
      |event.amountUpdate| * F64.eps12 < step) :
    matchRows remaining rows = .ok rows := by
  induction events generalizing remaining rows with
  | nil =>
    cases h
    rfl
  | cons event events ih =>
    obtain ⟨remaining', first, rest, hfirst, hrest, rfl⟩ := matchRows_cons h
    rw [List.forall_mem_cons] at hevents
    have hagain : (∀ lot ∈ remaining', lot.2 ∈ AddSubgroup.zmultiples step) →
        matchRows remaining' rest = .ok rest := fun hlots => ih hrest hlots hevents.2
    rcases matchRow_cases hfirst with ⟨rfl, rfl⟩ | ⟨hpos, hleft, rfl, hrows⟩
    · exact matchRows_of_ok hfirst (hagain hremaining)
    · have hmem := Draw.draw_mem (elsewhere event) (F64.abs event.amountUpdate * F64.eps12) _
        hevents.1.1 hremaining
      have hlots := hagain hmem.2
      rcases hrows with ⟨role, row, hparts, hrow, rfl⟩ | hsplit
      · have hrow' := withRole_eq_ok hrow
        have hdrawn : drawnFor remaining row = drawnFor remaining event := by
          rw [hrow']
          rfl
        have hkeeps := matchRow_keeps remaining row
        rw [hdrawn] at hkeeps
        have hamount : row.amountUpdate = event.amountUpdate := by rw [hrow']
        rw [hamount] at hkeeps
        refine matchRows_of_ok (hkeeps hpos hleft role hparts fun r hr => ?_) hlots
        rw [hrow', hr]
        rfl
      · -- the tolerance is below the step, so nothing is left over
        have hzero : (drawnFor remaining event).left = 0 :=
          eq_zero_of_mem_zmultiples hmem.1 (Draw.draw_left_nonneg hpos.le)
            (hleft.trans_lt hevents.1.2)
        rw [hzero] at hsplit
        have hdraws : Draw.OneByOne (elsewhere event) (drawnFor remaining event).parts remaining
            (drawnFor remaining event).lots :=
          Draw.draw_oneByOne (tolerance_nonneg _) hpos hzero
        refine hsplit.matchRows hdraws (fun part hpart => ?_) hlots
        exact (Draw.mem_parts (tolerance_nonneg _) hpos part hpart).1

end CtaManager.FillRecovery
