import Mathlib

/-!
The lines of a byte sequence that is still being written.

`lines bytes` are the complete lines, each with its newline; what comes after the last
newline is no line yet.  `readUntil limit bytes` is one read of at most `limit` bytes that
stops after a newline.  Bytes that end with a line can be cut off: the lines of the rest are
the other lines (`lines_append`).
-/

namespace Lines

def newline : UInt8 := 10

/-- The complete lines. -/
def lines : List UInt8 → List (List UInt8)
  | [] => []
  | b :: rest =>
    if b = newline then [b] :: lines rest
    else match lines rest with
      | [] => []
      | line :: more => (b :: line) :: more

/-- One read, up to a newline and at most `limit` bytes. -/
def readUntil : Nat → List UInt8 → List UInt8
  | 0, _ => []
  | _ + 1, [] => []
  | limit + 1, b :: rest => if b = newline then [b] else b :: readUntil limit rest

def endsWithNewline (line : List UInt8) : Bool := line.getLast? == some newline

/-- Bytes that end where a line does. -/
def Whole (bytes : List UInt8) : Prop := (lines bytes).flatten = bytes

variable {bytes rest line : List UInt8}

/-! ## Lines -/

/-- A line: the newline is its last byte and no other. -/
def IsLine (line : List UInt8) : Prop := ∃ body, line = body ++ [newline] ∧ newline ∉ body

theorem IsLine.cons {b : UInt8} (hb : b ≠ newline) (h : IsLine line) : IsLine (b :: line) := by
  obtain ⟨body, rfl, hbody⟩ := h
  refine ⟨b :: body, rfl, ?_⟩
  intro hmem
  rcases List.mem_cons.1 hmem with h | h
  · exact hb h.symm
  · exact hbody h

theorem IsLine.ne_nil (h : IsLine line) : line ≠ [] := by
  obtain ⟨body, rfl, -⟩ := h
  simp

theorem isLine_of_mem (h : line ∈ lines bytes) : IsLine line := by
  induction bytes generalizing line with
  | nil => cases h
  | cons b rest ih =>
    unfold lines at h
    split at h
    · next hb =>
      rcases List.mem_cons.1 h with rfl | h
      · exact ⟨[], by rw [hb]; rfl, List.not_mem_nil⟩
      · exact ih h
    · next hb =>
      split at h
      · cases h
      · next first more hlines =>
        rcases List.mem_cons.1 h with rfl | h
        · exact (ih (hlines ▸ List.mem_cons_self)).cons hb
        · exact ih (hlines ▸ List.mem_cons_of_mem _ h)

theorem lines_cons_of_ne {b : UInt8} (hb : b ≠ newline) :
    lines (b :: rest) = match lines rest with
      | [] => []
      | line :: more => (b :: line) :: more := if_neg hb

theorem lines_line_append (h : IsLine line) : lines (line ++ rest) = line :: lines rest := by
  obtain ⟨body, rfl, hbody⟩ := h
  induction body with
  | nil => simp [lines]
  | cons b body ih =>
    have hb : b ≠ newline := fun h => hbody (h ▸ List.mem_cons_self)
    have hrest := ih fun h => hbody (List.mem_cons_of_mem _ h)
    show lines (b :: ((body ++ [newline]) ++ rest)) = _
    rw [lines_cons_of_ne hb, hrest]
    rfl

theorem lines_eq_nil_iff : lines bytes = [] ↔ newline ∉ bytes := by
  induction bytes with
  | nil => simp [lines]
  | cons b rest ih =>
    unfold lines
    by_cases hb : b = newline
    · rw [if_pos hb]
      simp [hb]
    · rw [if_neg hb]
      have hne : newline ≠ b := fun h => hb h.symm
      constructor
      · intro h
        cases hlines : lines rest with
        | nil => simp [hne, ih.1 hlines]
        | cons line more => simp [hlines] at h
      · intro h
        rw [ih.2 fun hmem => h (List.mem_cons_of_mem _ hmem)]

/-- The bytes are the first line and the others, or hold no newline. -/
theorem lines_cases (bytes : List UInt8) :
    newline ∉ bytes ∨ ∃ line rest, IsLine line ∧ bytes = line ++ rest := by
  cases hlines : lines bytes with
  | nil => exact Or.inl (lines_eq_nil_iff.1 hlines)
  | cons line more =>
    refine Or.inr ?_
    induction bytes generalizing line more with
    | nil => cases hlines
    | cons b rest ih =>
      by_cases hb : b = newline
      · exact ⟨[b], rest, ⟨[], by rw [hb]; rfl, List.not_mem_nil⟩, rfl⟩
      · unfold lines at hlines
        rw [if_neg hb] at hlines
        cases hrest : lines rest with
        | nil => simp [hrest] at hlines
        | cons first others =>
          obtain ⟨tail, rest, htail, hsplit⟩ := ih first others hrest
          exact ⟨b :: tail, rest, htail.cons hb, by rw [hsplit]; rfl⟩

theorem lines_append (h : Whole bytes) : lines (bytes ++ rest) = lines bytes ++ lines rest := by
  have hall : ∀ l : List (List UInt8), (∀ line ∈ l, IsLine line) →
      lines (l.flatten ++ rest) = l ++ lines rest := by
    intro l hl
    induction l with
    | nil => rfl
    | cons line more ih =>
      rw [List.flatten_cons, List.append_assoc, lines_line_append (hl line List.mem_cons_self),
        ih fun other hother => hl other (List.mem_cons_of_mem _ hother)]
      rfl
  have hlines := hall (lines bytes) fun line hline => isLine_of_mem hline
  rwa [h] at hlines

theorem lines_of_isLine (h : IsLine line) : lines line = [line] := by
  have hlines : lines (line ++ []) = line :: lines [] := lines_line_append h
  rwa [List.append_nil] at hlines

theorem Whole.append_line (h : Whole bytes) (hline : IsLine line) : Whole (bytes ++ line) := by
  unfold Whole
  rw [lines_append h, lines_of_isLine hline, List.flatten_append, h]
  simp

theorem lines_append_line (h : Whole bytes) (hline : IsLine line) :
    lines (bytes ++ line) = lines bytes ++ [line] := by
  rw [lines_append h, lines_of_isLine hline]

theorem lines_append_tail (h : Whole bytes) (hrest : newline ∉ rest) :
    lines (bytes ++ rest) = lines bytes := by
  rw [lines_append h, lines_eq_nil_iff.2 hrest, List.append_nil]

/-! ## One read -/

variable {limit : Nat}

theorem readUntil_line (h : IsLine line) (hlimit : line.length ≤ limit) :
    readUntil limit (line ++ rest) = line := by
  obtain ⟨body, rfl, hbody⟩ := h
  induction body generalizing limit with
  | nil =>
    cases limit with
    | zero => simp at hlimit
    | succ limit => simp [readUntil]
  | cons b body ih =>
    have hb : b ≠ newline := fun h => hbody (h ▸ List.mem_cons_self)
    cases limit with
    | zero => simp at hlimit
    | succ limit =>
      have hshort : (body ++ [newline]).length ≤ limit := by
        simp only [List.length_append, List.length_cons] at hlimit ⊢
        omega
      have hrest := ih (fun h => hbody (List.mem_cons_of_mem _ h)) hshort
      show readUntil (limit + 1) (b :: ((body ++ [newline]) ++ rest)) = _
      unfold readUntil
      rw [if_neg hb, hrest]
      rfl

theorem readUntil_of_notMem (h : newline ∉ bytes.take limit) :
    readUntil limit bytes = bytes.take limit := by
  induction bytes generalizing limit with
  | nil => cases limit <;> simp [readUntil]
  | cons b rest ih =>
    cases limit with
    | zero => simp [readUntil]
    | succ limit =>
      rw [List.take_succ_cons] at h ⊢
      have hb : b ≠ newline := fun hb => h (hb ▸ List.mem_cons_self)
      unfold readUntil
      rw [if_neg hb, ih fun hmem => h (List.mem_cons_of_mem _ hmem)]

/-- A read gets the whole first line, or as many bytes as it may of bytes without a
newline. -/
theorem readUntil_cases (limit : Nat) (bytes : List UInt8) :
    (∃ line rest, IsLine line ∧ bytes = line ++ rest ∧ line.length ≤ limit ∧
      readUntil limit bytes = line) ∨
    (newline ∉ bytes.take limit ∧ readUntil limit bytes = bytes.take limit) := by
  rcases lines_cases bytes with hnone | ⟨line, rest, hline, rfl⟩
  · have htake : newline ∉ bytes.take limit := fun h => hnone (List.mem_of_mem_take h)
    exact Or.inr ⟨htake, readUntil_of_notMem htake⟩
  · by_cases hlimit : line.length ≤ limit
    · exact Or.inl ⟨line, rest, hline, rfl, hlimit, readUntil_line hline hlimit⟩
    · have htake : newline ∉ (line ++ rest).take limit := by
        obtain ⟨body, rfl, hbody⟩ := hline
        simp only [List.length_append, List.length_cons, List.length_nil] at hlimit
        rw [List.append_assoc, List.take_append_of_le_length (by omega)]
        exact fun h => hbody (List.mem_of_mem_take h)
      exact Or.inr ⟨htake, readUntil_of_notMem htake⟩

/-- A read that got all the bytes it may get is the same when more bytes follow. -/
theorem readUntil_append {more : List UInt8} (h : (readUntil limit bytes).length = limit) :
    readUntil limit (bytes ++ more) = readUntil limit bytes := by
  induction bytes generalizing limit with
  | nil =>
    cases limit with
    | zero => rfl
    | succ limit => simp [readUntil] at h
  | cons b rest ih =>
    cases limit with
    | zero => rfl
    | succ limit =>
      show readUntil (limit + 1) (b :: (rest ++ more)) = _
      unfold readUntil at h ⊢
      by_cases hb : b = newline
      · rw [if_pos hb, if_pos hb]
      · rw [if_neg hb] at h
        rw [if_neg hb, if_neg hb, ih (by simpa using h)]

theorem length_readUntil_le (limit : Nat) (bytes : List UInt8) :
    (readUntil limit bytes).length ≤ limit := by
  rcases readUntil_cases limit bytes with ⟨line, rest, -, -, hlength, hread⟩ | ⟨-, hread⟩
  · rw [hread]
    exact hlength
  · rw [hread]
    exact List.length_take_le _ _

theorem endsWithNewline_of_isLine (h : IsLine line) : endsWithNewline line = true := by
  obtain ⟨body, rfl, -⟩ := h
  simp [endsWithNewline]

theorem endsWithNewline_of_notMem (h : newline ∉ line) : endsWithNewline line = false := by
  unfold endsWithNewline
  cases hlast : line.getLast? with
  | none => rfl
  | some b =>
    have hb : b ≠ newline := fun hb => h (hb ▸ List.mem_of_getLast? hlast)
    simpa using hb

end Lines
