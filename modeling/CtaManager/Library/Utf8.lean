import Mathlib

/-!
UTF-8 over lists of bytes.

`decode?` reads a list as characters, or fails; `lossy` reads on behind what is not UTF-8,
with a replacement character for each longest start of a character.  Both invert
`encode` (`decode?_encode`, `lossy_encode`), and `decode?` reads nothing else
(`decode?_eq_some`).
-/

namespace Utf8

def encode (cs : List Char) : List UInt8 := cs.flatMap String.utf8EncodeChar

/-- The character a list starts with. -/
def first? (l : List UInt8) : Option Char := l.toByteArray.utf8DecodeChar? 0

/-- The bytes of the list are the encoding of some characters. -/
def IsUtf8 (l : List UInt8) : Prop := ∃ cs, l = encode cs

/-! ## Lossy reading -/

def isContinuation (b : UInt8) : Bool := decide (0x80 ≤ b ∧ b ≤ 0xBF)

/-- The second byte of a character of three bytes. -/
def isSecondOfThree (first second : UInt8) : Bool :=
  if first = 0xE0 then decide (0xA0 ≤ second ∧ second ≤ 0xBF)
  else if first = 0xED then decide (0x80 ≤ second ∧ second ≤ 0x9F)
  else isContinuation second

/-- The second byte of a character of four bytes. -/
def isSecondOfFour (first second : UInt8) : Bool :=
  if first = 0xF0 then decide (0x90 ≤ second ∧ second ≤ 0xBF)
  else if first = 0xF4 then decide (0x80 ≤ second ∧ second ≤ 0x8F)
  else isContinuation second

/-- How many bytes of a list that starts no character are replaced together. -/
def invalidLength : List UInt8 → Nat
  | first :: second :: rest =>
    if 0xE0 ≤ first ∧ first ≤ 0xEF then
      if isSecondOfThree first second then 2 else 1
    else if 0xF0 ≤ first ∧ first ≤ 0xF4 then
      if isSecondOfFour first second then
        if rest.head?.any isContinuation then 3 else 2
      else 1
    else 1
  | _ => 1

/-- `String::from_utf8_lossy`, for as many rounds as there are bytes. -/
def lossyChars : Nat → List UInt8 → List Char
  | 0, _ => []
  | rounds + 1, l =>
    if l.isEmpty then []
    else
      match first? l with
      | some c => c :: lossyChars rounds (l.drop c.utf8Size)
      | none => '\uFFFD' :: lossyChars rounds (l.drop (invalidLength l))

def lossy (l : List UInt8) : String := String.ofList (lossyChars l.length l)

/-- `str::from_utf8`. -/
def decodeChars? : Nat → List UInt8 → Option (List Char)
  | 0, l => if l.isEmpty then some [] else none
  | rounds + 1, l =>
    if l.isEmpty then some []
    else
      match first? l with
      | some c => (decodeChars? rounds (l.drop c.utf8Size)).map (c :: ·)
      | none => none

def decode? (l : List UInt8) : Option String := (decodeChars? l.length l).map String.ofList

/-! ## The first character -/

@[simp] theorem encode_nil : encode [] = [] := rfl

@[simp] theorem encode_cons (c : Char) (cs : List Char) :
    encode (c :: cs) = String.utf8EncodeChar c ++ encode cs := rfl

theorem first?_append (c : Char) (l : List UInt8) :
    first? (String.utf8EncodeChar c ++ l) = some c := by
  unfold first?
  rw [List.toByteArray_append]
  exact ByteArray.utf8DecodeChar?_utf8EncodeChar_append

theorem drop_append (c : Char) (l : List UInt8) :
    (String.utf8EncodeChar c ++ l).drop c.utf8Size = l := by
  rw [← String.length_utf8EncodeChar]
  exact List.drop_left

theorem eq_of_first? {l : List UInt8} {c : Char} (h : first? l = some c) :
    l = String.utf8EncodeChar c ++ l.drop c.utf8Size := by
  obtain ⟨rest, hrest⟩ := ByteArray.exists_of_utf8DecodeChar?_eq_some h
  have hlist : l = String.utf8EncodeChar c ++ rest.data.toList := by
    have hdata := congrArg (fun b : ByteArray => b.data.toList) hrest
    simpa [ByteArray.data_append] using hdata
  conv_rhs => rw [hlist, drop_append]
  exact hlist

theorem ne_nil_of_first? {l : List UInt8} {c : Char} (h : first? l = some c) : l ≠ [] := by
  rw [eq_of_first? h]
  have hpos := c.utf8Size_pos
  intro hnil
  have hlength := congrArg List.length hnil
  rw [List.length_append, String.length_utf8EncodeChar, List.length_nil] at hlength
  omega

theorem length_le_encode (cs : List Char) : cs.length ≤ (encode cs).length := by
  induction cs with
  | nil => exact Nat.le_refl 0
  | cons c cs ih =>
    have hpos := c.utf8Size_pos
    rw [encode_cons, List.length_append, String.length_utf8EncodeChar, List.length_cons]
    omega

/-! ## Reading what was written -/

theorem isEmpty_encode_append (c : Char) (l : List UInt8) :
    (String.utf8EncodeChar c ++ l).isEmpty = false := by
  rw [List.isEmpty_eq_false_iff]
  exact ne_nil_of_first? (first?_append c l)

theorem lossyChars_append (rounds : Nat) (c : Char) (l : List UInt8) :
    lossyChars (rounds + 1) (String.utf8EncodeChar c ++ l) = c :: lossyChars rounds l := by
  rw [lossyChars, isEmpty_encode_append, first?_append]
  show c :: lossyChars rounds (List.drop c.utf8Size _) = _
  rw [drop_append]

theorem decodeChars?_append (rounds : Nat) (c : Char) (l : List UInt8) :
    decodeChars? (rounds + 1) (String.utf8EncodeChar c ++ l) =
      (decodeChars? rounds l).map (c :: ·) := by
  rw [decodeChars?, isEmpty_encode_append, first?_append]
  show (decodeChars? rounds (List.drop c.utf8Size _)).map _ = _
  rw [drop_append]

theorem lossyChars_encode {rounds : Nat} {cs : List Char} (h : cs.length ≤ rounds) :
    lossyChars rounds (encode cs) = cs := by
  induction rounds generalizing cs with
  | zero => rw [List.length_eq_zero_iff.1 (Nat.le_zero.1 h), lossyChars]
  | succ rounds ih =>
    cases cs with
    | nil => rfl
    | cons c cs =>
      rw [encode_cons, lossyChars_append, ih (Nat.le_of_succ_le_succ h)]

theorem lossy_encode (cs : List Char) : lossy (encode cs) = String.ofList cs := by
  unfold lossy
  rw [lossyChars_encode (length_le_encode cs)]

/-- Reading UTF-8 loses nothing. -/
theorem encode_lossy {l : List UInt8} (h : IsUtf8 l) : encode (lossy l).toList = l := by
  obtain ⟨cs, rfl⟩ := h
  rw [lossy_encode, String.toList_ofList]

theorem decodeChars?_encode {rounds : Nat} {cs : List Char} (h : cs.length ≤ rounds) :
    decodeChars? rounds (encode cs) = some cs := by
  induction rounds generalizing cs with
  | zero =>
    rw [List.length_eq_zero_iff.1 (Nat.le_zero.1 h)]
    rfl
  | succ rounds ih =>
    cases cs with
    | nil => rfl
    | cons c cs =>
      rw [encode_cons, decodeChars?_append, ih (Nat.le_of_succ_le_succ h)]
      rfl

theorem decode?_encode (cs : List Char) : decode? (encode cs) = some (String.ofList cs) := by
  unfold decode?
  rw [decodeChars?_encode (length_le_encode cs)]
  rfl

theorem decodeChars?_eq_some {rounds : Nat} {l : List UInt8} {cs : List Char}
    (h : decodeChars? rounds l = some cs) : l = encode cs := by
  induction rounds generalizing l cs with
  | zero =>
    unfold decodeChars? at h
    split at h
    · rename_i hnil
      obtain rfl := Option.some.inj h
      exact List.isEmpty_iff.1 hnil
    · cases h
  | succ rounds ih =>
    unfold decodeChars? at h
    split at h
    · rename_i hnil
      obtain rfl := Option.some.inj h
      exact List.isEmpty_iff.1 hnil
    · cases hfirst : first? l with
      | none =>
        rw [hfirst] at h
        cases h
      | some c =>
        rw [hfirst] at h
        obtain ⟨rest, hrest, rfl⟩ := Option.map_eq_some_iff.1 h
        rw [encode_cons, ← ih hrest]
        exact eq_of_first? hfirst

/-- What is read is the encoding. -/
theorem decode?_eq_some {l : List UInt8} {s : String} :
    decode? l = some s ↔ l = encode s.toList := by
  constructor
  · intro h
    obtain ⟨cs, hcs, rfl⟩ := Option.map_eq_some_iff.1 h
    rw [String.toList_ofList]
    exact decodeChars?_eq_some hcs
  · rintro rfl
    rw [decode?_encode, String.ofList_toList]

/-! ## ASCII -/

theorem encodeChar_ofNat {b : UInt8} (h : b.toNat < 128) :
    String.utf8EncodeChar (Char.ofNat b.toNat) = [b] := by
  have hall : ∀ n, n < 128 → String.utf8EncodeChar (Char.ofNat n) = [UInt8.ofNat n] := by
    decide +kernel
  rw [hall b.toNat h, UInt8.ofNat_toNat]

/-- ASCII is UTF-8. -/
theorem isUtf8_of_ascii {l : List UInt8} (h : ∀ b ∈ l, b.toNat < 128) : IsUtf8 l := by
  induction l with
  | nil => exact ⟨[], rfl⟩
  | cons b l ih =>
    rw [List.forall_mem_cons] at h
    obtain ⟨cs, rfl⟩ := ih h.2
    refine ⟨Char.ofNat b.toNat :: cs, ?_⟩
    rw [encode_cons, encodeChar_ofNat h.1]
    rfl

end Utf8
