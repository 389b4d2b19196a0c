import Mathlib

/-! The string operations of the source, on the characters of a `String`. -/

namespace CtaManager.Text

/-- `char::is_whitespace`: the Unicode `White_Space` code points. -/
def isWhitespace (c : Char) : Bool :=
  let n := c.toNat
  (9 ≤ n && n ≤ 13) || n == 32 || n == 0x85 || n == 0xA0 || n == 0x1680 ||
    (0x2000 ≤ n && n ≤ 0x200A) || n == 0x2028 || n == 0x2029 || n == 0x202F || n == 0x205F ||
    n == 0x3000

/-- `str::trim`. -/
def trim (s : String) : String :=
  String.ofList (((s.toList.dropWhile isWhitespace).reverse.dropWhile isWhitespace).reverse)

/-- `str::to_ascii_uppercase`. -/
def toAsciiUppercase (s : String) : String := String.ofList (s.toList.map Char.toUpper)

/-- `str::to_ascii_lowercase`. -/
def toAsciiLowercase (s : String) : String := String.ofList (s.toList.map Char.toLower)

/-- `str::eq_ignore_ascii_case`. -/
def eqIgnoreAsciiCase (s t : String) : Bool := s.toList.map Char.toLower == t.toList.map Char.toLower

def startsWith (s pre : String) : Bool := pre.toList.isPrefixOf s.toList

def endsWith (s suffix : String) : Bool := suffix.toList.isSuffixOf s.toList

/-- `str::strip_prefix`. -/
def stripPrefix (s pre : String) : Option String :=
  if startsWith s pre then some (String.ofList (s.toList.drop pre.length)) else none

/-- `str::strip_suffix`. -/
def stripSuffix (s suffix : String) : Option String :=
  if endsWith s suffix then some (String.ofList (s.toList.take (s.length - suffix.length))) else none

/-- `str::split_once` at a character. -/
def splitOnce (s : String) (c : Char) : Option (String × String) :=
  match s.toList.span (· != c) with
  | (_, []) => none
  | (before, _ :: after) => some (String.ofList before, String.ofList after)

def isAsciiDigit (c : Char) : Bool := 48 ≤ c.toNat && c.toNat ≤ 57

def isAsciiUppercase (c : Char) : Bool := 65 ≤ c.toNat && c.toNat ≤ 90

def isAsciiAlphanumeric (c : Char) : Bool :=
  let n := c.toNat
  (48 ≤ n && n ≤ 57) || (65 ≤ n && n ≤ 90) || (97 ≤ n && n ≤ 122)

/-- What the source takes from the Unicode tables of its standard library. -/
class Unicode where
  /-- `str::to_uppercase` -/
  toUppercase : String → String
  /-- `char::is_alphanumeric` -/
  isAlphanumeric : Char → Bool

/-- The tables on ASCII texts. -/
@[reducible] def Unicode.ascii : Unicode where
  toUppercase := toAsciiUppercase
  isAlphanumeric := fun _ => false

/-- The characters of a strategy name. -/
def isNameChar (c : Char) : Bool := isAsciiAlphanumeric c || c == '.' || c == '_' || c == '-'

theorem endsWith_iff {s suffix : String} :
    endsWith s suffix = true ↔ ∃ base, s = base ++ suffix := by
  unfold endsWith
  rw [List.isSuffixOf_iff_suffix]
  constructor
  · rintro ⟨front, hfront⟩
    refine ⟨String.ofList front, ?_⟩
    rw [← String.toList_inj, String.toList_append, String.toList_ofList, hfront]
  · rintro ⟨base, rfl⟩
    exact ⟨base.toList, by rw [String.toList_append]⟩

theorem endsWith_append (base suffix : String) : endsWith (base ++ suffix) suffix = true :=
  endsWith_iff.2 ⟨base, rfl⟩

theorem stripSuffix_append (base suffix : String) :
    stripSuffix (base ++ suffix) suffix = some base := by
  have htake : (base ++ suffix).toList.take ((base ++ suffix).length - suffix.length) =
      base.toList := by
    rw [String.toList_append, String.length_append, Nat.add_sub_cancel, ← String.length_toList,
      List.take_left]
  rw [stripSuffix, if_pos (endsWith_append base suffix), htake, String.ofList_toList]

theorem stripSuffix_eq_none {s suffix : String} (h : endsWith s suffix = false) :
    stripSuffix s suffix = none := by
  rw [stripSuffix, h]
  rfl

end CtaManager.Text
