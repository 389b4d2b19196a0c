import Mathlib

/-!
Numbers as bytes, the lowest byte first.

`leNat` reads a list of bytes and `leBytes` writes a given number of them; on lists of that
length they are inverse (`leBytes_leNat`, `leNat_leBytes`).  `toSigned` reads the upper half
of the range as the negative numbers, and `ofSigned` undoes it.
-/

namespace LittleEndian

def leNat : List UInt8 → Nat
  | [] => 0
  | b :: l => b.toNat + 256 * leNat l

def leBytes : Nat → Nat → List UInt8
  | 0, _ => []
  | width + 1, n => UInt8.ofNat (n % 256) :: leBytes width (n / 256)

theorem length_leBytes (width n : Nat) : (leBytes width n).length = width := by
  induction width generalizing n with
  | zero => rfl
  | succ width ih => rw [leBytes, List.length_cons, ih]

theorem leNat_lt (l : List UInt8) : leNat l < 256 ^ l.length := by
  induction l with
  | nil => exact Nat.one_pos
  | cons b l ih =>
    have hb := b.toNat_lt
    rw [leNat, List.length_cons, Nat.pow_succ]
    omega

theorem leBytes_leNat {width : Nat} {l : List UInt8} (h : l.length = width) :
    leBytes width (leNat l) = l := by
  induction l generalizing width with
  | nil =>
    subst h
    rfl
  | cons b l ih =>
    subst h
    have hb := b.toNat_lt
    have hmod : (b.toNat + 256 * leNat l) % 256 = b.toNat := by omega
    have hdiv : (b.toNat + 256 * leNat l) / 256 = leNat l := by omega
    rw [List.length_cons, leNat, leBytes, hmod, hdiv, ih rfl, UInt8.ofNat_toNat]

theorem leNat_leBytes {width n : Nat} (h : n < 256 ^ width) : leNat (leBytes width n) = n := by
  induction width generalizing n with
  | zero =>
    rw [Nat.pow_zero] at h
    show 0 = n
    omega
  | succ width ih =>
    rw [Nat.pow_succ] at h
    have hbyte : (UInt8.ofNat (n % 256)).toNat = n % 256 := by
      rw [UInt8.toNat_ofNat']
      omega
    rw [leBytes, leNat, hbyte, ih (by omega)]
    omega

/-! ## Signed numbers -/

/-- Two's complement of `bits` bits. -/
def toSigned (bits n : Nat) : Int := if 2 * n < 2 ^ bits then n else (n : Int) - 2 ^ bits

def ofSigned (bits : Nat) (i : Int) : Nat := (if 0 ≤ i then i else i + 2 ^ bits).toNat

theorem ofSigned_toSigned {bits n : Nat} (h : n < 2 ^ bits) : ofSigned bits (toSigned bits n) = n := by
  have hcast : ((2 ^ bits : Nat) : Int) = 2 ^ bits := by norm_cast
  unfold toSigned ofSigned
  by_cases hlow : 2 * n < 2 ^ bits
  · rw [if_pos hlow, if_pos (by omega), Int.toNat_natCast]
  · rw [if_neg hlow, if_neg (by omega), sub_add_cancel, Int.toNat_natCast]

end LittleEndian
