import Mathlib.Algebra.Order.Ring.Nat
import TwoPass.Numeral.Printed
import TwoPass.Numeral.Reader

set_option autoImplicit false

/-!
# Hexadecimal numbers read back

A number printed in hexadecimal is made of digits only, takes the width of its field if it fits, and
is read back as itself whatever zeros the field puts in front of it.  Both facts come from one
recursion: the last digit is the remainder by sixteen, and the digits before it are those of the
quotient.
-/

namespace TwoPass

/-- The upper case hexadecimal digit of a value below sixteen. -/
def hexDigit (value : Nat) : UInt8 := value.digitChar.toUpper.toUInt8

/-- A digit has the value it was made for. -/
theorem Numeral.digit?_hexDigit {value : Nat} (h : value < 16) :
    Numeral.digit? (hexDigit value) = some value := by
  have hall : ∀ v : Fin 16, Numeral.digit? (hexDigit v) = some v.val := by decide
  exact hall ⟨value, h⟩

theorem Numeral.isHexDigit_hexDigit {value : Nat} (h : value < 16) :
    Numeral.isHexDigit (hexDigit value) = true := by
  simp [Numeral.isHexDigit, Numeral.digit?_hexDigit h, h]

/-! ## The digits of a number -/

/-- A field puts zeros in front of the digits of a number. -/
theorem upperHex_eq_replicate_append (width n : Nat) :
    upperHex width n =
      List.replicate (width - (upperHex 0 n).length) (hexDigit 0) ++ upperHex 0 n := by
  have hzero : hexDigit 0 = 0x30 := by decide
  simp [upperHex, List.leftpad, hzero]

theorem upperHex_zero_of_lt {n : Nat} (h : n < 16) : upperHex 0 n = [hexDigit n] := by
  simp [upperHex, List.leftpad, Nat.toDigits_of_lt_base h, hexDigit]

theorem upperHex_zero_of_le {n : Nat} (h : 16 ≤ n) :
    upperHex 0 n = upperHex 0 (n / 16) ++ [hexDigit (n % 16)] := by
  simp [upperHex, List.leftpad, Nat.toDigits_of_base_le (by decide) h, hexDigit]

theorem upperHex_ne_nil (width n : Nat) : upperHex width n ≠ [] := by
  simp [upperHex, List.leftpad, Nat.toDigits_ne_nil]

/-- Every byte of a printed number is a digit. -/
theorem exists_hexDigit_of_mem_upperHex {width n : Nat} {b : UInt8} (h : b ∈ upperHex width n) :
    ∃ value, value < 16 ∧ b = hexDigit value := by
  rw [upperHex_eq_replicate_append, List.mem_append] at h
  rcases h with h | h
  · exact ⟨0, by decide, List.eq_of_mem_replicate h⟩
  · induction n using Nat.strongRecOn with
    | ind n ih =>
      by_cases hn : n < 16
      · rw [upperHex_zero_of_lt hn, List.mem_singleton] at h
        exact ⟨n, hn, h⟩
      · rw [upperHex_zero_of_le (by omega), List.mem_append, List.mem_singleton] at h
        rcases h with h | h
        · exact ih (n / 16) (by omega) h
        · exact ⟨n % 16, by omega, h⟩

theorem isHexDigit_of_mem_upperHex {width n : Nat} {b : UInt8} (h : b ∈ upperHex width n) :
    Numeral.isHexDigit b = true := by
  obtain ⟨value, hlt, rfl⟩ := exists_hexDigit_of_mem_upperHex h
  exact Numeral.isHexDigit_hexDigit hlt

theorem not_mem_upperHex {b : UInt8} (h : Numeral.isHexDigit b = false) (width n : Nat) :
    b ∉ upperHex width n := by
  intro hb
  rw [isHexDigit_of_mem_upperHex hb] at h
  exact absurd h (by decide)

/-- A number that fits its field takes exactly the width of the field. -/
theorem length_upperHex {width n : Nat} (hwidth : 0 < width) (h : n < 16 ^ width) :
    (upperHex width n).length = width := by
  have hlength : (Nat.toDigits 16 n).length ≤ width :=
    (Nat.length_toDigits_le_iff (by decide) hwidth).mpr h
  simp only [upperHex, List.leftpad, List.length_append, List.length_replicate, List.length_map]
  omega

/-- A printed number takes the width of its field just if it fits. -/
theorem length_upperHex_eq_iff {width n : Nat} (hwidth : 0 < width) :
    (upperHex width n).length = width ↔ n < 16 ^ width := by
  refine ⟨fun h => ?_, length_upperHex hwidth⟩
  rw [← Nat.length_toDigits_le_iff (by decide) hwidth]
  simp only [upperHex, List.leftpad, List.length_append, List.length_replicate,
    List.length_map] at h
  omega

/-! ## Reading digits -/

namespace Numeral

/-- Reading goes on behind the value of what was read before. -/
theorem digits_append (base limit : Nat) (front back : Bytes) :
    digits base limit (front ++ back) =
      (digits base limit front).bind fun value => back.foldlM (push base limit) value := by
  simp only [digits, List.foldlM_append]
  rfl

/-- A digit behind a value is read if the value stays within the limit. -/
theorem push_hexDigit (limit value : Nat) {d : Nat} (hd : d < 16) (h : value * 16 + d ≤ limit) :
    push 16 limit value (hexDigit d) = .ok (value * 16 + d) := by
  have hbase : ¬ 16 ≤ d := by omega
  have hlimit : ¬ limit < value * 16 + d := by omega
  simp [push, digit?_hexDigit hd, hbase, hlimit]

/-- Zeros in front of a number leave its value at zero. -/
theorem digits_replicate_zero (limit count : Nat) :
    digits 16 limit (List.replicate count (hexDigit 0)) = .ok 0 := by
  induction count with
  | zero => rfl
  | succ count ih =>
    rw [List.replicate_succ', digits_append, ih]
    simp only [Except.bind, List.foldlM_cons, List.foldlM_nil]
    rw [push_hexDigit limit 0 (by decide) (by omega)]
    rfl

theorem digits_upperHex_zero {limit n : Nat} (h : n ≤ limit) :
    digits 16 limit (upperHex 0 n) = .ok n := by
  induction n using Nat.strongRecOn with
  | ind n ih =>
    by_cases hn : n < 16
    · rw [upperHex_zero_of_lt hn]
      have hpush := push_hexDigit limit 0 hn (by omega)
      simp only [digits, List.foldlM_cons, List.foldlM_nil, hpush]
      simp [bind, Except.bind, pure, Except.pure]
    · have hquotient := ih (n / 16) (by omega) (by omega)
      have hdigit : n % 16 < 16 := Nat.mod_lt n (by decide)
      have hpush := push_hexDigit limit (n / 16) hdigit (by omega)
      have hn' : n / 16 * 16 + n % 16 = n := by omega
      rw [upperHex_zero_of_le (by omega), digits_append, hquotient]
      simp only [Except.bind, List.foldlM_cons, List.foldlM_nil, hpush, hn']
      rfl

/-- A printed number is read back as itself. -/
theorem unsigned_upperHex {width limit n : Nat} (h : n ≤ limit) :
    unsigned 16 limit (upperHex width n) = .ok n := by
  have hnonempty : (upperHex width n).isEmpty = false := by
    simpa using upperHex_ne_nil width n
  rw [unsigned, hnonempty, upperHex_eq_replicate_append, digits_append, digits_replicate_zero]
  exact digits_upperHex_zero h

end Numeral

/-! ## Fields -/

/-- A field of so many hexadecimal digits that stand for a number. -/
structure HexField (width n : Nat) (field : Bytes) : Prop where
  /-- there are as many digits as the field is wide -/
  length : field.length = width
  /-- they are digits -/
  digits : ∀ b ∈ field, Numeral.isHexDigit b = true
  /-- they stand for the number -/
  value : Numeral.unsigned 16 (16 ^ width - 1) field = .ok n

/-- A printed number keeps to its field just if it fits. -/
theorem hexField_upperHex_iff {width n : Nat} (hwidth : 0 < width) :
    HexField width n (upperHex width n) ↔ n < 16 ^ width := by
  constructor
  · intro h
    exact (length_upperHex_eq_iff hwidth).mp h.length
  · intro h
    exact ⟨length_upperHex hwidth h, fun _ hb => isHexDigit_of_mem_upperHex hb,
      Numeral.unsigned_upperHex (Nat.le_sub_one_of_lt h)⟩

end TwoPass
