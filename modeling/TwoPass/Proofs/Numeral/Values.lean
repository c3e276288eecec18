import Mathlib.Data.List.Induction
import Mathlib.Data.Nat.Digits.Defs
import TwoPass.Proofs.Numeral.Hexadecimal
import TwoPass.Proofs.Outcome

set_option autoImplicit false

/-!
# The values of numerals

A numeral is one digit at least, and nothing but digits below its base.  Its value is that of its
digits by their places.  Reading checks the limit after every digit and stops at the first thing
wrong, but what it accepts can be said without an order: the numerals whose value is within the
limit.
-/

namespace TwoPass.Numeral

/-! ## Unsigned numerals -/

/-- The value of a byte as a digit. -/
def digitValue (b : UInt8) : Nat := (digit? b).getD 0

/-- Whether a byte is a digit below a base. -/
def IsDigit (base : Nat) (b : UInt8) : Prop := ∃ d, digit? b = some d ∧ d < base

/-- Whether a text is a numeral to a base. -/
def IsNumeral (base : Nat) (text : Bytes) : Prop := text ≠ [] ∧ ∀ b ∈ text, IsDigit base b

/-- The value of a text as a numeral to a base: its last digit has the lowest place. -/
def value (base : Nat) (text : Bytes) : Nat := Nat.ofDigits base (text.reverse.map digitValue)

theorem value_nil (base : Nat) : value base [] = 0 := rfl

theorem value_append_singleton (base : Nat) (text : Bytes) (b : UInt8) :
    value base (text ++ [b]) = value base text * base + digitValue b := by
  simp only [value, List.reverse_append, List.reverse_singleton, List.singleton_append,
    List.map_cons, Nat.ofDigits_cons]
  ring

/-- A digit is pushed just if it is below the base and the value stays within the limit. -/
theorem push_eq_ok_iff {base limit before n : Nat} {b : UInt8} :
    push base limit before b = .ok n ↔
      IsDigit base b ∧ before * base + digitValue b = n ∧ n ≤ limit := by
  unfold push IsDigit digitValue
  cases digit? b with
  | none => simp
  | some d =>
    by_cases hbase : base ≤ d
    · simp [hbase]
    · by_cases hlimit : limit < before * base + d
      · simp only [hbase, hlimit, if_false, if_true]
        constructor
        · simp
        · rintro ⟨_, hvalue, hle⟩
          rw [Option.getD_some] at hvalue
          omega
      · simp only [hbase, hlimit, if_false, Except.ok.injEq, Option.getD_some]
        constructor
        · intro hvalue
          exact ⟨⟨d, rfl, by omega⟩, hvalue, by omega⟩
        · exact fun h => h.2.1

/-- Digits are read just if all of them are below the base and their value is within the limit: the
value of the digits in front is never larger. -/
theorem digits_eq_ok_iff {base limit n : Nat} {text : Bytes} :
    digits base limit text = .ok n ↔
      (∀ b ∈ text, IsDigit base b) ∧ value base text = n ∧ n ≤ limit := by
  induction text using List.reverseRecOn generalizing n with
  | nil =>
    have hread : digits base limit [] = .ok 0 := rfl
    rw [hread, value_nil, Except.ok.injEq]
    constructor
    · rintro rfl
      exact ⟨by simp, rfl, Nat.zero_le limit⟩
    · exact fun h => h.2.1
  | append_singleton text b ih =>
    have hlast : ∀ before, [b].foldlM (push base limit) before = push base limit before b := by
      intro before
      rw [List.foldlM_cons]
      cases push base limit before b <;> rfl
    rw [digits_append]
    refine bind_eq_ok_iff.trans ?_
    simp only [hlast, push_eq_ok_iff, ih, value_append_singleton, List.forall_mem_append,
      List.forall_mem_singleton]
    constructor
    · rintro ⟨before, ⟨hfront, rfl, _⟩, hdigit, hvalue, hle⟩
      exact ⟨⟨hfront, hdigit⟩, hvalue, hle⟩
    · rintro ⟨⟨hfront, hdigit⟩, hvalue, hle⟩
      have hbase : 0 < base := hdigit.elim fun d hd => Nat.zero_lt_of_lt hd.2
      have hmono : value base text ≤ value base text * base := Nat.le_mul_of_pos_right _ hbase
      exact ⟨_, ⟨hfront, rfl, by omega⟩, hdigit, hvalue, hle⟩

/-- What is read is the numerals whose value is within the limit. -/
theorem unsigned_eq_ok_iff {base limit n : Nat} {text : Bytes} :
    unsigned base limit text = .ok n ↔ IsNumeral base text ∧ value base text = n ∧ n ≤ limit := by
  unfold unsigned IsNumeral
  cases text with
  | nil => simp
  | cons b rest => simp [digits_eq_ok_iff]

/-! ## Signed numerals -/

/-- The integer of a sign and a magnitude. -/
def ofSign (negative : Bool) (magnitude : Nat) : Int :=
  if negative then -(magnitude : Int) else magnitude

/-- A decimal numeral with at most one sign, and its value. -/
inductive SignedDecimal : Bytes → Int → Prop where
  | unsigned {digits : Bytes} : IsNumeral 10 digits → SignedDecimal digits (value 10 digits)
  | plus {digits : Bytes} : IsNumeral 10 digits → SignedDecimal (0x2B :: digits) (value 10 digits)
  | minus {digits : Bytes} :
    IsNumeral 10 digits → SignedDecimal (Ascii.hyphen :: digits) (-value 10 digits)

/-- A numeral does not begin with a sign. -/
theorem IsNumeral.splitSign_eq {digits : Bytes} (h : IsNumeral 10 digits) :
    splitSign digits = (false, digits) := by
  obtain ⟨b, rest, rfl⟩ := List.exists_cons_of_ne_nil h.1
  obtain ⟨d, hdigit, _⟩ := h.2 b List.mem_cons_self
  have hplus : (b == 0x2B) = false := by
    rw [beq_eq_false_iff_ne]
    rintro rfl
    have hnone : digit? 0x2B = none := by decide
    simp [hnone] at hdigit
  have hminus : (b == Ascii.hyphen) = false := by
    rw [beq_eq_false_iff_ne]
    rintro rfl
    have hnone : digit? Ascii.hyphen = none := by decide
    simp [hnone] at hdigit
  simp [splitSign, hplus, hminus]

/-- A signed numeral is a sign and a numeral. -/
theorem signedDecimal_iff {text : Bytes} {v : Int} :
    SignedDecimal text v ↔
      IsNumeral 10 (splitSign text).2 ∧
      v = ofSign (splitSign text).1 (value 10 (splitSign text).2) := by
  constructor
  · intro h
    cases h with
    | unsigned hdigits =>
      rw [hdigits.splitSign_eq]
      exact ⟨hdigits, rfl⟩
    | plus hdigits => exact ⟨hdigits, rfl⟩
    | minus hdigits => exact ⟨hdigits, rfl⟩
  · rintro ⟨hdigits, rfl⟩
    cases text with
    | nil => exact absurd rfl hdigits.1
    | cons b rest =>
      by_cases hplus : b = 0x2B
      · subst hplus
        exact .plus hdigits
      · by_cases hminus : b = Ascii.hyphen
        · subst hminus
          exact .minus hdigits
        · have hsplit : splitSign (b :: rest) = (false, b :: rest) := by
            simp [splitSign, hplus, hminus]
          rw [hsplit] at hdigits ⊢
          exact .unsigned hdigits

/-! ## Signed numbers of 64 bits -/

/-- A signed number is what its 64 bits give as an unsigned one, or 2 ^ 64 less. -/
theorem toInt_eq_bmod (v : Int64) : v.toInt = (v.toUInt64.toNat : Int).bmod (2 ^ 64) :=
  BitVec.toInt_eq_toNat_bmod v.toBitVec

theorem toInt_toInt64 {n : UInt64} (h : n.toNat < 2 ^ 63) : n.toInt64.toInt = n.toNat := by
  rw [toInt_eq_bmod, UInt64.toUInt64_toInt64]
  exact Int.bmod_eq_of_le (by omega) (by omega)

theorem toInt_neg_toInt64 {n : UInt64} (h : n.toNat ≤ 2 ^ 63) :
    (-n.toInt64).toInt = -n.toNat := by
  rw [Int64.toInt_neg, toInt_eq_bmod, Int.bmod_neg_bmod, UInt64.toUInt64_toInt64]
  exact Int.bmod_eq_of_le (by omega) (by omega)

/-- A sign and a magnitude have a number just if their integer is one of 64 bits, and then it is
that: the cutoff leaves no room for another, and below it nothing wraps around. -/
theorem signedOf_eq_ok_iff {negative : Bool} {magnitude : UInt64} {v : Int64} :
    signedOf negative magnitude = .ok v ↔ v.toInt = ofSign negative magnitude.toNat := by
  have hlow := v.le_toInt
  have hhigh := v.toInt_lt
  have hcutoff : signedCutoff.toNat = 2 ^ 63 := rfl
  have hvalue : ∀ w : Int64, signedOf negative magnitude = .ok w →
      w.toInt = ofSign negative magnitude.toNat →
      (signedOf negative magnitude = .ok v ↔ v.toInt = ofSign negative magnitude.toNat) := by
    intro w hok hw
    rw [hok, ← hw, Except.ok.injEq, Int64.toInt_inj, eq_comm]
  cases negative with
  | false =>
    by_cases hle : signedCutoff ≤ magnitude
    · have hlarge := UInt64.le_iff_toNat_le.mp hle
      have hne : v.toInt ≠ magnitude.toNat := by omega
      simp [signedOf, ofSign, hle, hne]
    · have hsmall := UInt64.lt_iff_toNat_lt.mp (UInt64.not_le.mp hle)
      exact hvalue magnitude.toInt64 (by simp [signedOf, hle]) (toInt_toInt64 (by omega))
  | true =>
    by_cases hlt : signedCutoff < magnitude
    · have hlarge := UInt64.lt_iff_toNat_lt.mp hlt
      have hne : v.toInt ≠ -magnitude.toNat := by omega
      simp [signedOf, ofSign, hlt, hne]
    · have hsmall := UInt64.le_iff_toNat_le.mp (UInt64.not_lt.mp hlt)
      exact hvalue (-magnitude.toInt64) (by simp [signedOf, hlt]) (toInt_neg_toInt64 (by omega))

/-- What is read is the signed numerals whose value is a number of 64 bits. -/
theorem signed_eq_ok_iff {v : Int64} {text : Bytes} :
    signed text = .ok v ↔ SignedDecimal text v.toInt := by
  have hbind : signed text =
      unsigned 10 (maxOfBits 64) (splitSign text).2 >>= fun magnitude =>
        signedOf (splitSign text).1 (.ofNat magnitude) := by
    unfold signed
    obtain ⟨negative, rest⟩ := splitSign text
    dsimp only
    cases unsigned 10 (maxOfBits 64) rest <;> rfl
  have hmax : maxOfBits 64 = 2 ^ 64 - 1 := rfl
  rw [hbind, bind_eq_ok_iff, signedDecimal_iff]
  simp only [unsigned_eq_ok_iff, signedOf_eq_ok_iff]
  constructor
  · rintro ⟨magnitude, ⟨hdigits, rfl, hle⟩, hvalue⟩
    have hlt : value 10 (splitSign text).2 < 2 ^ 64 := by omega
    rw [UInt64.toNat_ofNat_of_lt' hlt] at hvalue
    exact ⟨hdigits, hvalue⟩
  · rintro ⟨hdigits, hvalue⟩
    -- A number of 64 bits has a magnitude of 64 bits.
    have hlow := v.le_toInt
    have hhigh := v.toInt_lt
    have hlt : value 10 (splitSign text).2 < 2 ^ 64 := by
      unfold ofSign at hvalue
      split at hvalue <;> omega
    refine ⟨_, ⟨hdigits, rfl, by omega⟩, ?_⟩
    rw [UInt64.toNat_ofNat_of_lt' hlt]
    exact hvalue

end TwoPass.Numeral
