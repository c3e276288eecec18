import TwoPass.Assembly.Listing
import TwoPass.Proofs.Numeral.Values

set_option autoImplicit false

/-!
# What operands have to be

Three kinds of operand can be at fault: the count of reserved storage, the literal of a BYTE
statement and the number in a word.  What each of them has to be is said here by the form and the
value of the operand, and the size and the code of a statement are there just if its operand is
that.
-/

namespace TwoPass

/-! ## Literals -/

/-- How literals are written. -/
inductive Literal.Spelt : Bytes → Literal → Prop where
  | characters (body : Bytes) : Spelt (utf8 "C'" ++ body ++ utf8 "'") (.characters body)
  | digits {body : Bytes} : (∀ b ∈ body, Numeral.isHexDigit b = true) →
      Spelt (utf8 "X'" ++ body ++ utf8 "'") (.digits body)

/-- Whether an operand is a literal. -/
def IsLiteral (operand : Bytes) : Prop := ∃ literal, Literal.Spelt operand literal

namespace Literal

theorem ofParts_eq_ok_iff {letter : UInt8} {body : Bytes} {literal : Literal} :
    ofParts letter body = .ok literal ↔
      (letter = 0x43 ∧ literal = .characters body) ∨
      (letter = 0x58 ∧ literal = .digits body ∧ ∀ b ∈ body, Numeral.isHexDigit b = true) := by
  unfold ofParts
  by_cases hcharacters : letter = 0x43
  · subst hcharacters
    simp [eq_comm (a := literal)]
  · by_cases hdigits : letter = 0x58
    · subst hdigits
      cases hbad : body.find? (!Numeral.isHexDigit ·) with
      | none =>
        have hall : ∀ b ∈ body, Numeral.isHexDigit b = true := by
          simpa using List.find?_eq_none.mp hbad
        constructor
        · intro h
          exact .inr ⟨rfl, (Except.ok.inj h).symm, hall⟩
        · rintro (⟨hletter, _⟩ | ⟨_, rfl, _⟩)
          · exact absurd hletter hcharacters
          · rfl
      | some digit =>
        have hdigit : Numeral.isHexDigit digit = false := by simpa using List.find?_some hbad
        have hnot : ¬ ∀ b ∈ body, Numeral.isHexDigit b = true := by
          intro hall
          have htrue := hall digit (List.mem_of_find?_eq_some hbad)
          simp [hdigit] at htrue
        simp [hnot]
    · simp [hcharacters, hdigits]

/-- What is read is the literals that are written like that. -/
theorem read_eq_ok_iff {operand : Bytes} {literal : Literal} :
    read operand = .ok literal ↔ Spelt operand literal := by
  constructor
  · intro h
    unfold read at h
    split at h
    · rename_i letter opening rest
      split at h
      · rename_i hquotes
        rw [Bool.and_eq_true, beq_iff_eq, beq_iff_eq] at hquotes
        obtain ⟨rfl, hlast⟩ := hquotes
        -- The last apostrophe is not the first one, so what is between them is the body.
        have hrest : rest = rest.dropLast ++ [Ascii.apostrophe] := by
          obtain ⟨front, rfl⟩ := List.getLast?_eq_some_iff.mp hlast
          rw [List.dropLast_concat]
        have hclosing : utf8 "'" = [Ascii.apostrophe] := by decide
        rcases ofParts_eq_ok_iff.mp h with ⟨rfl, rfl⟩ | ⟨rfl, rfl, hdigits⟩
        · have hspelt := Spelt.characters rest.dropLast
          rw [List.append_assoc, hclosing, ← hrest] at hspelt
          exact hspelt
        · have hspelt := Spelt.digits hdigits
          rw [List.append_assoc, hclosing, ← hrest] at hspelt
          exact hspelt
      · simp at h
    · simp at h
  · intro h
    have hread : ∀ letter body, read (letter :: Ascii.apostrophe :: body ++ [Ascii.apostrophe]) =
        ofParts letter body := by
      intro letter body
      simp [read]
    cases h with
    | characters body => exact (hread 0x43 body).trans (ofParts_eq_ok_iff.mpr (.inl ⟨rfl, rfl⟩))
    | @digits body hdigits =>
      exact (hread 0x58 body).trans (ofParts_eq_ok_iff.mpr (.inr ⟨rfl, rfl, hdigits⟩))

/-- A letter and two apostrophes are around the body. -/
theorem Spelt.length_eq {operand : Bytes} {literal : Literal} (h : Spelt operand literal) :
    operand.length = literal.size + 3 := by
  have hlength : (utf8 "C'").length = 2 ∧ (utf8 "X'").length = 2 ∧
      (utf8 "'").length = 1 := by decide
  cases h with
  | characters body =>
    simp only [List.length_append, hlength, Literal.size, Literal.body]
    omega
  | digits _ =>
    simp only [List.length_append, hlength, Literal.size, Literal.body]
    omega

end Literal

instance (operand : Bytes) : Decidable (IsLiteral operand) :=
  match h : Literal.read operand with
  | .ok literal => .isTrue ⟨literal, Literal.read_eq_ok_iff.mp h⟩
  | .error _ => .isFalse fun ⟨literal, hspelt⟩ => by
    simp [Literal.read_eq_ok_iff.mpr hspelt] at h

/-- Whether an operand is a number that fits a word. -/
def IsWord (operand : Bytes) : Prop :=
  ∃ v, Numeral.SignedDecimal operand v ∧ -8388608 ≤ v ∧ v ≤ 16777215

/-- A word has a value just if the operand is a number between the limits. -/
theorem wordValue_eq_ok_iff {operand : Bytes} {v : Int64} :
    wordValue operand = .ok v ↔
      Numeral.SignedDecimal operand v.toInt ∧ -8388608 ≤ v.toInt ∧ v.toInt ≤ 16777215 := by
  have hmin : wordMin.toInt = -8388608 := by decide
  have hmax : wordMax.toInt = 16777215 := by decide
  rw [← Numeral.signed_eq_ok_iff, wordValue]
  cases Numeral.signed operand with
  | error fault => simp
  | ok value =>
    simp only [Int64.lt_iff_toInt_lt, hmin, hmax, Except.ok.injEq]
    constructor
    · intro h
      split at h
      · cases h
      · obtain rfl := Except.ok.inj h
        exact ⟨rfl, by omega⟩
    · rintro ⟨rfl, hlow, hhigh⟩
      rw [if_neg (by omega)]

/-- 64 bits are room enough for the numbers that fit a word. -/
theorem exists_wordValue_iff {operand : Bytes} {v : Int} :
    (∃ w : Int64, w.toInt = v ∧ wordValue operand = .ok w) ↔
      Numeral.SignedDecimal operand v ∧ -8388608 ≤ v ∧ v ≤ 16777215 := by
  simp only [wordValue_eq_ok_iff]
  constructor
  · rintro ⟨w, rfl, h⟩
    exact h
  · rintro ⟨hnumeral, hlow, hhigh⟩
    have hvalue : (Int64.ofInt v).toInt = v := Int64.toInt_ofInt_of_le (by omega) (by omega)
    refine ⟨.ofInt v, hvalue, ?_⟩
    rw [hvalue]
    exact ⟨hnumeral, hlow, hhigh⟩

theorem isWord_iff {operand : Bytes} : IsWord operand ↔ ∃ w, wordValue operand = .ok w := by
  simp only [IsWord, ← exists_wordValue_iff]
  constructor
  · rintro ⟨_, w, _, hw⟩
    exact ⟨w, hw⟩
  · rintro ⟨w, hw⟩
    exact ⟨_, w, rfl, hw⟩

namespace Statement

variable {s : Statement}

theorem literal_eq_ok_iff {literal : Literal} :
    s.literal = .ok literal ↔ Literal.Spelt s.operand literal :=
  mapError_eq_ok_iff.trans Literal.read_eq_ok_iff

/-! ## Numbers -/

/-- A number of some bits is read just if the operand is a numeral with such a value. -/
theorem number_eq_ok_iff {quantity : Quantity} {base bits n : Nat} :
    s.number quantity base bits = .ok n ↔
      Numeral.IsNumeral base s.operand ∧ Numeral.value base s.operand = n ∧ n < 2 ^ bits := by
  have hmax : ∀ m, m ≤ Numeral.maxOfBits bits ↔ m < 2 ^ bits := by
    intro m
    have hpos := Nat.two_pow_pos bits
    rw [Numeral.maxOfBits, Nat.one_shiftLeft]
    omega
  rw [number, mapError_eq_ok_iff, Numeral.unsigned_eq_ok_iff, hmax]

/-- A START statement gives an address just if its operand is a hexadecimal number inside the
address space. -/
theorem startAddress_eq_ok_iff {address : Address} :
    s.startAddress = .ok address ↔
      Numeral.IsNumeral 16 s.operand ∧ Numeral.value 16 s.operand = address.toNat ∧
        address.toNat < addressSpace := by
  rw [startAddress, map_eq_ok_iff]
  simp only [number_eq_ok_iff]
  constructor
  · rintro ⟨n, ⟨hdigits, hvalue, hlt⟩, rfl⟩
    have hword : (UInt32.ofNat n).toNat = n :=
      UInt32.toNat_ofNat_of_lt' (Nat.lt_trans hlt (by decide))
    rw [hword]
    exact ⟨hdigits, hvalue, hlt⟩
  · rintro ⟨hdigits, hvalue, hlt⟩
    exact ⟨address.toNat, ⟨hdigits, hvalue, hlt⟩, UInt32.ofNat_toNat⟩

/-! ## Sizes -/

/-- The bytes that a statement takes, by the value or the length of its operand. -/
def room (s : Statement) : Nat :=
  match s.operation with
  | .word => 3
  | .instruction _ => 3
  | .reserveWords => 3 * Numeral.value 10 s.operand
  | .reserveBytes => Numeral.value 10 s.operand
  | .byte => s.operand.length - 3
  | _ => 0

/-- Whether the operand of a statement says how many bytes the statement takes. -/
structure Sized (s : Statement) : Prop where
  /-- storage is reserved by a decimal number of 32 bits -/
  count : s.operation.reserves = true →
    Numeral.IsNumeral 10 s.operand ∧ Numeral.value 10 s.operand < 2 ^ 32
  /-- bytes are given by a literal -/
  literal : s.operation = .byte → IsLiteral s.operand

/-- A statement has a size just if its operand gives one. -/
theorem size_eq_ok_iff {n : Nat} : s.size = .ok n ↔ s.Sized ∧ s.room = n := by
  -- The operations without a case of their own do not look at their operands.
  have hfree : s.operation.reserves = false → s.operation ≠ .byte → s.Sized := by
    intro hreserves hbyte
    exact ⟨by simp [hreserves], fun hoperation => absurd hoperation hbyte⟩
  cases hoperation : s.operation with
  | reserveWords =>
    simp only [size, room, hoperation, map_eq_ok_iff, number_eq_ok_iff]
    constructor
    · rintro ⟨_, ⟨hdigits, rfl, hlt⟩, rfl⟩
      exact ⟨⟨fun _ => ⟨hdigits, hlt⟩, by simp [hoperation]⟩, rfl⟩
    · rintro ⟨hsized, rfl⟩
      obtain ⟨hdigits, hlt⟩ := hsized.count (by rw [hoperation]; rfl)
      exact ⟨_, ⟨hdigits, rfl, hlt⟩, rfl⟩
  | reserveBytes =>
    simp only [size, room, hoperation, number_eq_ok_iff]
    constructor
    · rintro ⟨hdigits, rfl, hlt⟩
      exact ⟨⟨fun _ => ⟨hdigits, hlt⟩, by simp [hoperation]⟩, rfl⟩
    · rintro ⟨hsized, rfl⟩
      obtain ⟨hdigits, hlt⟩ := hsized.count (by rw [hoperation]; rfl)
      exact ⟨hdigits, rfl, hlt⟩
  | byte =>
    simp only [size, room, hoperation, map_eq_ok_iff, literal_eq_ok_iff]
    constructor
    · rintro ⟨literal, hspelt, rfl⟩
      have hlength := hspelt.length_eq
      exact ⟨⟨by simp [hoperation, Operation.reserves], fun _ => ⟨literal, hspelt⟩⟩, by omega⟩
    · rintro ⟨hsized, rfl⟩
      obtain ⟨literal, hspelt⟩ := hsized.literal hoperation
      have hlength := hspelt.length_eq
      exact ⟨literal, hspelt, by omega⟩
  | _ =>
    have hsized := hfree (by simp [hoperation, Operation.reserves]) (by simp [hoperation])
    simp [size, room, hoperation, hsized]

/-- The kind of a fault in a statement: only an operand that should be a literal makes the form
wrong. -/
def faultKind (s : Statement) : ReportKind :=
  if s.operation = .byte ∧ ¬ IsLiteral s.operand then .malformed else .badNumber

theorem kind_of_number_eq_error {quantity : Quantity} {base bits : Nat} {cause : Cause}
    (h : s.number quantity base bits = .error cause) : cause.kind = .badNumber := by
  unfold number at h
  cases hread : Numeral.unsigned base (Numeral.maxOfBits bits) s.operand with
  | ok n => simp [hread, Except.mapError] at h
  | error fault =>
    rw [hread] at h
    rw [← Except.error.inj h]
    rfl

theorem kind_of_literal_eq_error {cause : Cause} (h : s.literal = .error cause) :
    cause.kind = .malformed ∧ ¬ IsLiteral s.operand := by
  unfold literal at h
  cases hread : Literal.read s.operand with
  | ok literal => simp [hread, Except.mapError] at h
  | error fault =>
    rw [hread] at h
    rw [← Except.error.inj h]
    refine ⟨rfl, ?_⟩
    rintro ⟨literal, hspelt⟩
    simp [Literal.read_eq_ok_iff.mpr hspelt] at hread

/-- A statement without a size is at fault in its operand. -/
theorem kind_of_size_eq_error {cause : Cause} (h : s.size = .error cause) :
    cause.kind = s.faultKind := by
  unfold size at h
  unfold faultKind
  split at h
  case h_3 hoperation =>
    rw [if_neg (by simp [hoperation])]
    exact kind_of_number_eq_error (map_eq_error_iff.mp h)
  case h_4 hoperation =>
    rw [if_neg (by simp [hoperation])]
    exact kind_of_number_eq_error h
  case h_5 hoperation =>
    obtain ⟨hkind, hliteral⟩ := kind_of_literal_eq_error (map_eq_error_iff.mp h)
    rw [if_pos ⟨hoperation, hliteral⟩]
    exact hkind
  all_goals simp at h

/-! ## Code -/

/-- Only numbers in words can keep a statement with a good literal from having code. -/
theorem exists_code_iff {symbols : List Symbol}
    (hliteral : s.operation = .byte → IsLiteral s.operand) :
    (∃ code, s.code symbols = .ok code) ↔ (s.operation = .word → IsWord s.operand) := by
  unfold code
  split
  case h_1 hoperation => simp [hoperation]
  case h_2 hoperation =>
    simp only [hoperation, isWord_iff, true_imp_iff]
    cases wordValue s.operand <;> simp
  case h_3 hoperation =>
    obtain ⟨literal, hspelt⟩ := hliteral hoperation
    rw [literal_eq_ok_iff.mpr hspelt]
    simp [hoperation, Except.map]
  case h_4 hword hbyte =>
    exact ⟨fun _ hoperation => absurd hoperation hword, fun _ => ⟨[], rfl⟩⟩

/-- A statement with a good literal and no code has a bad number. -/
theorem kind_of_code_eq_error {symbols : List Symbol} {cause : Cause}
    (hliteral : s.operation = .byte → IsLiteral s.operand) (h : s.code symbols = .error cause) :
    cause.kind = s.faultKind := by
  unfold code at h
  split at h
  case h_1 => simp at h
  case h_2 hoperation =>
    split at h
    · rw [← Except.error.inj h, faultKind, if_neg (by simp [hoperation])]
      rfl
    · simp at h
  case h_3 hoperation =>
    have hbad := (kind_of_literal_eq_error (map_eq_error_iff.mp h)).2
    exact absurd (hliteral hoperation) hbad
  case h_4 => simp at h

end Statement

end TwoPass
