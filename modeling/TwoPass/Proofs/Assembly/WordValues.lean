import TwoPass.Proofs.Assembly.Code

set_option autoImplicit false

/-!
# Values in words

A word has 24 bits.  A WORD statement may give them as a signed number or as an unsigned one, so its
values go from the least signed to the greatest unsigned one.  A value is read as a signed number of
64 bits, cut down to an unsigned one of 32 and masked; what is left of it is its 24 bits in two's
complement.  So the values that share their code are those that the signed and the unsigned reading
of it give: they are 2 ^ 24 apart.
-/

namespace TwoPass

/-! ## Operands -/

/-- An operand that gives a word a value: a decimal number with at most one sign, signed or unsigned
in 24 bits. -/
structure GivesWord (operand : Bytes) (v : Int) : Prop where
  /-- it is a number with this value -/
  numeral : Numeral.SignedDecimal operand v
  /-- the value is not below the least signed one -/
  low : -2 ^ 23 ≤ v
  /-- the value is not above the greatest unsigned one -/
  high : v ≤ 2 ^ 24 - 1

/-- The values that operands give are those that are read, and all of them are numbers of 64
bits. -/
theorem givesWord_iff {operand : Bytes} {v : Int} :
    GivesWord operand v ↔ ∃ w : Int64, w.toInt = v ∧ wordValue operand = .ok w := by
  rw [exists_wordValue_iff]
  constructor
  · intro h
    exact ⟨h.numeral, h.low, h.high⟩
  · rintro ⟨hnumeral, hlow, hhigh⟩
    exact ⟨hnumeral, hlow, hhigh⟩

/-- A WORD statement has the code of the value that is read, if there is one. -/
theorem Statement.code_eq_ok_iff_of_word {s : Statement} (hword : s.operation = .word)
    {symbols : List Symbol} {code : Bytes} :
    s.code symbols = .ok code ↔ ∃ w, wordValue s.operand = .ok w ∧ wordCode w = code := by
  simp only [Statement.code, hword]
  cases wordValue s.operand <;> simp

/-! ## Codes -/

/-- A hexadecimal digit that is decimal or a letter of upper case. -/
def IsUpperHexDigit (b : UInt8) : Prop := 0x30 ≤ b ∧ b ≤ 0x39 ∨ 0x41 ≤ b ∧ b ≤ 0x46

theorem isUpperHexDigit_hexDigit {value : Nat} (h : value < 16) :
    IsUpperHexDigit (hexDigit value) := by
  have hall : ∀ v : Fin 16, 0x30 ≤ hexDigit v ∧ hexDigit v ≤ 0x39 ∨
      0x41 ≤ hexDigit v ∧ hexDigit v ≤ 0x46 := by
    decide
  exact hall ⟨value, h⟩

/-- The digits of a printed number have its value, whatever zeros stand in front. -/
theorem value_upperHex (width n : Nat) : Numeral.value 16 (upperHex width n) = n := by
  have hread : Numeral.unsigned 16 n (upperHex width n) = .ok n :=
    Numeral.unsigned_upperHex (Nat.le_refl n)
  exact (Numeral.unsigned_eq_ok_iff.mp hread).2.1

/-- The code of a value in a word. -/
structure EncodesWord (v : Int) (code : Bytes) : Prop where
  /-- it has six digits -/
  length : code.length = 6
  /-- they are of upper case -/
  digits : ∀ b ∈ code, IsUpperHexDigit b
  /-- they stand for the value modulo the number of words -/
  value : (Numeral.value 16 code : Int) = v % 2 ^ 24
  /-- as 24 bits, they are the value in two's complement -/
  bits : BitVec.ofNat 24 (Numeral.value 16 code) = BitVec.ofInt 24 v

/-- What the truncation and the mask leave of a number is the number modulo 2 ^ 24, below zero too:
a signed number and its bits differ by a multiple of 2 ^ 64. -/
theorem toNat_lowBits (w : Int64) :
    ((w.toUInt64.toUInt32 &&& wordMask).toNat : Int) = w.toInt % 2 ^ 24 := by
  have hbits : (w.toUInt64.toNat : Int) % 2 ^ 64 = w.toInt % 2 ^ 64 := by
    rw [Numeral.toInt_eq_bmod]
    exact Int.bmod_emod.symm
  rw [toNat_and_wordMask, UInt64.toNat_toUInt32]
  omega

theorem encodesWord_wordCode (w : Int64) : EncodesWord w.toInt (wordCode w) := by
  have hlow := toNat_lowBits w
  have hvalue : (Numeral.value 16 (wordCode w) : Int) = w.toInt % 2 ^ 24 := by
    rw [wordCode, value_upperHex, hlow]
  refine { length := ?_, digits := ?_, value := hvalue, bits := ?_ }
  · exact length_upperHex (by decide) (by omega)
  · intro b hb
    obtain ⟨value, hlt, rfl⟩ := exists_hexDigit_of_mem_upperHex hb
    exact isUpperHexDigit_hexDigit hlt
  · apply BitVec.eq_of_toNat_eq
    rw [BitVec.toNat_ofNat, BitVec.toNat_ofInt]
    omega

/-- Values that fit a word share their code just if they are equal or as far apart as there are
words. -/
theorem wordCode_eq_iff {v w : Int64} (hv : -2 ^ 23 ≤ v.toInt ∧ v.toInt ≤ 2 ^ 24 - 1)
    (hw : -2 ^ 23 ≤ w.toInt ∧ w.toInt ≤ 2 ^ 24 - 1) :
    wordCode v = wordCode w ↔
      v.toInt = w.toInt ∨ v.toInt = w.toInt + 2 ^ 24 ∨ w.toInt = v.toInt + 2 ^ 24 := by
  constructor
  · intro h
    have hresidue : v.toInt % 2 ^ 24 = w.toInt % 2 ^ 24 := by
      rw [← (encodesWord_wordCode v).value, h, (encodesWord_wordCode w).value]
    omega
  · intro h
    have hresidue : v.toInt % 2 ^ 24 = w.toInt % 2 ^ 24 := by omega
    rw [← toNat_lowBits, ← toNat_lowBits, Int.natCast_inj] at hresidue
    rw [wordCode, wordCode, hresidue]

/-- An operand that gives a word a value gives its statement the code of that value. -/
theorem GivesWord.exists_code {s : Statement} {v : Int} (h : GivesWord s.operand v)
    (hword : s.operation = .word) (symbols : List Symbol) :
    ∃ x : Int64, x.toInt = v ∧ s.code symbols = .ok (wordCode x) := by
  obtain ⟨x, hx, hread⟩ := givesWord_iff.mp h
  exact ⟨x, hx, (Statement.code_eq_ok_iff_of_word hword).mpr ⟨x, hread, rfl⟩⟩

/-- A WORD statement has code just if its operand is a decimal number, with at most one sign, that
fits 24 bits as a signed or as an unsigned one.  The code is six digits of upper case for the value
modulo 2 ^ 24, and two values share it just if they are equal or 2 ^ 24 apart. -/
theorem Statement.code_of_word {s : Statement} (hword : s.operation = .word)
    (symbols : List Symbol) :
    ((∃ code, s.code symbols = .ok code) ↔ ∃ v, GivesWord s.operand v) ∧
    (∀ v, GivesWord s.operand v → ∃ code, s.code symbols = .ok code ∧ EncodesWord v code) ∧
    ∀ (t : Statement) (others : List Symbol) (v w : Int), t.operation = .word →
      GivesWord s.operand v → GivesWord t.operand w →
      (s.code symbols = t.code others ↔ v = w ∨ v = w + 2 ^ 24 ∨ w = v + 2 ^ 24) := by
  refine ⟨⟨?_, ?_⟩, ?_, ?_⟩
  · rintro ⟨_, hok⟩
    obtain ⟨x, hread, _⟩ := (code_eq_ok_iff_of_word hword).mp hok
    exact ⟨x.toInt, givesWord_iff.mpr ⟨x, rfl, hread⟩⟩
  · rintro ⟨v, hv⟩
    obtain ⟨x, _, hok⟩ := hv.exists_code hword symbols
    exact ⟨wordCode x, hok⟩
  · intro v hv
    obtain ⟨x, rfl, hok⟩ := hv.exists_code hword symbols
    exact ⟨wordCode x, hok, encodesWord_wordCode x⟩
  · intro t others v w ht hv hw
    obtain ⟨x, rfl, hx⟩ := hv.exists_code hword symbols
    obtain ⟨y, rfl, hy⟩ := hw.exists_code ht others
    rw [hx, hy, Except.ok.injEq]
    exact wordCode_eq_iff ⟨hv.low, hv.high⟩ ⟨hw.low, hw.high⟩

/-- A WORD statement with an operand. -/
def wordStatement (operand : Bytes) : Statement := ⟨⟨[], 1⟩, absent, utf8 "WORD", operand, .word⟩

/-- Operands that give no value: numbers one beyond the limits and beyond 64 bits, two signs, a sign
alone, nothing. -/
def unfitOperands : List Bytes :=
  [utf8 "16777216", utf8 "-8388609", utf8 "18446744073709551616", utf8 "+-1", utf8 "-", []]

theorem Statement.code_of_word_extremes :
    GivesWord (utf8 "-8388608") (-8388608) ∧ GivesWord (utf8 "+08388608") 8388608 ∧
    GivesWord (utf8 "16777215") 16777215 ∧ (∀ operand ∈ unfitOperands, ¬ ∃ v, GivesWord operand v) ∧
    (wordStatement (utf8 "-8388608")).code [] = .ok (utf8 "800000") ∧
    EncodesWord (-8388608) (utf8 "800000") ∧
    (wordStatement (utf8 "-8388608")).code [] = (wordStatement (utf8 "+08388608")).code [] ∧
    (wordStatement (utf8 "-8388608")).code [] ≠ (wordStatement (utf8 "16777215")).code [] := by
  have hlow : GivesWord (utf8 "-8388608") (-8388608) :=
    givesWord_iff.mpr ⟨-8388608, by decide, by decide +kernel⟩
  have hmiddle : GivesWord (utf8 "+08388608") 8388608 :=
    givesWord_iff.mpr ⟨8388608, by decide, by decide +kernel⟩
  have hhigh : GivesWord (utf8 "16777215") 16777215 :=
    givesWord_iff.mpr ⟨16777215, by decide, by decide +kernel⟩
  have hfails : ∀ operand ∈ unfitOperands, ((wordStatement operand).code []).isOk = false := by
    decide +kernel
  obtain ⟨_, hencodes, hshared⟩ := code_of_word (s := wordStatement (utf8 "-8388608")) rfl []
  have hcode : (wordStatement (utf8 "-8388608")).code [] = .ok (utf8 "800000") := by decide +kernel
  refine ⟨hlow, hmiddle, hhigh, ?_, hcode, ?_, ?_, ?_⟩
  · intro operand hoperand hgives
    obtain ⟨code, hcode⟩ := (code_of_word (s := wordStatement operand) rfl []).1.mpr hgives
    have hfail := hfails operand hoperand
    rw [hcode] at hfail
    exact Bool.noConfusion hfail
  · obtain ⟨code, hok, hword⟩ := hencodes _ hlow
    rw [hcode, Except.ok.injEq] at hok
    rwa [hok]
  · exact (hshared _ [] _ _ rfl hlow hmiddle).mpr (by decide)
  · intro heq
    exact absurd ((hshared _ [] _ _ rfl hlow hhigh).mp heq) (by decide)

end TwoPass
