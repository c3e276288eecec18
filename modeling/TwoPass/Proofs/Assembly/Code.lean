import TwoPass.Proofs.Object.Digits
import TwoPass.Proofs.Source.Operands
import TwoPass.Proofs.Text.Words

set_option autoImplicit false

/-!
# Object code

Code is an opcode as the table spells it, followed by digits, or it is digits alone.  So it is plain
if the opcode is; and it fills the bytes that the location counter gives to its statement if the
opcode has two digits, the address fits four, and no literal of digits is in the way: of such a
literal two digits make one byte of code, while the counter gives it one byte for each digit.
-/

namespace TwoPass

/-! ## What code is made of -/

/-- A name is bound to the address of one of the symbols. -/
theorem Symbol.exists_of_lookup {symbols : List Symbol} {name : Bytes} {address : Address}
    (h : Symbol.lookup symbols name = some address) :
    ∃ symbol ∈ symbols, symbol.address = address := by
  obtain ⟨symbol, hfind, haddress⟩ := Option.map_eq_some_iff.mp h
  exact ⟨symbol, List.mem_of_find?_eq_some hfind, haddress⟩

/-- The four kinds of code: an opcode with the address of a symbol or zero, a word, a literal, and
none. -/
theorem Statement.code_cases {symbols : List Symbol} {s : Statement} {code : Bytes}
    (h : s.code symbols = .ok code) :
    (∃ opcode address, s.operation = .instruction opcode ∧
      (address = 0 ∨ ∃ symbol ∈ symbols, symbol.address = address) ∧
      code = opcode ++ upperHex 4 address.toNat) ∨
    (s.operation = .word ∧ ∃ value, code = wordCode value) ∨
    (s.operation = .byte ∧ ∃ literal, Literal.read s.operand = .ok literal ∧ code = literal.code) ∨
    (code = [] ∧ (s.operation.reserves = true ∨ s.size = .ok 0)) := by
  unfold Statement.code at h
  split at h
  · rename_i opcode hoperation
    refine Or.inl ⟨opcode, _, hoperation, ?_, (Except.ok.inj h).symm⟩
    split
    · exact Or.inl rfl
    · cases hlookup : Symbol.lookup symbols s.operand with
      | none => exact Or.inl rfl
      | some address => exact Or.inr (Symbol.exists_of_lookup hlookup)
  · rename_i hoperation
    split at h
    · simp at h
    · exact Or.inr (Or.inl ⟨hoperation, _, (Except.ok.inj h).symm⟩)
  · rename_i hoperation
    obtain ⟨literal, hliteral, rfl⟩ := map_eq_ok_iff.mp h
    exact Or.inr (Or.inr (Or.inl ⟨hoperation, literal, mapError_eq_ok_iff.mp hliteral, rfl⟩))
  · refine Or.inr (Or.inr (Or.inr ⟨(Except.ok.inj h).symm, ?_⟩))
    cases hoperation : s.operation <;> simp_all [Operation.reserves, Statement.size]

/-- A literal of digits is made of digits. -/
theorem Literal.isHexDigit_of_read {operand body : Bytes}
    (h : Literal.read operand = .ok (.digits body)) : ∀ b ∈ body, Numeral.isHexDigit b = true := by
  cases Literal.read_eq_ok_iff.mp h with
  | digits hdigits => exact hdigits

/-- The code of a literal is digits. -/
theorem Literal.isHexDigit_of_mem_code {operand : Bytes} {literal : Literal}
    (h : Literal.read operand = .ok literal) : ∀ b ∈ literal.code, Numeral.isHexDigit b = true := by
  cases literal with
  | characters body =>
    intro b hb
    obtain ⟨_, _, hdigit⟩ := List.mem_flatMap.mp hb
    exact isHexDigit_of_mem_upperHex hdigit
  | digits body => exact Literal.isHexDigit_of_read h

/-! ## Code is plain -/

/-- Digits are plain. -/
theorem isPlain_of_isHexDigit {text : Bytes} (h : ∀ b ∈ text, Numeral.isHexDigit b = true) :
    IsPlain text := by
  refine ⟨?_, ?_, ?_⟩
  · intro hb
    exact absurd (h _ hb) (by decide)
  · intro hb
    exact absurd (h _ hb) (by decide)
  · intro hb
    exact absurd (h _ hb) (by decide)

theorem IsPlain.append {front back : Bytes} (hfront : IsPlain front) (hback : IsPlain back) :
    IsPlain (front ++ back) := by
  refine ⟨?_, ?_, ?_⟩
  · simp [hfront.1, hback.1]
  · simp [hfront.2.1, hback.2.1]
  · simp [hfront.2.2, hback.2.2]

/-- Code is plain if the opcode is. -/
theorem Statement.isPlain_code {symbols : List Symbol} {s : Statement} {code : Bytes}
    (h : s.code symbols = .ok code)
    (hopcode : ∀ opcode, s.operation = .instruction opcode → IsPlain opcode) : IsPlain code := by
  rcases Statement.code_cases h with ⟨opcode, address, hoperation, _, rfl⟩ | ⟨_, value, rfl⟩ |
    ⟨_, literal, hliteral, rfl⟩ | ⟨rfl, _⟩
  · have hdigits : IsPlain (upperHex 4 address.toNat) :=
      isPlain_of_isHexDigit fun _ hb => isHexDigit_of_mem_upperHex hb
    exact (hopcode opcode hoperation).append hdigits
  · exact isPlain_of_isHexDigit fun _ hb => isHexDigit_of_mem_upperHex hb
  · exact isPlain_of_isHexDigit (Literal.isHexDigit_of_mem_code hliteral)
  · exact isPlain_of_isHexDigit (by simp)

/-! ## Code fills its place -/

open Object (WholeBytes codeSize)

/-- Printed numbers of an even width that hold their number are whole bytes. -/
theorem wholeBytes_upperHex {width n : Nat} (heven : width % 2 = 0) (hwidth : 0 < width)
    (h : n < 16 ^ width) : WholeBytes (upperHex width n) := by
  refine ⟨fun _ hb => isHexDigit_of_mem_upperHex hb, ?_⟩
  rw [length_upperHex hwidth h]
  exact heven

/-- An opcode of two digits and an address of four make three bytes. -/
theorem wholeBytes_instruction {opcode : Bytes} {address : Address} (hlength : opcode.length = 2)
    (hdigits : ∀ b ∈ opcode, Numeral.isHexDigit b = true) (haddress : address.toNat ≤ 0xFFFF) :
    WholeBytes (opcode ++ upperHex 4 address.toNat) ∧
      codeSize (opcode ++ upperHex 4 address.toNat) = 3 := by
  have hlt : address.toNat < 16 ^ 4 := by omega
  have hfield : (upperHex 4 address.toNat).length = 4 := length_upperHex (by decide) hlt
  have hopcode : WholeBytes opcode := ⟨hdigits, by rw [hlength]⟩
  refine ⟨hopcode.append (wholeBytes_upperHex (by decide) (by decide) hlt), ?_⟩
  rw [codeSize, List.length_append, hlength, hfield]

/-- The mask leaves 24 bits. -/
theorem toNat_and_wordMask (n : UInt32) : (n &&& wordMask).toNat = n.toNat % 2 ^ 24 := by
  rw [UInt32.toNat_and]
  exact Nat.and_two_pow_sub_one_eq_mod n.toNat 24

/-- A word makes three bytes. -/
theorem wholeBytes_wordCode (value : Int64) :
    WholeBytes (wordCode value) ∧ codeSize (wordCode value) = 3 := by
  have hlt : (value.toUInt64.toUInt32 &&& wordMask).toNat < 16 ^ 6 := by
    rw [toNat_and_wordMask]
    omega
  refine ⟨wholeBytes_upperHex (by decide) (by decide) hlt, ?_⟩
  rw [codeSize, wordCode, length_upperHex (by decide) hlt]

/-- Characters make one byte each. -/
theorem Literal.wholeBytes_code_characters (body : Bytes) :
    WholeBytes (Literal.characters body).code ∧
      codeSize (Literal.characters body).code = body.length := by
  induction body with
  | nil => exact ⟨.nil, rfl⟩
  | cons b body ih =>
    have hlt : b.toNat < 16 ^ 2 := b.toNat_lt
    have hfirst : WholeBytes (upperHex 2 b.toNat) := wholeBytes_upperHex (by decide) (by decide) hlt
    have hlength : (upperHex 2 b.toNat).length = 2 := length_upperHex (by decide) hlt
    have hcode : (Literal.characters (b :: body)).code =
        upperHex 2 b.toNat ++ (Literal.characters body).code := rfl
    have hrest := ih.2
    rw [hcode]
    refine ⟨hfirst.append ih.1, ?_⟩
    simp only [codeSize, List.length_append, hlength, List.length_cons] at hrest ⊢
    omega

/-- A literal makes whole bytes, unless its digits do not come in pairs. -/
theorem Literal.wholeBytes_code {operand : Bytes} {literal : Literal}
    (h : Literal.read operand = .ok literal)
    (heven : ∀ body, literal = .digits body → body.length % 2 = 0) : WholeBytes literal.code := by
  cases literal with
  | characters body => exact (Literal.wholeBytes_code_characters body).1
  | digits body => exact ⟨Literal.isHexDigit_of_read h, heven body rfl⟩

/-- The bytes that the location counter gives to a statement beyond those of its code.  Only a
literal of digits has any. -/
def Statement.surplus (s : Statement) : Nat :=
  match s.operation, Literal.read s.operand with
  | .byte, .ok (.digits body) => body.length - codeSize body
  | _, _ => 0

theorem Statement.surplus_of_digits {s : Statement} {body : Bytes}
    (hoperation : s.operation = .byte) (hread : Literal.read s.operand = .ok (.digits body)) :
    s.surplus = body.length - codeSize body := by
  simp [Statement.surplus, hoperation, hread]

/-- There is no surplus just if no literal of digits has a body. -/
theorem Statement.surplus_eq_zero_iff {s : Statement} :
    s.surplus = 0 ↔
      (s.operation = .byte → ∀ body, Literal.read s.operand = .ok (.digits body) → body = []) := by
  constructor
  · intro hzero hoperation body hread
    rw [Statement.surplus_of_digits hoperation hread, codeSize] at hzero
    exact List.eq_nil_of_length_eq_zero (by omega)
  · intro h
    unfold Statement.surplus
    split
    · rename_i body hoperation hread
      rw [h hoperation body hread]
      rfl
    · rfl

theorem Statement.surplus_of_ne_byte {s : Statement} (h : s.operation ≠ .byte) : s.surplus = 0 :=
  Statement.surplus_eq_zero_iff.mpr fun hoperation => absurd hoperation h

/-- Without code there is no surplus. -/
theorem Statement.surplus_of_code_nil {symbols : List Symbol} {s : Statement}
    (h : s.code symbols = .ok []) : s.surplus = 0 := by
  rw [Statement.surplus_eq_zero_iff]
  intro hoperation body hread
  have hcode : s.code symbols = .ok body := by
    simp [Statement.code, hoperation, Statement.literal, hread, Except.mapError, Except.map,
      Literal.code]
  exact Except.ok.inj (hcode.symm.trans h)

/-- A literal gets one byte for each byte of its body: the bytes of its code and the surplus. -/
theorem Statement.size_of_literal {s : Statement} {literal : Literal}
    (hoperation : s.operation = .byte) (hread : Literal.read s.operand = .ok literal) :
    s.size = .ok (codeSize literal.code + s.surplus) := by
  have hsize : s.size = .ok literal.size := by
    simp [Statement.size, hoperation, Statement.literal, hread, Except.mapError, Except.map]
  rw [hsize]
  cases literal with
  | characters body =>
    have hnone : s.surplus = 0 := by simp [Statement.surplus, hoperation, hread]
    rw [hnone, (Literal.wholeBytes_code_characters body).2]
    rfl
  | digits body =>
    have hle : codeSize body ≤ body.length := Nat.div_le_self _ _
    rw [Statement.surplus_of_digits hoperation hread]
    show Except.ok body.length = .ok (codeSize body + (body.length - codeSize body))
    rw [Nat.add_sub_cancel' hle]

/-- A literal that has code is given at least one byte. -/
theorem Literal.size_pos {literal : Literal} (h : literal.code ≠ []) : 0 < literal.size := by
  refine List.length_pos_iff.mpr fun hbody => h ?_
  cases literal with
  | characters body =>
    obtain rfl : body = [] := hbody
    rfl
  | digits body => exact hbody

/-- The location counter gives at least one byte to a statement that has code. -/
theorem Statement.size_pos {symbols : List Symbol} {s : Statement} {code : Bytes} {size : Nat}
    (h : s.code symbols = .ok code) (hne : code ≠ []) (hsize : s.size = .ok size) : 0 < size := by
  rcases Statement.code_cases h with ⟨opcode, _, hoperation, _⟩ | ⟨hoperation, _⟩ |
    ⟨hoperation, literal, hread, rfl⟩ | ⟨hblank, _⟩
  · obtain rfl : 3 = size := by simpa [Statement.size, hoperation] using hsize
    decide
  · obtain rfl : 3 = size := by simpa [Statement.size, hoperation] using hsize
    decide
  · have hliteral : literal.size = size := by
      simpa [Statement.size, hoperation, Statement.literal, hread, Except.mapError,
        Except.map] using hsize
    rw [← hliteral]
    exact Literal.size_pos hne
  · exact absurd hblank hne

/-- Whether an opcode has a property can be decided if the property can be. -/
instance (operation : Operation) (p : Bytes → Prop) [DecidablePred p] :
    Decidable (∀ opcode, operation = .instruction opcode → p opcode) :=
  match operation with
  | .instruction opcode =>
    decidable_of_iff (p opcode) ⟨fun h _ heq => Operation.instruction.inj heq ▸ h,
      fun h => h opcode rfl⟩
  | .unknown | .start | .finish | .word | .reserveWords | .reserveBytes | .byte => isTrue nofun

/-- The same for the body of a literal of digits. -/
instance (literal : Except LiteralFault Literal) (p : Bytes → Prop) [DecidablePred p] :
    Decidable (∀ body, literal = .ok (.digits body) → p body) :=
  match literal with
  | .ok (.digits body) =>
    decidable_of_iff (p body)
      ⟨fun h _ heq => Literal.digits.inj (Except.ok.inj heq) ▸ h, fun h => h body rfl⟩
  | .ok (.characters _) | .error _ => isTrue nofun

section Sizes

variable {symbols : List Symbol} {s : Statement} {code : Bytes}

/-- An operand's address fits four digits if those of the symbols do. -/
theorem Symbol.toNat_le_of_reference {address : Address}
    (hsymbols : ∀ symbol ∈ symbols, symbol.address.toNat ≤ 0xFFFF)
    (h : address = 0 ∨ ∃ symbol ∈ symbols, symbol.address = address) : address.toNat ≤ 0xFFFF := by
  rcases h with rfl | ⟨symbol, hmem, rfl⟩
  · decide
  · exact hsymbols symbol hmem

/-- The location counter gives to a statement the bytes of its code and the surplus, unless it
reserves storage. -/
theorem Statement.size_of_code (h : s.code symbols = .ok code)
    (hopcode : ∀ opcode, s.operation = .instruction opcode →
      opcode.length = 2 ∧ ∀ b ∈ opcode, Numeral.isHexDigit b = true)
    (hsymbols : ∀ symbol ∈ symbols, symbol.address.toNat ≤ 0xFFFF)
    (hreserves : s.operation.reserves = false) : s.size = .ok (codeSize code + s.surplus) := by
  rcases Statement.code_cases h with ⟨opcode, address, hoperation, haddress, rfl⟩ |
    ⟨hoperation, value, rfl⟩ | ⟨hoperation, literal, hread, rfl⟩ | ⟨rfl, hsize⟩
  · obtain ⟨hlength, hdigits⟩ := hopcode opcode hoperation
    have hle := Symbol.toNat_le_of_reference hsymbols haddress
    rw [(wholeBytes_instruction hlength hdigits hle).2,
      Statement.surplus_of_ne_byte (by simp [hoperation])]
    simp [Statement.size, hoperation]
  · rw [(wholeBytes_wordCode value).2, Statement.surplus_of_ne_byte (by simp [hoperation])]
    simp [Statement.size, hoperation]
  · exact Statement.size_of_literal hoperation hread
  · rw [Statement.surplus_of_code_nil h]
    exact hsize.resolve_left (by simp [hreserves])

/-- Code comes in whole bytes, unless a literal has an odd number of digits. -/
theorem Statement.wholeBytes_code (h : s.code symbols = .ok code)
    (hopcode : ∀ opcode, s.operation = .instruction opcode →
      opcode.length = 2 ∧ ∀ b ∈ opcode, Numeral.isHexDigit b = true)
    (hsymbols : ∀ symbol ∈ symbols, symbol.address.toNat ≤ 0xFFFF)
    (heven : s.operation = .byte → ∀ body, Literal.read s.operand = .ok (.digits body) →
      body.length % 2 = 0) : WholeBytes code := by
  rcases Statement.code_cases h with ⟨opcode, address, hoperation, haddress, rfl⟩ |
    ⟨_, value, rfl⟩ | ⟨hoperation, literal, hread, rfl⟩ | ⟨rfl, _⟩
  · obtain ⟨hlength, hdigits⟩ := hopcode opcode hoperation
    exact (wholeBytes_instruction hlength hdigits
      (Symbol.toNat_le_of_reference hsymbols haddress)).1
  · exact (wholeBytes_wordCode value).1
  · refine Literal.wholeBytes_code hread ?_
    rintro body rfl
    exact heven hoperation body hread
  · exact .nil

theorem Statement.code_eq_nil_of_reserves (h : s.code symbols = .ok code)
    (hreserves : s.operation.reserves = true) : code = [] := by
  cases hoperation : s.operation with
  | reserveWords => simpa [Statement.code, hoperation] using h.symm
  | reserveBytes => simpa [Statement.code, hoperation] using h.symm
  | _ => simp [hoperation, Operation.reserves] at hreserves

/-- The location counter gives to a statement at least the bytes of its code. -/
theorem Statement.codeSize_le (h : s.code symbols = .ok code)
    (hopcode : ∀ opcode, s.operation = .instruction opcode →
      opcode.length = 2 ∧ ∀ b ∈ opcode, Numeral.isHexDigit b = true)
    (hsymbols : ∀ symbol ∈ symbols, symbol.address.toNat ≤ 0xFFFF) {size : Nat}
    (hsize : s.size = .ok size) : codeSize code ≤ size := by
  cases hreserves : s.operation.reserves with
  | true =>
    rw [Statement.code_eq_nil_of_reserves h hreserves]
    exact Nat.zero_le size
  | false =>
    have hcounted := Statement.size_of_code h hopcode hsymbols hreserves
    rw [hsize] at hcounted
    rw [Except.ok.inj hcounted]
    exact Nat.le_add_right _ _

/-- Code is whole bytes, as many as the location counter gives to the statement; storage that is
only reserved has none. -/
structure Statement.Fills (s : Statement) (code : Bytes) : Prop where
  /-- no digit is left over -/
  whole : WholeBytes code
  /-- the code and its place are of one size -/
  size : s.operation.reserves = false → s.size = .ok (codeSize code)
  /-- reserved storage has no code -/
  reserved : s.operation.reserves = true → code = []

theorem Statement.fills_code (h : s.code symbols = .ok code)
    (hopcode : ∀ opcode, s.operation = .instruction opcode →
      opcode.length = 2 ∧ ∀ b ∈ opcode, Numeral.isHexDigit b = true)
    (hsymbols : ∀ symbol ∈ symbols, symbol.address.toNat ≤ 0xFFFF)
    (hliteral : s.operation = .byte → ∀ body, Literal.read s.operand = .ok (.digits body) →
      body = []) :
    s.Fills code := by
  have heven : s.operation = .byte → ∀ body, Literal.read s.operand = .ok (.digits body) →
      body.length % 2 = 0 := by
    intro hoperation body hread
    rw [hliteral hoperation body hread]
    rfl
  refine ⟨Statement.wholeBytes_code h hopcode hsymbols heven, ?_,
    Statement.code_eq_nil_of_reserves h⟩
  intro hreserves
  rw [Statement.size_of_code h hopcode hsymbols hreserves,
    Statement.surplus_eq_zero_iff.mpr hliteral]
  rfl

end Sizes

end TwoPass
