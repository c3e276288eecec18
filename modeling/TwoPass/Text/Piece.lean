import TwoPass.Text.Bytes

set_option autoImplicit false

/-!
# The characters of a byte string

A byte string falls into pieces: well-formed UTF-8 sequences, and stray bytes that belong to none.
Well-formed is meant strictly: no overlong form, no surrogate, nothing above U+10FFFF.  White space,
quoting and padding all work on pieces, and the pieces of a text put together again are the text.
-/

namespace TwoPass

/-! ## The sequence at the front -/

/-- What the first byte of a sequence announces. -/
structure Lead where
  /-- how many continuation bytes follow -/
  trailing : Nat
  /-- the bits of the code point that the first byte holds -/
  bits : Nat
  /-- the least code point that needs a sequence of this length -/
  least : Nat
  deriving DecidableEq, Repr, Inhabited

/-- What a byte announces as the first of a sequence, if it can be one. -/
def Lead.ofByte? (b : UInt8) : Option Lead :=
  if b < 0x80 then some ⟨0, b.toNat, 0⟩
  else if b < 0xC0 then none
  else if b < 0xE0 then some ⟨1, b.toNat % 32, 0x80⟩
  else if b < 0xF0 then some ⟨2, b.toNat % 16, 0x800⟩
  else if b < 0xF8 then some ⟨3, b.toNat % 8, 0x10000⟩
  else none

/-- Whether a byte continues a sequence. -/
def isContinuation (b : UInt8) : Bool := 0x80 ≤ b && b < 0xC0

/-- The character that the bytes at the front spell, and how many bytes it takes.  A sequence longer
than its code point needs is refused, and so is one whose code point is no character. -/
def leadingChar? : Bytes → Option (Char × Nat)
  | [] => none
  | b :: rest =>
    match Lead.ofByte? b with
    | none => none
    | some lead =>
      let tail := rest.take lead.trailing
      let code := tail.foldl (fun code c => code * 64 + c.toNat % 64) lead.bits
      if tail.length = lead.trailing ∧ tail.all isContinuation ∧ lead.least ≤ code ∧
        code.isValidChar then
        some (Char.ofNat code, lead.trailing + 1)
      else none

/-! ## Pieces -/

/-- A unit of text. -/
inductive Piece where
  /-- a character, with the bytes that spell it -/
  | char (c : Char) (spelling : Bytes)
  /-- a byte that is part of no well-formed sequence -/
  | stray (b : UInt8)
  deriving DecidableEq, Repr, Inhabited

/-- The bytes of a piece. -/
def Piece.bytes : Piece → Bytes
  | .char _ spelling => spelling
  | .stray b => [b]

/-- The pieces of a text after its first `skip` bytes, behind the pieces found before, latest first.
The bytes to skip are the rest of the sequence found last. -/
def piecesFrom : Nat → Bytes → List Piece → List Piece
  | _, [], found => found.reverse
  | skip + 1, _ :: rest, found => piecesFrom skip rest found
  | 0, b :: rest, found =>
    match leadingChar? (b :: rest) with
    | some (c, width) => piecesFrom (width - 1) rest (.char c ((b :: rest).take width) :: found)
    | none => piecesFrom 0 rest (.stray b :: found)

/-- The pieces of a text, in order. -/
def pieces (text : Bytes) : List Piece := piecesFrom 0 text []

/-- The text that pieces spell. -/
def spell (ps : List Piece) : Bytes := ps.flatMap Piece.bytes

/-! ## Nothing is lost -/

/-- A character takes at least one byte, and no more than there are. -/
theorem leadingChar?_width {b : UInt8} {rest : Bytes} {c : Char} {width : Nat}
    (h : leadingChar? (b :: rest) = some (c, width)) : 1 ≤ width ∧ width ≤ rest.length + 1 := by
  simp only [leadingChar?] at h
  split at h
  · simp at h
  · rename_i lead _
    split at h
    · rename_i valid
      obtain ⟨_, rfl⟩ := Prod.mk.inj (Option.some.inj h)
      have short := valid.1
      rw [List.length_take] at short
      omega
    · simp at h

/-- The pieces found before stay in front. -/
theorem piecesFrom_eq_append (skip : Nat) (text : Bytes) (found : List Piece) :
    piecesFrom skip text found = found.reverse ++ piecesFrom skip text [] := by
  induction text generalizing skip found with
  | nil => simp [piecesFrom]
  | cons b rest ih =>
    cases skip with
    | succ skip => exact ih skip found
    | zero =>
      simp only [piecesFrom]
      split
      · rename_i c width _
        rw [ih (width - 1) (_ :: found), ih (width - 1) [_]]
        simp
      · rw [ih 0 (_ :: found), ih 0 [_]]
        simp

/-- The pieces after the first bytes of a text spell the text after them. -/
theorem spell_piecesFrom (skip : Nat) (text : Bytes) :
    spell (piecesFrom skip text []) = text.drop skip := by
  induction text generalizing skip with
  | nil => simp [piecesFrom, spell]
  | cons b rest ih =>
    cases skip with
    | succ skip => exact ih skip
    | zero =>
      simp only [piecesFrom]
      split
      · rename_i c width found
        obtain ⟨positive, _⟩ := leadingChar?_width found
        obtain ⟨more, rfl⟩ : ∃ more, width = more + 1 := ⟨width - 1, by omega⟩
        have after := ih more
        rw [piecesFrom_eq_append]
        simp only [spell] at after
        simp [spell, Piece.bytes, after]
      · have after := ih 0
        rw [piecesFrom_eq_append]
        simp only [spell] at after
        simp [spell, Piece.bytes, after]

/-- The pieces of a text spell the text. -/
@[simp] theorem spell_pieces (text : Bytes) : spell (pieces text) = text := spell_piecesFrom 0 text

end TwoPass
