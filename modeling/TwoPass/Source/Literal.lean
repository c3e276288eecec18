import TwoPass.Numeral.Printed
import TwoPass.Numeral.Reader

set_option autoImplicit false

/-!
# Literals

The operand of a BYTE statement is a literal: a letter and a body between apostrophes.  `C` literals
stand for the bytes of their body, `X` literals for hexadecimal digits.  The body may hold
apostrophes, since the last byte of the operand ends it.
-/

namespace TwoPass

/-- A literal. -/
inductive Literal where
  /-- stands for the bytes of its body -/
  | characters (body : Bytes)
  /-- stands for the hexadecimal digits of its body -/
  | digits (body : Bytes)
  deriving DecidableEq, Repr, Inhabited

/-- Why an operand is no literal. -/
inductive LiteralFault where
  /-- the apostrophes are not where they belong -/
  | malformed
  /-- a byte of the body is no hexadecimal digit -/
  | badDigit (digit : UInt8)
  /-- the letter names no kind of literal -/
  | unknownKind (letter : UInt8)
  deriving DecidableEq, Repr, Inhabited

namespace Literal

/-- The body of a literal. -/
def body : Literal → Bytes
  | .characters body => body
  | .digits body => body

/-- The literal of a letter and a body. -/
def ofParts (letter : UInt8) (body : Bytes) : Except LiteralFault Literal :=
  if letter == 0x43 then .ok (.characters body)
  else if letter == 0x58 then
    match body.find? (!Numeral.isHexDigit ·) with
    | some digit => .error (.badDigit digit)
    | none => .ok (.digits body)
  else .error (.unknownKind letter)

/-- Reads a literal. -/
def read (operand : Bytes) : Except LiteralFault Literal :=
  match operand with
  | letter :: opening :: rest =>
    if opening == Ascii.apostrophe && rest.getLast? == some Ascii.apostrophe then
      ofParts letter rest.dropLast
    else .error .malformed
  | _ => .error .malformed

/-- The bytes that the location counter gives to a literal: one for each byte of its body, whatever
its kind. -/
def size (literal : Literal) : Nat := literal.body.length

/-- The hexadecimal digits that a literal stands for. -/
def code : Literal → Bytes
  | .characters body => body.flatMap fun b => upperHex 2 b.toNat
  | .digits body => body

end Literal

end TwoPass
