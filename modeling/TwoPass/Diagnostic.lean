import TwoPass.Source.Literal
import TwoPass.Source.Position
import TwoPass.Text.Quoted

set_option autoImplicit false

/-!
# Diagnostics

A diagnostic is a cause at a position.  Causes are data; their wording is in one place.  Malformed
literals, bad numbers and an overflow of the location counter end assembly; duplicate labels and
undefined symbols end it in strict mode only.
-/

namespace TwoPass

/-! ## Kinds and reports -/

/-- The kinds of report. -/
inductive ReportKind where
  /-- an operand of the wrong form -/
  | malformed
  /-- a number that cannot be read or does not fit -/
  | badNumber
  /-- a label defined again -/
  | duplicate
  /-- a symbol that no label defines -/
  | undefined
  /-- a number that is no kind's -/
  | unnamed (code : Int)
  deriving DecidableEq, Repr, Inhabited

/-- The kind of a number. -/
def ReportKind.ofCode (code : Int) : ReportKind :=
  if code = 0 then .malformed
  else if code = 1 then .badNumber
  else if code = 2 then .duplicate
  else if code = 3 then .undefined
  else .unnamed code

/-- The name of a kind. -/
def ReportKind.name : ReportKind → Bytes
  | .malformed => utf8 "syntax error"
  | .badNumber => utf8 "invalid number"
  | .duplicate => utf8 "duplicate label"
  | .undefined => utf8 "undefined symbol"
  | .unnamed code => utf8 "ErrorKind(" ++ signedDecimal code ++ utf8 ")"

/-- A message of some kind at a position. -/
structure Report where
  /-- where it applies -/
  position : Position
  /-- what kind it is of -/
  kind : ReportKind
  /-- what it says -/
  message : Bytes
  deriving DecidableEq, Repr, Inhabited

/-- A report on one line. -/
def Report.text (r : Report) : Bytes :=
  r.position.text ++ utf8 ": " ++ r.kind.name ++ utf8 ": " ++ r.message

/-- Reports one after the other, each on a line. -/
def Report.join (reports : List Report) : Bytes :=
  [Ascii.newline].intercalate (reports.map Report.text)

/-! ## Causes -/

/-- The numbers that operands give. -/
inductive Quantity where
  /-- the address of a START statement -/
  | startAddress
  /-- the count of a RESW statement -/
  | wordCount
  /-- the count of a RESB statement -/
  | byteCount
  /-- the value of a WORD statement -/
  | wordValue
  deriving DecidableEq, Repr, Inhabited

/-- The name of a number. -/
def Quantity.name : Quantity → Bytes
  | .startAddress => utf8 "START address"
  | .wordCount => utf8 "RESW count"
  | .byteCount => utf8 "RESB count"
  | .wordValue => utf8 "WORD value"

/-- What a diagnostic is about. -/
inductive Cause where
  /-- an operand that should be a literal is none -/
  | badLiteral (fault : LiteralFault) (operand : Bytes)
  /-- an operand that should be a number is none, or one that does not fit -/
  | badNumber (quantity : Quantity) (fault : NumeralFault) (operand : Bytes)
  /-- a statement of this size does not fit behind this location -/
  | overflow (location size : Nat)
  /-- a label is defined already, first at this position -/
  | duplicateLabel (label : Bytes) (first : Position)
  /-- an operand is defined by no label -/
  | undefinedSymbol (symbol : Bytes)
  deriving DecidableEq, Repr, Inhabited

namespace Cause

/-- The kind of report that a cause makes. -/
def kind : Cause → ReportKind
  | .badLiteral _ _ => .malformed
  | .badNumber _ _ _ => .badNumber
  | .overflow _ _ => .badNumber
  | .duplicateLabel _ _ => .duplicate
  | .undefinedSymbol _ => .undefined

/-- The wording of a cause. -/
def message : Cause → Bytes
  | .badLiteral .malformed operand => utf8 "malformed BYTE literal " ++ operand
  | .badLiteral (.badDigit digit) operand =>
    utf8 "invalid hex digit " ++ quotedChar (charOfByte digit) ++ utf8 " in " ++ operand
  | .badLiteral (.unknownKind letter) operand =>
    utf8 "unknown BYTE literal type " ++ String.utf8EncodeChar (charOfByte letter) ++
      utf8 " in " ++ operand
  | .badNumber quantity .outOfRange operand =>
    quantity.name ++ utf8 ": " ++ quoted operand ++ utf8 " out of range"
  | .badNumber quantity .malformed operand =>
    quantity.name ++ utf8 ": invalid literal " ++ quoted operand
  | .overflow location size =>
    utf8 "location counter overflow: " ++ upperHex 1 location ++ utf8 " + " ++ upperHex 1 size
  | .duplicateLabel label first => label ++ utf8 ", previous definition here: " ++ first.text
  | .undefinedSymbol symbol => symbol

end Cause

/-- A cause at a position. -/
structure Diagnostic where
  /-- where it applies -/
  position : Position
  /-- what it is about -/
  cause : Cause
  deriving DecidableEq, Repr, Inhabited

/-- The report that a diagnostic makes. -/
def Diagnostic.report (d : Diagnostic) : Report := ⟨d.position, d.cause.kind, d.cause.message⟩

end TwoPass
