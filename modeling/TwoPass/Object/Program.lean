import TwoPass.Address
import TwoPass.Numeral.Printed
import TwoPass.Output.Latch
import TwoPass.Text.Piece

set_option autoImplicit false

/-!
# Object programs

An object program is a text of one record a line, with fields divided by circumflexes: a Header
record with the name, the start address and the length of the program, Text records with object
code, and an End record with the entry address.  The code of each statement has a field of its own
in a Text record.
-/

namespace TwoPass.Object

/-! ## Header records -/

/-- The width of the name field. -/
def nameWidth : Nat := 6

/-- What the Header record says. -/
structure Header where
  /-- the name of the program -/
  name : Bytes
  /-- its first address -/
  start : Address
  /-- the number of bytes it takes -/
  length : Address
  deriving DecidableEq, Repr, Inhabited

/-- The name field: the name cut to the width of the field in bytes, then filled with spaces to as
many characters. -/
def Header.nameField (h : Header) : Bytes :=
  let cut := h.name.take nameWidth
  cut ++ List.replicate (nameWidth - (pieces cut).length) Ascii.space

/-- The Header record. -/
def Header.record (h : Header) : Bytes :=
  utf8 "H^" ++ h.nameField ++ utf8 "^" ++ upperHex 6 h.start.toNat ++ utf8 "^" ++
    upperHex 6 h.length.toNat

/-! ## Text records -/

/-- The number of bytes that object code stands for: two digits each. -/
def codeSize (code : Bytes) : Nat := code.length / 2

/-- What a Text record says. -/
structure Text where
  /-- the address of the first code -/
  start : Address
  /-- the object code of one statement after the other -/
  codes : List Bytes
  deriving DecidableEq, Repr, Inhabited

/-- The number of bytes in a Text record. -/
def Text.size (t : Text) : Nat := t.codes.foldr (fun code size => codeSize code + size) 0

/-- The Text record. -/
def Text.record (t : Text) : Bytes :=
  utf8 "T^" ++ upperHex 6 t.start.toNat ++ utf8 "^" ++ upperHex 2 t.size
    ++ t.codes.flatMap (Ascii.circumflex :: ·)

/-! ## Programs -/

/-- An object program. -/
structure Program where
  /-- what the Header record says -/
  header : Header
  /-- the Text records, in order -/
  text : List Text
  /-- the entry address -/
  entry : Address
  deriving DecidableEq, Repr, Inhabited

namespace Program

/-- The End record. -/
def endRecord (p : Program) : Bytes := utf8 "E^" ++ upperHex 6 p.entry.toNat

/-- The records, in order. -/
def records (p : Program) : List Bytes :=
  p.header.record :: p.text.map Text.record ++ [p.endRecord]

/-- The program as it is written: one record at a time, each with its line end. -/
def chunks (p : Program) : List Bytes := p.records.map (· ++ [Ascii.newline])

/-- The text of the program. -/
def render (p : Program) : Bytes := p.chunks.flatten

/-- Writes the program to a sink.  Every record is tried, and whether a write failed is seen at the
end. -/
def write (p : Program) (sink : Sink) : Written Sink := sink.writeAll p.chunks

end Program

end TwoPass.Object
