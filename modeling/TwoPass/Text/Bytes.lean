set_option autoImplicit false

/-!
# Byte strings

Sources, opcode tables and object programs are byte strings: nothing in them has to be well-formed
UTF-8, and every length and every cut counts bytes.  A byte string is a plain list, so that the list
library applies to it unchanged.
-/

namespace TwoPass

/-- A byte string. -/
abbrev Bytes : Type := List UInt8

/-- The UTF-8 encoding of a string. -/
def utf8 (s : String) : Bytes := s.toList.flatMap String.utf8EncodeChar

/-! ## Bytes with a meaning in the formats -/

namespace Ascii

/-- Horizontal tab: divides the columns of a row. -/
def tab : UInt8 := 0x09

/-- Line feed: ends a line. -/
def newline : UInt8 := 0x0A

/-- Carriage return: may stand before a line feed. -/
def carriageReturn : UInt8 := 0x0D

/-- Space: fills the name field of a Header record. -/
def space : UInt8 := 0x20

/-- Apostrophe: encloses the body of a literal. -/
def apostrophe : UInt8 := 0x27

/-- Hyphen: stands for an absent field, and starts a flag. -/
def hyphen : UInt8 := 0x2D

/-- Full stop: starts a comment line. -/
def dot : UInt8 := 0x2E

/-- Slash: divides the parts of a path. -/
def slash : UInt8 := 0x2F

/-- Equals sign: divides a flag from its value. -/
def equals : UInt8 := 0x3D

/-- Circumflex: divides the fields of a record. -/
def circumflex : UInt8 := 0x5E

end Ascii

/-- Drops every trailing occurrence of a byte. -/
def dropTrailing (b : UInt8) (text : Bytes) : Bytes :=
  (text.reverse.dropWhile (· == b)).reverse

end TwoPass
