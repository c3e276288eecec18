import TwoPass.Text.Piece

set_option autoImplicit false

/-!
# Lower case

A text is put into lower case to be compared with names of ASCII letters, byte by byte.  A character
outside ASCII then counts in two ways: by the number of its bytes, and by an ASCII letter that it
may turn into.  Only the characters for which lower case changes one of the two are listed; every
other one stays as it is.
-/

namespace TwoPass

/-- The characters outside ASCII whose lower case takes another number of bytes, each with its lower
case. -/
def resizedByLowerCase : List (Nat × Nat) :=
  [(0x130, 0x69), (0x23A, 0x2C65), (0x23E, 0x2C66), (0x1E9E, 0xDF), (0x2126, 0x3C9), (0x212A, 0x6B),
   (0x212B, 0xE5), (0x2C62, 0x26B), (0x2C64, 0x27D), (0x2C6D, 0x251), (0x2C6E, 0x271),
   (0x2C6F, 0x250), (0x2C70, 0x252), (0x2C7E, 0x23F), (0x2C7F, 0x240), (0xA78D, 0x265),
   (0xA7AA, 0x266), (0xA7AB, 0x25C), (0xA7AC, 0x261), (0xA7AD, 0x26C), (0xA7AE, 0x26A),
   (0xA7B0, 0x29E), (0xA7B1, 0x287), (0xA7B2, 0x29D), (0xA7C5, 0x282), (0xA7CB, 0x264),
   (0xA7DC, 0x19B)]

/-- A character in lower case, as far as the number of its bytes and the letters of ASCII go. -/
def lowerChar (c : Char) : Char :=
  match resizedByLowerCase.lookup c.toNat with
  | some lower => Char.ofNat lower
  | none => c.toLower

/-- The character that stands for a byte of no well-formed sequence. -/
def replacement : Char := Char.ofNat 0xFFFD

/-- A piece in lower case. -/
def Piece.lowerCase : Piece → Bytes
  | .char c _ => String.utf8EncodeChar (lowerChar c)
  | .stray _ => String.utf8EncodeChar replacement

/-- A text in lower case. -/
def lowerCase (text : Bytes) : Bytes := (pieces text).flatMap Piece.lowerCase

end TwoPass
