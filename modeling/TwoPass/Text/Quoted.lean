import TwoPass.Numeral.Printed
import TwoPass.Text.Piece
import TwoPass.Text.Printable

set_option autoImplicit false

/-!
# Quoted text

Messages quote text from the input so that it can be told apart from the message.  Printable
characters stand for themselves; the quote and the backslash get a backslash, the rest an escape: a
letter for the seven control characters that have one, two hexadecimal digits for the other ASCII
characters and for stray bytes, four or eight for all other characters.
-/

namespace TwoPass

/-- The letter that a control character is escaped by. -/
def escapeLetter? (c : Char) : Option UInt8 :=
  match c.toNat with
  | 0x07 => some 0x61
  | 0x08 => some 0x62
  | 0x09 => some 0x74
  | 0x0A => some 0x6E
  | 0x0B => some 0x76
  | 0x0C => some 0x66
  | 0x0D => some 0x72
  | _ => none

/-- The escape of a character that is not printable. -/
def escapeCode (c : Char) : Bytes :=
  match escapeLetter? c with
  | some letter => [0x5C, letter]
  | none =>
    if c.toNat < 0x20 || c.toNat == 0x7F then utf8 "\\x" ++ lowerHex 2 c.toNat
    else if c.toNat < 0x10000 then utf8 "\\u" ++ lowerHex 4 c.toNat
    else utf8 "\\U" ++ lowerHex 8 c.toNat

/-- A character as it stands between two quotes. -/
def escapeChar (quote c : Char) : Bytes :=
  if c == quote || c == '\\' then 0x5C :: String.utf8EncodeChar c
  else if isPrintable c then String.utf8EncodeChar c
  else escapeCode c

/-- A piece as it stands between two quotes. -/
def escapePiece (quote : Char) : Piece → Bytes
  | .char c _ => escapeChar quote c
  | .stray b => utf8 "\\x" ++ lowerHex 2 b.toNat

/-- A text between double quotes. -/
def quoted (text : Bytes) : Bytes :=
  0x22 :: (pieces text).flatMap (escapePiece '"') ++ [0x22]

/-- A character between apostrophes. -/
def quotedChar (c : Char) : Bytes :=
  Ascii.apostrophe :: escapeChar '\'' c ++ [Ascii.apostrophe]

/-- The code point of a character in the notation of the standard, followed by the character itself
if it is printable. -/
def codePoint (c : Char) : Bytes :=
  utf8 "U+" ++ upperHex 4 c.toNat
    ++ if isPrintable c then utf8 " '" ++ String.utf8EncodeChar c ++ utf8 "'" else []

/-- The character whose code point is the value of a byte. -/
def charOfByte (b : UInt8) : Char := Char.ofNat b.toNat

end TwoPass
