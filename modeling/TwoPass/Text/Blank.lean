import TwoPass.Text.Piece

set_option autoImplicit false

/-!
# White space and words

White space is the Unicode property of that name.  A byte that is part of no well-formed sequence is
never white space, whatever its value.
-/

namespace TwoPass

/-- Whether a character is white space. -/
def isBlank (c : Char) : Bool :=
  let code := c.toNat
  (0x09 ≤ code && code ≤ 0x0D) || code == 0x20 || code == 0x85 || code == 0xA0 || code == 0x1680
    || (0x2000 ≤ code && code ≤ 0x200A) || code == 0x2028 || code == 0x2029 || code == 0x202F
    || code == 0x205F || code == 0x3000

/-- Whether a piece is white space. -/
def Piece.isBlank : Piece → Bool
  | .char c _ => TwoPass.isBlank c
  | .stray _ => false

/-- The words of a text: its longest runs of pieces that are not white space, in order. -/
def words (text : Bytes) : List Bytes :=
  (((pieces text).splitOnP Piece.isBlank).filter (!·.isEmpty)).map spell

/-- Whether a text holds nothing but white space. -/
def isBlankText (text : Bytes) : Bool := (pieces text).all Piece.isBlank

end TwoPass
