import TwoPass.Text.Bytes

set_option autoImplicit false

/-!
# Printed numbers

Numbers are printed in decimal, or in hexadecimal with digits of one case, padded with zeros on the
left where a field has a least width.  A number that needs more digits than its field has is printed
in full.
-/

namespace TwoPass

/-- The decimal digits of a number. -/
def decimal (n : Nat) : Bytes := (Nat.toDigits 10 n).map Char.toUInt8

/-- The decimal digits of an integer, after a hyphen if it is negative. -/
def signedDecimal : Int → Bytes
  | .ofNat n => decimal n
  | .negSucc n => Ascii.hyphen :: decimal (n + 1)

/-- The upper case hexadecimal digits of a number, at least `width` of them. -/
def upperHex (width n : Nat) : Bytes :=
  ((Nat.toDigits 16 n).map fun c => c.toUpper.toUInt8).leftpad width 0x30

/-- The lower case hexadecimal digits of a number, at least `width` of them. -/
def lowerHex (width n : Nat) : Bytes :=
  ((Nat.toDigits 16 n).map Char.toUInt8).leftpad width 0x30

end TwoPass
