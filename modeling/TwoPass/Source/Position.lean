import TwoPass.Numeral.Printed

set_option autoImplicit false

/-!
# Source positions
-/

namespace TwoPass

/-- A line of a source. -/
structure Position where
  /-- the name of the source, empty if it has none -/
  source : Bytes
  /-- the line, counted from one -/
  line : Int
  deriving DecidableEq, Repr, Inhabited

/-- A position in words: the line alone if the source has no name. -/
def Position.text (p : Position) : Bytes :=
  if p.source.isEmpty then signedDecimal p.line else p.source ++ utf8 ":" ++ signedDecimal p.line

end TwoPass
