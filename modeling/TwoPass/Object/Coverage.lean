import TwoPass.Object.Program

set_option autoImplicit false

/-!
# Coverage

Some addresses of a program may lie in no Text record.  They are found by cutting the records out of
the span of the program one after the other, which needs no order among the records.
-/

namespace TwoPass.Object

/-- The addresses from `low` on and below `high`. -/
structure Span where
  /-- the first address -/
  low : Nat
  /-- the address after the last one -/
  high : Nat
  deriving DecidableEq, Repr, Inhabited

namespace Span

/-- The number of addresses. -/
def size (s : Span) : Nat := s.high - s.low

instance : Membership Nat Span := ⟨fun s a => s.low ≤ a ∧ a < s.high⟩

theorem mem_iff {s : Span} {a : Nat} : a ∈ s ↔ s.low ≤ a ∧ a < s.high := Iff.rfl

instance (a : Nat) (s : Span) : Decidable (a ∈ s) := inferInstanceAs (Decidable (_ ∧ _))

/-- What is left of a span after another one is cut out: a part below it and a part above it. -/
def cut (hole s : Span) : List Span :=
  [⟨s.low, min s.high hole.low⟩, ⟨max s.low hole.high, s.high⟩].filter fun part =>
    part.low < part.high

end Span

/-- The addresses of a Text record. -/
def Text.span (t : Text) : Span := ⟨t.start.toNat, t.start.toNat + t.size⟩

/-- The addresses of a program. -/
def Header.span (h : Header) : Span := ⟨h.start.toNat, h.start.toNat + h.length.toNat⟩

namespace Program

/-- The gaps between the Text records of a program. -/
def gaps (p : Program) : List Span :=
  p.text.foldl (fun left t => left.flatMap (Span.cut t.span)) [p.header.span]

/-- The number of addresses of a program that lie in no Text record. -/
def uncovered (p : Program) : Nat := p.gaps.foldr (fun gap size => gap.size + size) 0

/-- A program that a single Text record does not fill: how many bytes it leaves.  Code behind a gap
is then not where it belongs. -/
def misplaced? (p : Program) : Option Nat :=
  if p.text.length = 1 ∧ p.uncovered ≠ 0 then some p.uncovered else none

/-- The wording of the warning that code may be out of place. -/
def misplacedWarning (p : Program) (left : Nat) : Bytes :=
  utf8 "single Text record leaves " ++ upperHex 1 left ++ utf8 " of " ++
    upperHex 1 p.header.length.toNat
    ++ utf8 " bytes uninitialized, code may be misplaced (assemble with --split)"

end Program

end TwoPass.Object
