import TwoPass.Address
import TwoPass.Diagnostic
import TwoPass.Source.Statement

set_option autoImplicit false

/-!
# Layout

The first pass gives every statement an address.  A location counter starts at zero, or at the
address of the first START statement, and moves on by the size of each statement.  The first START
statement itself has no address; a later one is a statement of size zero like any other.
-/

namespace TwoPass

/-! ## Sizes -/

/-- Reads an operand as an unsigned number. -/
def Statement.number (s : Statement) (quantity : Quantity) (base bits : Nat) : Except Cause Nat :=
  (Numeral.unsigned base (Numeral.maxOfBits bits) s.operand).mapError
    (.badNumber quantity · s.operand)

/-- Reads an operand as a literal. -/
def Statement.literal (s : Statement) : Except Cause Literal :=
  (Literal.read s.operand).mapError (.badLiteral · s.operand)

/-- The address that a START statement gives. -/
def Statement.startAddress (s : Statement) : Except Cause Address :=
  (s.number .startAddress 16 24).map UInt32.ofNat

/-- The number of bytes that the location counter gives to a statement. -/
def Statement.size (s : Statement) : Except Cause Nat :=
  match s.operation with
  | .word => .ok 3
  | .instruction _ => .ok 3
  | .reserveWords => (s.number .wordCount 10 32).map (3 * ·)
  | .reserveBytes => s.number .byteCount 10 32
  | .byte => s.literal.map Literal.size
  | _ => .ok 0

/-! ## The location counter -/

/-- A statement with its address. -/
structure Placed extends Statement where
  /-- the address, which the first START statement lacks -/
  address : Option Address
  deriving DecidableEq, Repr, Inhabited

/-- An address as it is listed: a hyphen if there is none. -/
def addressText : Option Address → Bytes
  | none => absent
  | some address => upperHex 1 address.toNat

/-- The state of the location counter. -/
structure Counter where
  /-- where the program starts -/
  start : Address
  /-- where the next statement goes -/
  location : Address
  /-- whether there has been a START statement -/
  started : Bool
  deriving DecidableEq, Repr, Inhabited

namespace Counter

/-- The counter before any statement. -/
def initial : Counter := ⟨0, 0, false⟩

/-- Whether a number of bytes from the counter on do not fit the address space. -/
def overflows (counter : Counter) (size : Nat) : Bool :=
  UInt64.ofNat addressSpace < counter.location.toUInt64 + sizeWord size

/-- Moves on by a number of bytes, up to the end of the address space. -/
def advance (counter : Counter) (size : Nat) : Except Cause Counter :=
  if counter.overflows size then .error (.overflow counter.location.toNat size)
  else .ok { counter with location := counter.location + UInt32.ofNat size }

/-- Whether a statement is the START statement that begins the program. -/
def begins (counter : Counter) (s : Statement) : Bool := s.operation == .start && !counter.started

/-- The counter after a statement. -/
def step (counter : Counter) (s : Statement) : Except Cause Counter :=
  if counter.begins s then s.startAddress.map fun address => ⟨address, address, true⟩
  else s.size.bind counter.advance

/-- The address that the counter gives to a statement. -/
def addressOf (counter : Counter) (s : Statement) : Option Address :=
  if counter.begins s then none else some counter.location

end Counter

/-! ## Whole sources -/

/-- Statements with their addresses, and where the counter stands after them. -/
structure Layout where
  /-- the statements, in order -/
  statements : List Placed
  /-- the counter after the last one -/
  counter : Counter
  deriving DecidableEq, Repr, Inhabited

namespace Layout

/-- Places statements one after the other, behind those placed before, latest first.  The first
statement that cannot be placed ends it. -/
def extend : Counter → List Placed → List Statement → Except Diagnostic Layout
  | counter, placed, [] => .ok ⟨placed.reverse, counter⟩
  | counter, placed, s :: rest =>
    match counter.step s with
    | .error cause => .error ⟨s.position, cause⟩
    | .ok next => extend next ({ s with address := counter.addressOf s } :: placed) rest

/-- The statements placed before stay in front. -/
theorem extend_eq_append (counter : Counter) (placed : List Placed) (statements : List Statement) :
    extend counter placed statements =
      (extend counter [] statements).map fun layout =>
        { layout with statements := placed.reverse ++ layout.statements } := by
  induction statements generalizing counter placed with
  | nil => simp [extend, Except.map]
  | cons s rest ih =>
    simp only [extend]
    split
    · rfl
    · rename_i next _
      rw [ih next (_ :: placed), ih next [_]]
      cases extend next [] rest <;> simp [Except.map]

/-- Places the statements of a source. -/
def ofStatements (statements : List Statement) : Except Diagnostic Layout :=
  extend .initial [] statements

/-- Where the program starts. -/
def start (layout : Layout) : Address := layout.counter.start

/-- The number of bytes from the start of the program to its end. -/
def length (layout : Layout) : Address := layout.counter.location - layout.counter.start

end Layout

end TwoPass
