import TwoPass.Object.Program

set_option autoImplicit false

/-!
# Grouping object code into Text records

Object code comes one statement at a time.  Without a limit it all goes into one record, which only
asking for the records ends.  With a limit, a record ends where the next code would make it longer
than the limit, and wherever storage is reserved.  A code that is longer than the limit by itself
still gets a record.
-/

namespace TwoPass.Object

/-- Object code being grouped. -/
structure Grouping where
  /-- the most bytes of a record; none if it is not positive -/
  limit : Int
  /-- the address of the first code of the open record -/
  start : Address
  /-- the codes of the open record -/
  codes : Array Bytes
  /-- the bytes of the open record -/
  size : Nat
  /-- the records that have ended -/
  closed : Array Text
  deriving DecidableEq, Repr, Inhabited

namespace Grouping

/-- Nothing grouped yet. -/
def new (limit : Int) : Grouping := ⟨limit, 0, #[], 0, #[]⟩

/-- Ends the open record, if it holds any code. -/
def close (g : Grouping) : Grouping :=
  { limit := g.limit
    start := 0
    codes := #[]
    size := 0
    closed := if g.codes.isEmpty then g.closed else g.closed.push ⟨g.start, g.codes.toList⟩ }

/-- Whether a code has to go into a new record. -/
def overflows (g : Grouping) (code : Bytes) : Bool :=
  0 < g.limit && !g.codes.isEmpty && g.limit < ((g.size + codeSize code : Nat) : Int)

/-- Puts a code behind those of the open record. -/
def append (g : Grouping) (address : Address) (code : Bytes) : Grouping :=
  { g with
    start := if g.codes.isEmpty then address else g.start
    codes := g.codes.push code
    size := g.size + codeSize code }

/-- Adds the code of the statement at an address.  Empty code leaves no trace. -/
def add (g : Grouping) (address : Address) (code : Bytes) : Grouping :=
  if code.isEmpty then g
  else if g.overflows code then g.close.append address code
  else g.append address code

/-- Ends the open record if there is a limit. -/
def interrupt (g : Grouping) : Grouping := if 0 < g.limit then g.close else g

/-- The records so far.  Asking for them ends the open one, so grouping goes on from `close`. -/
def records (g : Grouping) : List Text := g.close.closed.toList

end Grouping

end TwoPass.Object
