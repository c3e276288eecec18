import TwoPass.Assembly.Symbol
import TwoPass.Object.Grouping

set_option autoImplicit false

/-!
# Listings

The second pass gives statements their object code, up to and including the first END statement.  An
instruction is its opcode and the address of its operand; an operand that is absent or undefined
counts as address zero.
-/

namespace TwoPass

/-- A statement with its object code. -/
structure Line extends Placed where
  /-- the object code, empty if there is none -/
  code : Bytes
  deriving DecidableEq, Repr, Inhabited

/-! ## Object code -/

/-- The least value of a word. -/
def wordMin : Int64 := -0x800000

/-- The greatest value of a word. -/
def wordMax : Int64 := 0xFFFFFF

/-- The value that an operand gives a word: a decimal number of 64 bits between the limits of a
word. -/
def wordValue (operand : Bytes) : Except NumeralFault Int64 :=
  match Numeral.signed operand with
  | .error fault => .error fault
  | .ok value => if value < wordMin ∨ wordMax < value then .error .outOfRange else .ok value

/-- The mask that leaves the bits of a word. -/
def wordMask : UInt32 := 0xFFFFFF

/-- The object code of a value in a word: its 32 low bits, of which the mask leaves 24. -/
def wordCode (value : Int64) : Bytes := upperHex 6 (value.toUInt64.toUInt32 &&& wordMask).toNat

/-- The object code of a statement. -/
def Statement.code (symbols : List Symbol) (s : Statement) : Except Cause Bytes :=
  match s.operation with
  | .instruction opcode =>
    let address := if s.operand = absent then 0 else (Symbol.lookup symbols s.operand).getD 0
    .ok (opcode ++ upperHex 4 address.toNat)
  | .word =>
    match wordValue s.operand with
    | .error fault => .error (.badNumber .wordValue fault s.operand)
    | .ok value => .ok (wordCode value)
  | .byte => s.literal.map Literal.code
  | _ => .ok []

/-- The diagnostic of an instruction whose operand no label defines. -/
def Statement.undefined? (symbols : List Symbol) (s : Statement) : Option Diagnostic :=
  match s.operation with
  | .instruction _ =>
    if s.operand = absent ∨ (Symbol.lookup symbols s.operand).isSome then none
    else some ⟨s.position, .undefinedSymbol s.operand⟩
  | _ => none

/-! ## Listings -/

namespace Listing

/-- The statements up to and including the first END statement, or all of them if there is none. -/
def upToEnd (statements : List Placed) : List Placed :=
  let (before, rest) := statements.span fun p => p.operation != .finish
  before ++ rest.take 1

/-- A statement with its code. -/
def line (symbols : List Symbol) (p : Placed) : Except Diagnostic Line :=
  match p.code symbols with
  | .error cause => .error ⟨p.position, cause⟩
  | .ok code => .ok { p with code := code }

/-- The listing of placed statements.  The first statement that has no code ends it. -/
def ofStatements (symbols : List Symbol) (statements : List Placed) :
    Except Diagnostic (List Line) :=
  (upToEnd statements).mapM (line symbols)

/-- The undefined symbols of placed statements. -/
def undefined (symbols : List Symbol) (statements : List Placed) : List Diagnostic :=
  (upToEnd statements).filterMap fun p => p.undefined? symbols

/-- Puts a line's code behind the code grouped so far. -/
def group (g : Object.Grouping) (l : Line) : Object.Grouping :=
  if !l.code.isEmpty then g.add (l.address.getD 0) l.code
  else if l.operation.reserves then g.interrupt
  else g

/-- The Text records of a listing. -/
def records (limit : Int) (lines : List Line) : List Object.Text :=
  (lines.foldl group (.new limit)).records

end Listing

end TwoPass
