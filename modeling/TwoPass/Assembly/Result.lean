import TwoPass.Assembly.Listing
import TwoPass.Output.Latch

set_option autoImplicit false

/-!
# What assembly yields

The result of both passes, and the five texts that are written from it.
-/

namespace TwoPass

/-- The result of assembling a source. -/
structure Assembly where
  /-- the name of the program: the label of the first START statement -/
  name : Bytes
  /-- where the program starts -/
  start : Address
  /-- how many bytes it takes -/
  length : Address
  /-- all statements with their addresses -/
  statements : List Placed
  /-- the symbols, in the order of their definitions -/
  symbols : List Symbol
  /-- the statements of the second pass with their code -/
  listing : List Line
  /-- the object program -/
  program : Object.Program
  /-- duplicate labels, then undefined symbols -/
  diagnostics : List Diagnostic
  deriving DecidableEq, Repr, Inhabited

/-! ## Outputs -/

/-- The texts that are written from a result. -/
inductive Output where
  /-- the statements with their addresses -/
  | intermediate
  /-- the symbols with their addresses -/
  | symbols
  /-- the length of the program -/
  | length
  /-- the statements with their addresses and their code -/
  | listing
  /-- the object program -/
  | object
  deriving DecidableEq, Repr, Inhabited

namespace Output

/-- All outputs, in the order in which they are written. -/
def all : List Output := [.intermediate, .symbols, .length, .listing, .object]

/-- The name of an output. -/
def name : Output → Bytes
  | .intermediate => utf8 "intermediate"
  | .symbols => utf8 "symtab"
  | .length => utf8 "length"
  | .listing => utf8 "listing"
  | .object => utf8 "object"

end Output

/-- The columns of a statement. -/
def Placed.columns (p : Placed) : List Bytes :=
  [addressText p.address, p.label, p.mnemonic, p.operand]

/-- The columns of a listing line. -/
def Line.columns (l : Line) : List Bytes := l.toPlaced.columns ++ [l.code]

/-- The columns of a symbol. -/
def Symbol.columns (s : Symbol) : List Bytes := [s.name, upperHex 1 s.address.toNat]

namespace Assembly

/-- An output as it is written, chunk by chunk. -/
def chunks (a : Assembly) : Output → List Bytes
  | .intermediate => a.statements.flatMap fun p => row p.columns
  | .symbols => a.symbols.flatMap fun s => row s.columns
  | .length => [utf8 "Program Length: " ++ upperHex 1 a.length.toNat ++ [Ascii.newline]]
  | .listing => a.listing.flatMap fun l => row l.columns
  | .object => a.program.chunks

/-- The text of an output. -/
def render (a : Assembly) (output : Output) : Bytes := (a.chunks output).flatten

/-- Writes an output to a sink.  Outputs that are made of rows are written up to the first row that
fails. -/
def write (a : Assembly) (output : Output) (sink : Sink) : Written Sink :=
  match output with
  | .intermediate => sink.writeGroups (a.statements.map fun p => row p.columns)
  | .symbols => sink.writeGroups (a.symbols.map fun s => row s.columns)
  | .length => sink.writeAll (a.chunks .length)
  | .listing => sink.writeGroups (a.listing.map fun l => row l.columns)
  | .object => a.program.write sink

end Assembly

end TwoPass
