import TwoPass.Source.Operation
import TwoPass.Source.Position

set_option autoImplicit false

/-!
# Statements

A source line holds up to three fields: label, mnemonic and operand.  A hyphen stands for an absent
field; further words are ignored.  The label may be left out altogether where the line has at most
two words and the first of them names an operation.
-/

namespace TwoPass

/-- What stands in place of an absent field. -/
def absent : Bytes := [Ascii.hyphen]

/-- A statement as it is read. -/
structure Statement where
  /-- where it stands -/
  position : Position
  /-- the label, or a hyphen -/
  label : Bytes
  /-- the mnemonic, or a hyphen -/
  mnemonic : Bytes
  /-- the operand, or a hyphen -/
  operand : Bytes
  /-- what the mnemonic asks for -/
  operation : Operation
  deriving DecidableEq, Repr, Inhabited

namespace Statement

/-- Whether the words of a line are a comment: the first one starts with a full stop. -/
def isComment (fields : List Bytes) : Bool :=
  match fields with
  | (b :: _) :: _ => b == Ascii.dot
  | _ => false

/-- The words of a line with the label put in where it was left out. -/
def withLabel (table : Opcode.Table) (fields : List Bytes) : List Bytes :=
  match fields with
  | first :: rest =>
    if rest.length < 2 && (Operation.named? table first).isSome then absent :: first :: rest
    else first :: rest
  | [] => []

/-- The statement that the fields of a line make. -/
def ofFields (table : Opcode.Table) (position : Position) (fields : List Bytes) : Statement :=
  let mnemonic := (fields[1]?).getD absent
  { position := position
    label := (fields[0]?).getD absent
    mnemonic := mnemonic
    operand := (fields[2]?).getD absent
    operation := Operation.ofMnemonic table mnemonic }

/-- The statement on a line.  Blank lines and comments hold none. -/
def ofLine? (table : Opcode.Table) (position : Position) (line : Bytes) : Option Statement :=
  let fields := words line
  if fields.isEmpty || isComment fields then none
  else some (ofFields table position (withLabel table fields))

/-- The statements of a source, given its name and its lines. -/
def ofLines (table : Opcode.Table) (source : Bytes) (lines : List Bytes) : List Statement :=
  (lines.zipIdx 1).filterMap fun (line, number) => ofLine? table ⟨source, number⟩ line

end Statement

end TwoPass
