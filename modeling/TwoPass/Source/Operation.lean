import TwoPass.Numeral.Printed
import TwoPass.Opcode.Table

set_option autoImplicit false

/-!
# Operations

What a statement asks for is decided by its mnemonic: a directive to the assembler, or a machine
instruction that the opcode table knows.  A directive's name is never looked up in the table.
-/

namespace TwoPass

/-- What a statement asks for. -/
inductive Operation where
  /-- nothing: the mnemonic is neither a directive nor in the table -/
  | unknown
  /-- begins the program at an address -/
  | start
  /-- ends the program -/
  | finish
  /-- stores a number in a word -/
  | word
  /-- reserves words -/
  | reserveWords
  /-- reserves bytes -/
  | reserveBytes
  /-- stores the bytes of a literal -/
  | byte
  /-- a machine instruction, with its opcode -/
  | instruction (opcode : Bytes)
  deriving DecidableEq, Repr, Inhabited

namespace Operation

/-- The directives by name. -/
def directives : List (Bytes × Operation) :=
  [(utf8 "START", .start), (utf8 "END", .finish), (utf8 "WORD", .word),
    (utf8 "RESW", .reserveWords), (utf8 "RESB", .reserveBytes), (utf8 "BYTE", .byte)]

/-- The operation that a mnemonic names, if it names one. -/
def named? (table : Opcode.Table) (mnemonic : Bytes) : Option Operation :=
  match directives.lookup mnemonic with
  | some directive => some directive
  | none => (table.opcode? mnemonic).map .instruction

/-- The operation of a statement with a mnemonic. -/
def ofMnemonic (table : Opcode.Table) (mnemonic : Bytes) : Operation :=
  (named? table mnemonic).getD .unknown

/-- The opcode of an instruction, and nothing for other operations. -/
def opcode : Operation → Bytes
  | .instruction code => code
  | _ => []

/-- Whether the operation reserves storage without a value. -/
def reserves : Operation → Bool
  | .reserveWords => true
  | .reserveBytes => true
  | _ => false

/-! ## Names of the kinds -/

/-- The kinds of operation are numbered from zero. -/
def kindCode : Operation → Nat
  | .unknown => 0
  | .start => 1
  | .finish => 2
  | .word => 3
  | .reserveWords => 4
  | .reserveBytes => 5
  | .byte => 6
  | .instruction _ => 7

/-- The names of the kinds, by number. -/
def kindNames : List Bytes :=
  [utf8 "unknown", utf8 "START", utf8 "END", utf8 "WORD", utf8 "RESW", utf8 "RESB", utf8 "BYTE",
    utf8 "instruction"]

/-- The name of a numbered kind.  A number without a kind is named by the number. -/
def nameOfKindCode (code : Nat) : Bytes :=
  (kindNames[code]?).getD (utf8 "Op(" ++ decimal code ++ utf8 ")")

/-- The name of an operation's kind. -/
def kindName (operation : Operation) : Bytes := nameOfKindCode operation.kindCode

end Operation

end TwoPass
