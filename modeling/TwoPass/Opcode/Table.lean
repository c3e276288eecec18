import TwoPass.Input
import TwoPass.Text.Blank
import Std.Data.TreeMap

set_option autoImplicit false

/-!
# Opcode tables

A table gives the opcode of each mnemonic.  Its text has one entry on each line that holds exactly
two words, the mnemonic and the opcode; other lines say nothing, and the last entry of a mnemonic
stands.  Opcodes are kept as they are written.
-/

namespace TwoPass.Opcode

/-- A table of opcodes by mnemonic. -/
structure Table where
  /-- the entries, in the order of the mnemonics' bytes -/
  entries : Std.TreeMap Bytes Bytes

namespace Table

/-- The table without entries. -/
def empty : Table := ⟨∅⟩

instance : Inhabited Table := ⟨empty⟩

/-- Adds an entry, in place of an earlier one of the same mnemonic. -/
def insert (table : Table) (mnemonic opcode : Bytes) : Table :=
  ⟨table.entries.insert mnemonic opcode⟩

/-- The opcode of a mnemonic. -/
def opcode? (table : Table) (mnemonic : Bytes) : Option Bytes := table.entries[mnemonic]?

/-- The number of entries. -/
def size (table : Table) : Nat := table.entries.size

/-- The mnemonics, in the order of their bytes. -/
def mnemonics (table : Table) : List Bytes := table.entries.keys

@[simp] theorem opcode?_empty (mnemonic : Bytes) : empty.opcode? mnemonic = none := by
  simp [empty, opcode?]

/-- The last entry of a mnemonic stands. -/
theorem opcode?_insert (table : Table) (mnemonic opcode m : Bytes) :
    (table.insert mnemonic opcode).opcode? m =
      if mnemonic = m then some opcode else table.opcode? m := by
  simp [insert, opcode?, Std.TreeMap.getElem?_insert]

/-- The mnemonics are those with an opcode. -/
theorem mem_mnemonics {table : Table} {mnemonic : Bytes} :
    mnemonic ∈ table.mnemonics ↔ (table.opcode? mnemonic).isSome := by
  simp [mnemonics, opcode?]

@[simp] theorem length_mnemonics (table : Table) : table.mnemonics.length = table.size := by
  simp [mnemonics, size]

/-- The entry on a line, if it has one. -/
def entry? (line : Bytes) : Option (Bytes × Bytes) :=
  match words line with
  | [mnemonic, opcode] => some (mnemonic, opcode)
  | _ => none

/-- The table after the entry on a line, if it has one. -/
def addLine (table : Table) (line : Bytes) : Table :=
  match entry? line with
  | some (mnemonic, opcode) => table.insert mnemonic opcode
  | none => table

/-- The table that lines describe. -/
def ofLines (lines : List Bytes) : Table := lines.foldl addLine empty

/-- Makes the entries of an input's lines, one line after the other.  A fault is met behind the last
line that can be read, and drops the entries that have been made by then. -/
def load (input : Input) : Table × Option ReadFault :=
  let reading := input.read
  let loaded := ofLines reading.lines
  match reading.fault with
  | none => (loaded, none)
  | some fault => (empty, some fault)

/-- Reads a table.  A fault anywhere in the text leaves no table. -/
def read (input : Input) : Except ReadFault Table :=
  match load input with
  | (table, none) => .ok table
  | (_, some fault) => .error fault

/-- The wording of a failed reading. -/
def readFailure (fault : ReadFault) : Bytes := utf8 "optab read failed: " ++ fault.message

/-- A change of a table in use. -/
inductive Change where
  /-- adds an entry or replaces one -/
  | set (mnemonic opcode : Bytes)
  /-- drops every entry and reads new ones -/
  | reload (input : Input)
  deriving DecidableEq, Repr, Inhabited

/-- The table after a change.  If new entries cannot be read, none are left. -/
def change (table : Table) : Change → Table
  | .set mnemonic opcode => table.insert mnemonic opcode
  | .reload input => (load input).1

end Table

end TwoPass.Opcode
