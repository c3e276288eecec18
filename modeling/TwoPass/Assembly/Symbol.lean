import TwoPass.Assembly.Layout

set_option autoImplicit false

/-!
# Symbols

Every label of a statement with an address defines a symbol.  The first definition stands; each
later one is a duplicate.
-/

namespace TwoPass

/-- A label bound to an address. -/
structure Symbol where
  /-- the label -/
  name : Bytes
  /-- the address -/
  address : Address
  /-- where the label stands -/
  position : Position
  deriving DecidableEq, Repr, Inhabited

/-- The symbol with a name. -/
def Symbol.find? (symbols : List Symbol) (name : Bytes) : Option Symbol :=
  symbols.find? (·.name == name)

/-- The address that a name is bound to. -/
def Symbol.lookup (symbols : List Symbol) (name : Bytes) : Option Address :=
  (Symbol.find? symbols name).map Symbol.address

/-- The symbol that a statement defines, if it does. -/
def Placed.symbol? (p : Placed) : Option Symbol :=
  match p.address with
  | none => none
  | some address => if p.label = absent then none else some ⟨p.label, address, p.position⟩

/-- The symbols defined so far, and the duplicates met on the way. -/
structure Scope where
  /-- the symbols, in the order of their definitions -/
  symbols : List Symbol
  /-- the duplicates, in order -/
  duplicates : Array Diagnostic
  deriving DecidableEq, Repr, Inhabited

namespace Scope

/-- No symbols. -/
def empty : Scope := ⟨[], #[]⟩

/-- Defines a symbol, unless its name is taken. -/
def define (scope : Scope) (symbol : Symbol) : Scope :=
  match Symbol.find? scope.symbols symbol.name with
  | none => { scope with symbols := scope.symbols ++ [symbol] }
  | some first =>
    { scope with
      duplicates := scope.duplicates.push
        ⟨symbol.position, .duplicateLabel symbol.name first.position⟩ }

/-- The symbols that statements define. -/
def ofStatements (statements : List Placed) : Scope :=
  (statements.filterMap Placed.symbol?).foldl define empty

end Scope

end TwoPass
