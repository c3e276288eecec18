import TwoPass.Assembly.Symbol

set_option autoImplicit false

/-!
# Symbols with an index

The symbols of a scope are a list, and a name is looked for from its front.  A table finds a name
without passing over the symbols before it: beside the symbols it keeps the place of each name.  The
place is that of the first symbol with the name, which the table carries with it as a proof, so a
place never leads past the end or to another name.  After any definitions the symbols of the table
are those of the scope, and a name is found in the one just if it is found in the other.
-/

namespace TwoPass

/-- Symbols in the order of their definitions, with an index of their names. -/
structure SymbolTable where
  /-- the place of each name among the symbols -/
  places : Std.TreeMap Bytes Nat
  /-- the symbols -/
  symbols : Array Symbol
  /-- the place of a name is that of the first symbol that has it -/
  indexed : ∀ name, places[name]? = symbols.findIdx? fun symbol => symbol.name == name

namespace SymbolTable

/-- The table without symbols. -/
def empty : SymbolTable := ⟨∅, #[], by simp⟩

/-- The symbol at the place of a name. -/
def find? (table : SymbolTable) (name : Bytes) : Option Symbol :=
  table.places[name]?.bind fun place => table.symbols[place]?

/-- The address that a name is bound to. -/
def lookup (table : SymbolTable) (name : Bytes) : Option Address :=
  (table.find? name).map Symbol.address

/-- Puts a symbol with a new name behind the others. -/
def push (table : SymbolTable) (symbol : Symbol) (hnew : table.places[symbol.name]? = none) :
    SymbolTable where
  places := table.places.insert symbol.name table.symbols.size
  symbols := table.symbols.push symbol
  indexed := by
    intro name
    rw [Array.findIdx?_push, ← table.indexed, Std.TreeMap.getElem?_insert]
    by_cases hname : symbol.name = name
    · simp [← hname, hnew]
    · simp [hname]

/-- Defines a symbol, unless its name is taken.  Then the symbol that has it is given back. -/
def define (table : SymbolTable) (symbol : Symbol) : SymbolTable × Option Symbol :=
  match hplace : table.places[symbol.name]? with
  | none => (table.push symbol hplace, none)
  | some place => (table, table.symbols[place]?)

/-- The table after definitions, the first of which finds it empty. -/
def ofSymbols (definitions : List Symbol) : SymbolTable :=
  definitions.foldl (fun table symbol => (table.define symbol).1) empty

/-- A place leads to a symbol with the name. -/
theorem exists_symbol_of_place {table : SymbolTable} {name : Bytes} {place : Nat}
    (h : table.places[name]? = some place) :
    ∃ symbol, table.symbols[place]? = some symbol ∧ symbol.name = name := by
  rw [table.indexed] at h
  obtain ⟨hlt, hname, _⟩ := Array.findIdx?_eq_some_iff_getElem.mp h
  exact ⟨table.symbols[place], Array.getElem?_eq_getElem hlt, by simpa using hname⟩

/-- The index finds what passing over the symbols finds. -/
theorem find?_eq (table : SymbolTable) (name : Bytes) :
    table.find? name = Symbol.find? table.symbols.toList name := by
  rw [find?, table.indexed, Symbol.find?, Array.find?_toList, Array.find?_eq_bind_findIdx?_getElem?]

theorem lookup_eq (table : SymbolTable) (name : Bytes) :
    table.lookup name = Symbol.lookup table.symbols.toList name := by
  rw [lookup, find?_eq, Symbol.lookup]

/-- One definition does the same to a table and to a scope with the same symbols, and the table
gives back the symbol that the scope names in the diagnostic of a duplicate. -/
theorem define_agrees {table : SymbolTable} {scope : Scope}
    (h : table.symbols.toList = scope.symbols) (symbol : Symbol) :
    (table.define symbol).1.symbols.toList = (scope.define symbol).symbols ∧
      (table.define symbol).2 = Symbol.find? scope.symbols symbol.name := by
  have hfind : table.find? symbol.name = Symbol.find? scope.symbols symbol.name := by
    rw [find?_eq, h]
  unfold define
  split
  · rename_i hplace
    have hnone : Symbol.find? scope.symbols symbol.name = none := by
      rw [← hfind, find?, hplace, Option.bind_none]
    simp [push, Scope.define, hnone, h]
  · rename_i place hplace
    obtain ⟨first, hfirst, _⟩ := exists_symbol_of_place hplace
    have hsome : Symbol.find? scope.symbols symbol.name = some first := by
      rw [← hfind, find?, hplace, Option.bind_some, hfirst]
    simp [Scope.define, hsome, h, hfirst]

/-- After any definitions a table and a scope have the same symbols. -/
theorem toList_symbols_ofSymbols (definitions : List Symbol) :
    (ofSymbols definitions).symbols.toList =
      (definitions.foldl Scope.define Scope.empty).symbols := by
  have hrun : ∀ (definitions : List Symbol) (table : SymbolTable) (scope : Scope),
      table.symbols.toList = scope.symbols →
      (definitions.foldl (fun table symbol => (table.define symbol).1) table).symbols.toList =
        (definitions.foldl Scope.define scope).symbols := by
    intro definitions
    induction definitions with
    | nil => exact fun _ _ h => h
    | cons symbol rest ih => exact fun _ _ h => ih _ _ (define_agrees h symbol).1
  exact hrun definitions empty Scope.empty rfl

end SymbolTable

end TwoPass
