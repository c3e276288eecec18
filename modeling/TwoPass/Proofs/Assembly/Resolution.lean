import TwoPass.Proofs.Assembly.LocationCounter
import TwoPass.Proofs.Assembly.Records
import TwoPass.Proofs.Assembly.SymbolTable

set_option autoImplicit false

/-!
# Names stand for their first definitions

Every statement with a label defines it, the first START statement apart, whose label names the
program.  A scope keeps the first definition of each name, in the order in which the names first
occur.  The second pass looks names up in the scope of the whole source, so an instruction refers to
the first definition of its operand wherever that stands: before it, behind it, or behind the END
statement.
-/

namespace TwoPass

/-! ## Scopes -/

namespace Scope

/-- The scope holds the first of the definitions of each name. -/
structure Binds (scope : Scope) (definitions : List Symbol) : Prop where
  /-- each name that is defined occurs once, in the order of the first definitions -/
  names : scope.symbols.map Symbol.name = (definitions.map Symbol.name).eraseDups
  /-- looking a name up finds its first definition -/
  find : ∀ name, Symbol.find? scope.symbols name = Symbol.find? definitions name
  /-- every symbol is the first definition of its name -/
  first : ∀ symbol ∈ scope.symbols, Symbol.find? definitions symbol.name = some symbol

theorem Binds.empty : Scope.empty.Binds [] := ⟨rfl, fun _ => rfl, by simp [Scope.empty]⟩

/-- A name can be found just if it is defined. -/
theorem mem_names_iff_find? {definitions : List Symbol} {name : Bytes} :
    name ∈ definitions.map Symbol.name ↔ Symbol.find? definitions name ≠ none := by
  simp [Symbol.find?, List.mem_map]

theorem find?_append_singleton (definitions : List Symbol) (symbol : Symbol) (name : Bytes) :
    Symbol.find? (definitions ++ [symbol]) name =
      (Symbol.find? definitions name).or (if symbol.name = name then some symbol else none) := by
  by_cases hname : symbol.name = name <;> simp [Symbol.find?, List.find?_append, hname]

/-- One more definition counts only if its name is new. -/
theorem Binds.define {scope : Scope} {definitions : List Symbol} (h : scope.Binds definitions)
    (symbol : Symbol) : (scope.define symbol).Binds (definitions ++ [symbol]) := by
  have hkept : ∀ other ∈ scope.symbols,
      Symbol.find? (definitions ++ [symbol]) other.name = some other := by
    intro other hother
    rw [find?_append_singleton, h.first other hother, Option.some_or]
  cases hfind : Symbol.find? scope.symbols symbol.name with
  | none =>
    have hnew : Symbol.find? definitions symbol.name = none := by rw [← h.find, hfind]
    have hfresh : symbol.name ∉ definitions.map Symbol.name := by
      rw [mem_names_iff_find?, hnew]
      simp
    have hdefine : (scope.define symbol).symbols = scope.symbols ++ [symbol] := by
      simp [Scope.define, hfind]
    refine ⟨?_, ?_, ?_⟩
    · rw [hdefine, List.map_append, List.map_append, List.eraseDups_append, h.names]
      have hremoved : [symbol.name].removeAll (definitions.map Symbol.name) = [symbol.name] := by
        simpa [List.removeAll] using hfresh
      rw [List.map_singleton, hremoved]
      rfl
    · intro name
      rw [hdefine, find?_append_singleton, find?_append_singleton, h.find]
    · intro other hother
      rw [hdefine] at hother
      rcases List.mem_append.mp hother with hold | hlast
      · exact hkept other hold
      · rw [List.mem_singleton.mp hlast, find?_append_singleton, hnew]
        simp
  | some first =>
    have hfirst : Symbol.find? definitions symbol.name = some first := by rw [← h.find, hfind]
    have htaken : symbol.name ∈ definitions.map Symbol.name := by
      rw [mem_names_iff_find?, hfirst]
      simp
    have hdefine : (scope.define symbol).symbols = scope.symbols := by
      simp [Scope.define, hfind]
    refine ⟨?_, ?_, ?_⟩
    · rw [hdefine, List.map_append, List.eraseDups_append, h.names]
      have hremoved : [symbol.name].removeAll (definitions.map Symbol.name) = [] := by
        simpa [List.removeAll] using htaken
      rw [List.map_singleton, hremoved]
      simp
    · intro name
      rw [hdefine, find?_append_singleton, h.find]
      split
      · rename_i hname
        rw [← hname, hfirst, Option.some_or]
      · rw [Option.or_none]
    · intro other hother
      rw [hdefine] at hother
      exact hkept other hother

/-- Definitions one after the other. -/
theorem Binds.foldl_define {scope : Scope} {definitions : List Symbol} (h : scope.Binds definitions)
    (symbols : List Symbol) :
    (symbols.foldl Scope.define scope).Binds (definitions ++ symbols) := by
  induction symbols generalizing scope definitions with
  | nil => simpa using h
  | cons symbol symbols ih => simpa using ih (h.define symbol)

theorem binds_ofStatements (ps : List Placed) :
    (Scope.ofStatements ps).Binds (ps.filterMap Placed.symbol?) :=
  Binds.empty.foldl_define _

end Scope

/-! ## Definitions -/

/-- The statements that define a name: all that have a label, except the first START statement. -/
def defining (ps : List Placed) : List Placed :=
  (ps.eraseP fun p => p.isStart).filter fun p => p.label ≠ absent

/-- The first statement that defines a name. -/
def firstDefinition? (ps : List Placed) (name : Bytes) : Option Placed :=
  (defining ps).find? fun p => p.label == name

/-- The symbol that a statement with an address defines. -/
def Placed.symbol (p : Placed) : Symbol := ⟨p.label, p.address.getD 0, p.position⟩

/-- Among statements with addresses, those with a label define symbols. -/
theorem filterMap_symbol?_of_address {ps : List Placed}
    (h : ∀ p ∈ ps, ∃ address, p.address = some address) :
    ps.filterMap Placed.symbol? = (ps.filter fun p => p.label ≠ absent).map Placed.symbol := by
  induction ps with
  | nil => rfl
  | cons p ps ih =>
    obtain ⟨address, haddress⟩ := h p List.mem_cons_self
    have hrest := ih fun q hq => h q (List.mem_cons_of_mem p hq)
    by_cases hlabel : p.label = absent
    · have hnone : p.symbol? = none := by simp [Placed.symbol?, haddress, hlabel]
      rw [List.filterMap_cons_none hnone, List.filter_cons_of_neg (by simp [hlabel]), hrest]
    · have hsome : p.symbol? = some p.symbol := by
        simp [Placed.symbol?, Placed.symbol, haddress, hlabel]
      rw [List.filterMap_cons_some hsome, List.filter_cons_of_pos (by simp [hlabel]),
        List.map_cons, hrest]

/-- Only the first START statement has no address, and it defines nothing. -/
theorem Counter.Places.eraseP_isStart {last : Counter} {ps : List Placed}
    (h : Counter.Places .initial ps last) :
    (∀ p ∈ ps.eraseP fun p => p.isStart, ∃ address, p.address = some address) ∧
      ps.filterMap Placed.symbol? = (ps.eraseP fun p => p.isStart).filterMap Placed.symbol? := by
  cases hsome : hasStart ps with
  | false =>
    have hnone : ∀ p ∈ ps, ¬ p.isStart = true := List.any_eq_false.mp hsome
    rw [List.eraseP_of_forall_not hnone]
    refine ⟨?_, rfl⟩
    intro p hp
    obtain ⟨address, haddress, _⟩ := h.exists_address (Or.inr hsome) p hp
    exact ⟨address, haddress⟩
  | true =>
    obtain ⟨before, start, after, rfl, hstart, hbefore⟩ := exists_eq_append_of_hasStart hsome
    have hnone : ∀ p ∈ before, ¬ p.isStart = true := List.any_eq_false.mp hbefore
    have herase : (before ++ start :: after).eraseP (fun p => p.isStart) = before ++ after := by
      rw [List.eraseP_append_right _ hnone, List.eraseP_cons, hstart, cond_true]
    rw [herase]
    obtain ⟨hunplaced, _, c, hafter, hsettled, _⟩ := h.exists_atStart hstart hbefore
    obtain ⟨_, hfront, _⟩ := h.split
    constructor
    · intro p hp
      rcases List.mem_append.mp hp with hp | hp
      · obtain ⟨address, hplaced, _⟩ := hfront.exists_address (Or.inr hbefore) p hp
        exact ⟨address, hplaced⟩
      · obtain ⟨address, hplaced, _⟩ := hafter.exists_address hsettled p hp
        exact ⟨address, hplaced⟩
    · have hsymbol : start.symbol? = none := by simp [Placed.symbol?, hunplaced]
      rw [List.filterMap_append, List.filterMap_cons_none hsymbol, List.filterMap_append]

/-- Statements that define a name have an address. -/
theorem Counter.Places.address_of_mem_defining {last : Counter} {ps : List Placed}
    (h : Counter.Places .initial ps last) {p : Placed} (hp : p ∈ defining ps) :
    p.address = some p.symbol.address := by
  obtain ⟨address, haddress⟩ := h.eraseP_isStart.1 p (List.mem_filter.mp hp).1
  simp [Placed.symbol, haddress]

theorem Counter.Places.filterMap_symbol? {last : Counter} {ps : List Placed}
    (h : Counter.Places .initial ps last) :
    ps.filterMap Placed.symbol? = (defining ps).map Placed.symbol := by
  obtain ⟨haddress, herase⟩ := h.eraseP_isStart
  rw [herase, filterMap_symbol?_of_address haddress, defining]

/-- The first definition among symbols is that of the first statement that defines the name. -/
theorem find?_map_symbol (ps : List Placed) (name : Bytes) :
    Symbol.find? ((defining ps).map Placed.symbol) name =
      (firstDefinition? ps name).map Placed.symbol :=
  List.find?_map

/-! ## References -/

/-- The code of an instruction ends in the address of its operand, and in zeros if that stands for
none. -/
theorem Statement.code_of_instruction {symbols : List Symbol} {s : Statement} {opcode code : Bytes}
    (hoperation : s.operation = .instruction opcode) (h : s.code symbols = .ok code) :
    code = opcode ++ upperHex 4
      (if s.operand = absent then 0 else (Symbol.lookup symbols s.operand).getD 0 :
        Address).toNat := by
  unfold Statement.code at h
  rw [hoperation] at h
  exact (Except.ok.inj h).symm

/-- What a result knows about names. -/
structure Assembly.Resolves (a : Assembly) : Prop where
  /-- the symbols are the labels that are defined, each once, in the order in which they first
  occur -/
  names : a.symbols.map Symbol.name = ((defining a.statements).map fun p => p.label).eraseDups
  /-- a symbol has the address and the position of the first statement that defines it -/
  first : ∀ symbol ∈ a.symbols, ∃ p, firstDefinition? a.statements symbol.name = some p ∧
    p.address = some symbol.address ∧ p.position = symbol.position
  /-- looking a name up agrees with the list of symbols -/
  lookup : ∀ name address, Symbol.lookup a.symbols name = some address ↔
    ∃ symbol ∈ a.symbols, symbol.name = name ∧ symbol.address = address
  /-- an instruction refers to the first definition of its operand, wherever that stands -/
  reference : ∀ l ∈ a.listing, ∀ opcode, l.operation = .instruction opcode →
    ∀ p, firstDefinition? a.statements l.operand = some p →
      ∃ address, p.address = some address ∧ l.code = opcode ++ upperHex 4 address.toNat
  /-- an operand that is absent, or that no statement defines, counts as address zero -/
  blank : ∀ l ∈ a.listing, ∀ opcode, l.operation = .instruction opcode →
    (l.operand = absent ∨ ∀ p ∈ defining a.statements, p.label ≠ l.operand) →
      l.code = opcode ++ utf8 "0000"

/-- A name that no statement defines has no first definition. -/
theorem firstDefinition?_eq_none_iff {ps : List Placed} {name : Bytes} :
    firstDefinition? ps name = none ↔ ∀ p ∈ defining ps, p.label ≠ name := by
  simp [firstDefinition?]

theorem label_ne_absent_of_mem_defining {ps : List Placed} {p : Placed} (h : p ∈ defining ps) :
    p.label ≠ absent := by
  simpa using (List.mem_filter.mp h).2

/-- A result looks names up among the first definitions of its statements. -/
theorem Assembly.Made.lookup_eq {settings : Settings} {source : List Statement} {a : Assembly}
    (h : a.Made settings source) (name : Bytes) :
    Symbol.lookup a.symbols name =
      (firstDefinition? a.statements name).map fun p => p.symbol.address := by
  obtain ⟨counter, hplaces, _⟩ := h.exists_places
  rw [Symbol.lookup, h.symbols, (Scope.binds_ofStatements a.statements).find,
    hplaces.filterMap_symbol?, find?_map_symbol, Option.map_map]
  rfl

theorem Assembly.Made.resolves {settings : Settings} {source : List Statement} {a : Assembly}
    (h : a.Made settings source) : a.Resolves := by
  obtain ⟨counter, hplaces, _⟩ := h.exists_places
  have hbinds := Scope.binds_ofStatements a.statements
  rw [hplaces.filterMap_symbol?] at hbinds
  -- A symbol is the symbol of the first statement that defines its name.
  have hfirst : ∀ symbol ∈ a.symbols, ∃ p, firstDefinition? a.statements symbol.name = some p ∧
      p.address = some symbol.address ∧ p.position = symbol.position := by
    intro symbol hsymbol
    rw [h.symbols] at hsymbol
    have hfind := hbinds.first symbol hsymbol
    rw [find?_map_symbol] at hfind
    obtain ⟨p, hp, rfl⟩ := Option.map_eq_some_iff.mp hfind
    exact ⟨p, hp, hplaces.address_of_mem_defining (List.mem_of_find?_eq_some hp), rfl⟩
  refine { names := ?_, first := hfirst, lookup := ?_, reference := ?_, blank := ?_ }
  · rw [h.symbols, hbinds.names, List.map_map]
    rfl
  · intro name address
    constructor
    · intro hlookup
      obtain ⟨symbol, hfind, rfl⟩ := Option.map_eq_some_iff.mp hlookup
      exact ⟨symbol, List.mem_of_find?_eq_some hfind, by simpa using List.find?_some hfind, rfl⟩
    · rintro ⟨symbol, hsymbol, rfl, rfl⟩
      obtain ⟨p, hp, haddress, _⟩ := hfirst symbol hsymbol
      have hplaced := hplaces.address_of_mem_defining (List.mem_of_find?_eq_some hp)
      rw [h.lookup_eq, hp, Option.map_some, ← hplaced, haddress]
  · intro l hl opcode hoperation p hp
    have hmem : p ∈ defining a.statements := List.mem_of_find?_eq_some hp
    have hlabel : p.label = l.operand := by simpa using List.find?_some hp
    have hoperand : l.operand ≠ absent := by
      rw [← hlabel]
      exact label_ne_absent_of_mem_defining hmem
    refine ⟨p.symbol.address, hplaces.address_of_mem_defining hmem, ?_⟩
    have hcode := Statement.code_of_instruction hoperation (h.mem_statements hl).2
    rw [if_neg hoperand, h.lookup_eq, hp] at hcode
    exact hcode
  · intro l hl opcode hoperation hundefined
    have hcode := Statement.code_of_instruction hoperation (h.mem_statements hl).2
    rcases hundefined with habsent | hundefined
    · rw [if_pos habsent] at hcode
      exact hcode
    · rw [h.lookup_eq, firstDefinition?_eq_none_iff.mpr hundefined, Option.map_none,
        Option.getD_none, ite_self] at hcode
      exact hcode

/-- The symbols that statements define, with an index. -/
def SymbolTable.ofStatements (ps : List Placed) : SymbolTable :=
  ofSymbols (ps.filterMap Placed.symbol?)

/-- Assembly resolves every name to its first definition among all statements of the source.  A
table that takes the same definitions has the same symbols, and finds every name by its index as the
result does. -/
theorem assemble_resolves {name : Bytes} {source : Input} {table : Opcode.Table}
    {choices : List Choice} {a : Assembly} (h : assemble name source (some table) choices = .ok a) :
    a.statements.map Placed.toStatement = Statement.ofLines table name source.read.lines ∧
      a.Resolves ∧
      (SymbolTable.ofStatements a.statements).symbols.toList = a.symbols ∧
      ∀ label, (SymbolTable.ofStatements a.statements).lookup label =
        Symbol.lookup a.symbols label := by
  obtain ⟨settings, _, hmade⟩ := made_of_assemble h
  obtain ⟨counter, hlayout, _⟩ := hmade.layout
  have hsymbols : (SymbolTable.ofStatements a.statements).symbols.toList = a.symbols := by
    rw [hmade.symbols, SymbolTable.ofStatements, SymbolTable.toList_symbols_ofSymbols,
      Scope.ofStatements]
  refine ⟨(Layout.places_of_extend hlayout).2, hmade.resolves, hsymbols, fun label => ?_⟩
  rw [SymbolTable.lookup_eq, hsymbols]

/-- A source that uses names before and behind their definitions, one of them defined behind the END
statement and one twice; the program is named like an operand, and a later START statement defines a
label. -/
def crossReferences : Input := .ofBytes
  (utf8 "P START fff0\nA LDA B\nB LDA Z\nB LDA P\nQ START 7\nC LDA Q\nRESW 9000\nD LDA -\nEND\n" ++
    utf8 "Z RESB 1\nA WORD 1")

theorem assemble_resolves_crossReferences :
    ∃ a, assemble [] crossReferences (some loadTable) [] = .ok a ∧ a.Resolves ∧
      (∀ label, (SymbolTable.ofStatements a.statements).lookup label =
        Symbol.lookup a.symbols label) ∧
      a.symbols.map Symbol.name = [utf8 "A", utf8 "B", utf8 "Q", utf8 "C", utf8 "D", utf8 "Z"] ∧
      a.listing.map Line.code = [[], utf8 "0aFFF3", utf8 "0a16977", utf8 "0a0000", [],
        utf8 "0aFFF9", [], utf8 "0a0000", []] := by
  have ha := eq_ok_of_isOk (default : Assembly)
    (x := assemble [] crossReferences (some loadTable) []) (by decide +kernel)
  obtain ⟨_, hresolves, _, hlookup⟩ := assemble_resolves ha
  exact ⟨_, ha, hresolves, hlookup, by decide +kernel⟩

end TwoPass
