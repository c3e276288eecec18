import TwoPass.Assembly.Result

set_option autoImplicit false

/-!
# The assembler

Assembly takes two passes over a source.  The first one reads the source, places its statements and
collects the symbols; the second one makes the object code and the object program.  What the first
pass leaves for the second is a value.  A session runs the passes on a state that outlives them, in
any order and any number of times.
-/

namespace TwoPass

/-! ## Settings -/

/-- How to assemble. -/
structure Settings where
  /-- the most bytes of a Text record, zero for no limit -/
  textLimit : Fin 256
  /-- whether diagnostics end assembly -/
  strict : Bool
  deriving DecidableEq, Repr, Inhabited

/-- A choice made by the caller. -/
inductive Choice where
  /-- sets the most bytes of a Text record -/
  | textLimit (bytes : Int)
  /-- sets whether diagnostics end assembly -/
  | strict (on : Bool)
  deriving DecidableEq, Repr, Inhabited

/-! ## Failures -/

/-- Why assembly failed. -/
inductive Failure where
  /-- there is no opcode table -/
  | noTable
  /-- the limit of Text records does not fit their length field -/
  | textLimit (bytes : Int)
  /-- a statement is at fault -/
  | fatal (diagnostic : Diagnostic)
  /-- diagnostics in strict mode -/
  | rejected (diagnostics : List Diagnostic)
  /-- the source cannot be read to its end -/
  | unreadable (fault : ReadFault)
  /-- the second pass comes without a first one -/
  | noFirstPass
  deriving DecidableEq, Repr, Inhabited

/-- The wording of a failure. -/
def Failure.message : Failure → Bytes
  | .noTable => utf8 "nil opcode table"
  | .textLimit bytes =>
    utf8 "text record limit " ++ signedDecimal bytes ++ utf8 " out of range [0, 255]"
  | .fatal diagnostic => diagnostic.report.text
  | .rejected diagnostics => Report.join (diagnostics.map Diagnostic.report)
  | .unreadable fault => utf8 "source read failed: " ++ fault.message
  | .noFirstPass => utf8 "pass 2 requires a successful pass 1"

namespace Settings

/-- One record without a limit, and diagnostics are only collected. -/
def initial : Settings := ⟨0, false⟩

/-- Settings after a choice. -/
def choose (settings : Settings) : Choice → Except Failure Settings
  | .textLimit bytes =>
    if h : 0 ≤ bytes ∧ bytes ≤ 255 then .ok { settings with textLimit := ⟨bytes.toNat, by omega⟩ }
    else .error (.textLimit bytes)
  | .strict on => .ok { settings with strict := on }

/-- Settings after choices made in order. -/
def ofChoices (choices : List Choice) : Except Failure Settings := choices.foldlM choose initial

end Settings

/-- The most diagnostics that a failure in strict mode lists. -/
def maxRejected : Nat := 10

/-- Ends assembly in strict mode if there are diagnostics. -/
def Settings.accept (settings : Settings) (diagnostics : List Diagnostic) : Except Failure Unit :=
  if settings.strict && !diagnostics.isEmpty then .error (.rejected (diagnostics.take maxRejected))
  else .ok ()

/-! ## The passes -/

/-- What the first pass leaves for the second. -/
structure Intermediate where
  /-- the statements with their addresses -/
  layout : Layout
  /-- the symbols that they define -/
  scope : Scope
  deriving DecidableEq, Repr, Inhabited

/-- The first pass over a source.  A statement at fault is reported before a fault of reading
further on. -/
def firstPass (settings : Settings) (table : Opcode.Table) (name : Bytes) (source : Input) :
    Except Failure Intermediate :=
  let reading := source.read
  match Layout.ofStatements (Statement.ofLines table name reading.lines) with
  | .error diagnostic => .error (.fatal diagnostic)
  | .ok layout =>
    match reading.fault with
    | some fault => .error (.unreadable fault)
    | none =>
      let scope := Scope.ofStatements layout.statements
      match settings.accept scope.duplicates.toList with
      | .error failure => .error failure
      | .ok () => .ok ⟨layout, scope⟩

/-- The name of a program: the label of its first START statement, and nothing if that is absent. -/
def programName (statements : List Placed) : Bytes :=
  match statements.find? fun p => p.operation == .start with
  | none => []
  | some p => if p.label = absent then [] else p.label

/-- The result that a listing completes. -/
def Intermediate.complete (limit : Int) (first : Intermediate) (lines : List Line)
    (undefined : List Diagnostic) :
    Assembly :=
  let name := programName first.layout.statements
  { name := name
    start := first.layout.start
    length := first.layout.length
    statements := first.layout.statements
    symbols := first.scope.symbols
    listing := lines
    program := ⟨⟨name, first.layout.start, first.layout.length⟩, Listing.records limit lines,
      first.layout.start⟩
    diagnostics := first.scope.duplicates.toList ++ undefined }

/-- The second pass. -/
def secondPass (settings : Settings) (first : Intermediate) : Except Failure Assembly :=
  let symbols := first.scope.symbols
  let statements := first.layout.statements
  match Listing.ofStatements symbols statements with
  | .error diagnostic => .error (.fatal diagnostic)
  | .ok lines =>
    let assembly :=
      first.complete settings.textLimit.val lines (Listing.undefined symbols statements)
    match settings.accept assembly.diagnostics with
    | .error failure => .error failure
    | .ok () => .ok assembly

/-- Both passes over a source. -/
def assemble (name : Bytes) (source : Input) (table : Option Opcode.Table) (choices : List Choice) :
    Except Failure Assembly := do
  let some table := table | throw .noTable
  let settings ← Settings.ofChoices choices
  let first ← firstPass settings table name source
  secondPass settings first

/-! ## Sessions -/

/-- An assembler in use.  Its passes work on one state: the first pass starts it afresh, the second
one reads it and adds diagnostics to it.  A pass that fails leaves what it has done so far. -/
structure Session where
  /-- how it assembles -/
  settings : Settings
  /-- its opcode table -/
  table : Opcode.Table
  /-- the location counter -/
  counter : Counter
  /-- the statements placed so far -/
  statements : Array Placed
  /-- the symbols that they define -/
  symbols : List Symbol
  /-- the diagnostics of both passes -/
  diagnostics : Array Diagnostic
  /-- how many of the diagnostics are from the last first pass that succeeded -/
  duplicates : Nat
  /-- the number of bytes of the program -/
  length : Address
  /-- whether the last first pass succeeded -/
  ready : Bool

namespace Session

/-- A new assembler. -/
def new (table : Opcode.Table) (choices : List Choice) : Except Failure Session := do
  let settings ← Settings.ofChoices choices
  return ⟨settings, table, .initial, #[], [], #[], 0, 0, false⟩

/-- Forgets the program.  The number of duplicates stays until a first pass succeeds. -/
def reset (session : Session) : Session :=
  { session with
    counter := .initial
    statements := #[]
    symbols := []
    diagnostics := #[]
    length := 0
    ready := false }

/-- Defines the symbol of a statement, if it has one. -/
def define (session : Session) (p : Placed) : Session :=
  match p.symbol? with
  | none => session
  | some symbol =>
    let scope := Scope.define ⟨session.symbols, session.diagnostics⟩ symbol
    { session with symbols := scope.symbols, diagnostics := scope.duplicates }

/-- Places a statement: the session after it, and the diagnostic if it cannot be placed.  Its label
is defined first, even if the statement turns out to be at fault. -/
def place (session : Session) (s : Statement) : Session × Option Diagnostic :=
  let p : Placed := { s with address := session.counter.addressOf s }
  let defined := session.define p
  match session.counter.step s with
  | .error cause => (defined, some ⟨s.position, cause⟩)
  | .ok next => ({ defined with counter := next, statements := defined.statements.push p }, none)

/-- Places statements one after the other, up to the first one at fault. -/
def placeAll (session : Session) : List Statement → Session × Option Diagnostic
  | [] => (session, none)
  | s :: rest =>
    match session.place s with
    | (next, some diagnostic) => (next, some diagnostic)
    | (next, none) => next.placeAll rest

/-- Runs the first pass: the session after it, and the failure if there was one. -/
def runFirst (session : Session) (name : Bytes) (source : Input) : Session × Option Failure :=
  let reading := source.read
  match session.reset.placeAll (Statement.ofLines session.table name reading.lines) with
  | (placed, some diagnostic) => (placed, some (.fatal diagnostic))
  | (placed, none) =>
    match reading.fault with
    | some fault => (placed, some (.unreadable fault))
    | none =>
      let measured := { placed with length := placed.counter.location - placed.counter.start }
      match measured.settings.accept measured.diagnostics.toList with
      | .error failure => (measured, some failure)
      | .ok () => ({ measured with duplicates := measured.diagnostics.size, ready := true }, none)

/-- Adds the diagnostic of a statement whose operand no label defines. -/
def check (session : Session) (p : Placed) : Session :=
  match p.undefined? session.symbols with
  | none => session
  | some diagnostic => { session with diagnostics := session.diagnostics.push diagnostic }

/-- Lists statements with their code behind the lines listed before and groups their code, up to and
including the first END statement.  A statement at fault ends it. -/
def list (session : Session) (lines : Array Line) (g : Object.Grouping) :
    List Placed → Session × Except Diagnostic (Array Line × Object.Grouping)
  | [] => (session, .ok (lines, g))
  | p :: rest =>
    let checked := session.check p
    match Listing.line checked.symbols p with
    | .error diagnostic => (checked, .error diagnostic)
    | .ok l =>
      if p.operation = .finish then (checked, .ok (lines.push l, Listing.group g l))
      else checked.list (lines.push l) (Listing.group g l) rest

/-- The result that a session holds with lines and Text records. -/
def complete (session : Session) (lines : List Line) (text : List Object.Text) : Assembly :=
  let name := programName session.statements.toList
  { name := name
    start := session.counter.start
    length := session.length
    statements := session.statements.toList
    symbols := session.symbols
    listing := lines
    program := ⟨⟨name, session.counter.start, session.length⟩, text, session.counter.start⟩
    diagnostics := session.diagnostics.toList }

/-- Drops the diagnostics of an earlier second pass. -/
def clear (session : Session) : Session :=
  { session with diagnostics := session.diagnostics.take session.duplicates }

/-- Runs the second pass: the session after it, and the result. -/
def second (session : Session) : Session × Except Failure Assembly :=
  if session.ready then
    let cleared := session.clear
    match cleared.list #[] (.new cleared.settings.textLimit.val) cleared.statements.toList with
    | (listed, .error diagnostic) => (listed, .error (.fatal diagnostic))
    | (listed, .ok (lines, g)) =>
      match listed.settings.accept listed.diagnostics.toList with
      | .error failure => (listed, .error failure)
      | .ok () => (listed, .ok (listed.complete lines.toList g.records))
  else (session, .error .noFirstPass)

/-- What the second pass yields. -/
def runSecond (session : Session) : Except Failure Assembly := session.second.2

/-- Changes the opcode table. -/
def changeTable (session : Session) (change : Opcode.Table.Change) : Session :=
  { session with table := session.table.change change }

end Session

end TwoPass
