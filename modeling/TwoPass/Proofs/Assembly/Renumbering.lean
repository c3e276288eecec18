import TwoPass.Proofs.Assembly.LocationCounter
import TwoPass.Proofs.Assembly.Sessions
import TwoPass.Proofs.Source.Canonical

set_option autoImplicit false

/-!
# Positions do not matter

Assembly carries the position of every statement along, to symbols and diagnostics, and never looks
at it.  So each of its stages commutes with a change of positions: what it makes of renumbered
statements is what it makes of the statements, renumbered.  Two sources whose statements have the
same fields are therefore assembled alike, and the canonical lines of a program's statements are a
source for the same program.
-/

namespace TwoPass

variable {f : Position → Position}

/-! ## Renumbered values -/

/-- A cause with its position changed, if it refers to one. -/
def Cause.renumber (f : Position → Position) : Cause → Cause
  | .duplicateLabel label first => .duplicateLabel label (f first)
  | cause => cause

/-- A diagnostic with its positions changed. -/
def Diagnostic.renumber (f : Position → Position) (d : Diagnostic) : Diagnostic :=
  ⟨f d.position, d.cause.renumber f⟩

/-- A placed statement with its position changed. -/
def Placed.renumber (f : Position → Position) (p : Placed) : Placed :=
  { p with position := f p.position }

/-- A symbol with its position changed. -/
def Symbol.renumber (f : Position → Position) (s : Symbol) : Symbol :=
  { s with position := f s.position }

/-- A listing line with its position changed. -/
def Line.renumber (f : Position → Position) (l : Line) : Line := { l with position := f l.position }

/-- Symbols and duplicates with their positions changed. -/
def Scope.renumber (f : Position → Position) (scope : Scope) : Scope :=
  ⟨scope.symbols.map (Symbol.renumber f), scope.duplicates.map (Diagnostic.renumber f)⟩

/-- A layout with its positions changed. -/
def Layout.renumber (f : Position → Position) (layout : Layout) : Layout :=
  { layout with statements := layout.statements.map (Placed.renumber f) }

/-- The outcome of a first pass with its positions changed. -/
def Intermediate.renumber (f : Position → Position) (first : Intermediate) : Intermediate :=
  ⟨first.layout.renumber f, first.scope.renumber f⟩

/-- A result with its positions changed.  Names, addresses, codes and the object program stay. -/
def Assembly.renumber (f : Position → Position) (a : Assembly) : Assembly :=
  { a with
    statements := a.statements.map (Placed.renumber f)
    symbols := a.symbols.map (Symbol.renumber f)
    listing := a.listing.map (Line.renumber f)
    diagnostics := a.diagnostics.map (Diagnostic.renumber f) }

/-- No output shows a position. -/
theorem Assembly.render_renumber (a : Assembly) (output : Output) :
    (a.renumber f).render output = a.render output := by
  unfold Assembly.render
  congr 1
  cases output with
  | intermediate => exact List.flatMap_map _ _ _
  | symbols => exact List.flatMap_map _ _ _
  | listing => exact List.flatMap_map _ _ _
  | length => rfl
  | object => rfl

/-! ## The first pass -/

/-- The location counter gives renumbered statements the same addresses. -/
theorem Layout.extend_renumber {counter : Counter} {placed : List Placed}
    {statements : List Statement}
    {layout : Layout} (h : Layout.extend counter placed statements = .ok layout) :
    Layout.extend counter (placed.map (Placed.renumber f)) (statements.map (Statement.renumber f)) =
      .ok (layout.renumber f) := by
  induction statements generalizing counter placed with
  | nil =>
    rw [← Except.ok.inj h]
    simp [Layout.extend, Layout.renumber]
  | cons s rest ih =>
    unfold Layout.extend at h
    split at h
    · simp at h
    · rename_i next hstep
      -- the counter looks at operations and operands only, so this is the same step
      have hsame : counter.step (s.renumber f) = .ok next := hstep
      rw [List.map_cons, Layout.extend, hsame]
      exact ih h

theorem Placed.symbol?_renumber (p : Placed) :
    (p.renumber f).symbol? = p.symbol?.map (Symbol.renumber f) := by
  unfold Placed.symbol?
  simp only [Placed.renumber]
  cases p.address with
  | none => rfl
  | some address => by_cases hlabel : p.label = absent <;> simp [hlabel, Symbol.renumber]

theorem Symbol.find?_renumber (symbols : List Symbol) (name : Bytes) :
    Symbol.find? (symbols.map (Symbol.renumber f)) name =
      (Symbol.find? symbols name).map (Symbol.renumber f) := by
  rw [Symbol.find?, List.find?_map]
  rfl

theorem Symbol.lookup_renumber (symbols : List Symbol) (name : Bytes) :
    Symbol.lookup (symbols.map (Symbol.renumber f)) name = Symbol.lookup symbols name := by
  rw [Symbol.lookup, Symbol.find?_renumber, Option.map_map]
  rfl

theorem Scope.define_renumber (scope : Scope) (symbol : Symbol) :
    (scope.renumber f).define (symbol.renumber f) = (scope.define symbol).renumber f := by
  have hfind : Symbol.find? (scope.renumber f).symbols (symbol.renumber f).name =
      (Symbol.find? scope.symbols symbol.name).map (Symbol.renumber f) := Symbol.find?_renumber _ _
  simp only [Scope.define, hfind]
  cases Symbol.find? scope.symbols symbol.name with
  | none => simp [Scope.renumber]
  | some first => simp [Scope.renumber, Diagnostic.renumber, Cause.renumber, Symbol.renumber]

/-- Renumbered statements define the same symbols and the same duplicates, renumbered. -/
theorem Scope.ofStatements_renumber (ps : List Placed) :
    Scope.ofStatements (ps.map (Placed.renumber f)) = (Scope.ofStatements ps).renumber f := by
  have hsymbols : (ps.map (Placed.renumber f)).filterMap Placed.symbol? =
      (ps.filterMap Placed.symbol?).map (Symbol.renumber f) := by
    rw [List.filterMap_map, List.map_filterMap]
    exact List.filterMap_congr fun p _ => Placed.symbol?_renumber p
  have hempty : Scope.empty.renumber f = Scope.empty := by simp [Scope.empty, Scope.renumber]
  calc Scope.ofStatements (ps.map (Placed.renumber f))
      = (ps.filterMap Placed.symbol?).foldl (fun scope symbol => scope.define (symbol.renumber f))
          (Scope.empty.renumber f) := by rw [Scope.ofStatements, hsymbols, List.foldl_map, hempty]
    _ = (Scope.ofStatements ps).renumber f :=
      List.foldl_hom (Scope.renumber f) Scope.define_renumber

/-- Whether diagnostics end assembly depends on whether there are any. -/
theorem Settings.accept_map (settings : Settings) (g : Diagnostic → Diagnostic)
    {diagnostics : List Diagnostic}
    (h : settings.accept diagnostics = .ok ()) : settings.accept (diagnostics.map g) = .ok () := by
  unfold Settings.accept at h ⊢
  rw [List.isEmpty_map]
  split at h
  · simp at h
  · rename_i hpass
    rw [if_neg hpass]

/-- A source whose statements are those of another one, renumbered, has the same first pass. -/
theorem firstPass_renumber {settings : Settings} {table : Opcode.Table} {name name' : Bytes}
    {source source' : Input}
    {first : Intermediate} (h : firstPass settings table name source = .ok first)
    (hread : source'.read.fault = none)
    (hstatements : Statement.ofLines table name' source'.read.lines =
      (Statement.ofLines table name source.read.lines).map (Statement.renumber f)) :
    firstPass settings table name' source' = .ok (first.renumber f) := by
  obtain ⟨hlayout, _, hscope, haccept⟩ := eq_of_firstPass_eq_ok h
  have hlayout' : Layout.ofStatements (Statement.ofLines table name' source'.read.lines) =
      .ok (first.layout.renumber f) := by
    rw [hstatements]
    exact Layout.extend_renumber hlayout
  have hscope' : Scope.ofStatements (first.layout.renumber f).statements =
      first.scope.renumber f := by
    rw [hscope]
    exact Scope.ofStatements_renumber _
  have haccept' : settings.accept (first.scope.renumber f).duplicates.toList = .ok () := by
    rw [Scope.renumber, Array.toList_map]
    exact settings.accept_map _ haccept
  simp only [firstPass, hlayout', hread, hscope', haccept']
  rfl

/-! ## The second pass -/

theorem Statement.code_renumber (symbols : List Symbol) (s : Statement) :
    (s.renumber f).code (symbols.map (Symbol.renumber f)) = s.code symbols := by
  simp only [Statement.code, Symbol.lookup_renumber]
  rfl

theorem Statement.undefined?_renumber (symbols : List Symbol) (s : Statement) :
    (s.renumber f).undefined? (symbols.map (Symbol.renumber f)) =
      (s.undefined? symbols).map (Diagnostic.renumber f) := by
  simp only [Statement.undefined?, Symbol.lookup_renumber, Statement.renumber]
  cases s.operation with
  | instruction opcode =>
    by_cases hdefined : s.operand = absent ∨ (Symbol.lookup symbols s.operand).isSome = true
    · simp [hdefined]
    · simp [hdefined, Diagnostic.renumber, Cause.renumber]
  | _ => rfl

namespace Listing

theorem upToEnd_renumber (ps : List Placed) :
    upToEnd (ps.map (Placed.renumber f)) = (upToEnd ps).map (Placed.renumber f) := by
  simp only [upToEnd, List.span_eq_takeWhile_dropWhile, List.takeWhile_map, List.dropWhile_map,
    List.map_append, List.map_take]
  rfl

theorem line_renumber {symbols : List Symbol} {p : Placed} {l : Line} (h : line symbols p = .ok l) :
    line (symbols.map (Symbol.renumber f)) (p.renumber f) = .ok (l.renumber f) := by
  have hcode : (p.renumber f).code (symbols.map (Symbol.renumber f)) = p.code symbols :=
    Statement.code_renumber symbols p.toStatement
  unfold line at h ⊢
  rw [hcode]
  split at h
  · simp at h
  · rw [← Except.ok.inj h]
    rfl

/-- Renumbered statements are listed with the same code. -/
theorem ofStatements_renumber {symbols : List Symbol} {ps : List Placed} {lines : List Line}
    (h : ofStatements symbols ps = .ok lines) :
    ofStatements (symbols.map (Symbol.renumber f)) (ps.map (Placed.renumber f)) =
      .ok (lines.map (Line.renumber f)) := by
  rw [ofStatements, upToEnd_renumber, mapM_eq_ok_iff, List.forall₂_map_left_iff,
    List.forall₂_map_right_iff]
  exact (mapM_eq_ok_iff.mp h).imp fun p l hline => line_renumber hline

theorem undefined_renumber (symbols : List Symbol) (ps : List Placed) :
    undefined (symbols.map (Symbol.renumber f)) (ps.map (Placed.renumber f)) =
      (undefined symbols ps).map (Diagnostic.renumber f) := by
  rw [undefined, undefined, upToEnd_renumber, List.filterMap_map, List.map_filterMap]
  exact List.filterMap_congr fun p _ => Statement.undefined?_renumber symbols p.toStatement

theorem records_renumber (limit : Int) (lines : List Line) :
    records limit (lines.map (Line.renumber f)) = records limit lines := by
  rw [records, List.foldl_map]
  rfl

end Listing

theorem programName_renumber (ps : List Placed) :
    programName (ps.map (Placed.renumber f)) = programName ps := by
  unfold programName
  rw [List.find?_map]
  have hstart : ((fun p : Placed => p.operation == .start) ∘ Placed.renumber f) =
      fun p => p.operation == .start := rfl
  rw [hstart]
  cases ps.find? fun p => p.operation == .start <;> rfl

theorem Intermediate.complete_renumber (limit : Int) (first : Intermediate) (lines : List Line)
    (undefined : List Diagnostic) :
    (first.renumber f).complete limit (lines.map (Line.renumber f))
    (undefined.map (Diagnostic.renumber f)) =
      (first.complete limit lines undefined).renumber f := by
  have hname : programName (first.renumber f).layout.statements =
      programName first.layout.statements :=
    programName_renumber _
  simp only [Intermediate.complete, hname, Listing.records_renumber]
  simp [Assembly.renumber, Intermediate.renumber, Layout.renumber, Scope.renumber, Layout.start,
    Layout.length]

theorem secondPass_renumber {settings : Settings} {first : Intermediate} {a : Assembly}
    (h : secondPass settings first = .ok a) :
    secondPass settings (first.renumber f) = .ok (a.renumber f) := by
  obtain ⟨lines, hlines, rfl, haccept⟩ := eq_of_secondPass_eq_ok h
  have hlines' :
      Listing.ofStatements (first.renumber f).scope.symbols (first.renumber f).layout.statements =
      .ok (lines.map (Line.renumber f)) := Listing.ofStatements_renumber hlines
  have hundefined :
      Listing.undefined (first.renumber f).scope.symbols (first.renumber f).layout.statements =
      (Listing.undefined first.scope.symbols first.layout.statements).map (Diagnostic.renumber f) :=
    Listing.undefined_renumber _ _
  have haccept' := settings.accept_map (Diagnostic.renumber f) haccept
  rw [secondPass_of_listing hlines', hundefined, Intermediate.complete_renumber]
  simp only [Assembly.renumber, haccept']
  rfl

/-! ## Assembly -/

/-- A source whose statements are those of another one, renumbered, is assembled alike. -/
theorem assemble_renumber {name name' : Bytes} {source source' : Input} {table : Opcode.Table}
    {choices : List Choice} {a : Assembly} (h : assemble name source (some table) choices = .ok a)
    (hread : source'.read.fault = none)
    (hstatements : Statement.ofLines table name' source'.read.lines =
      (Statement.ofLines table name source.read.lines).map (Statement.renumber f)) :
    assemble name' source' (some table) choices = .ok (a.renumber f) := by
  obtain ⟨settings, first, hsettings, hfirst, hsecond⟩ := eq_of_assemble_eq_ok h
  rw [Session.assemble_eq_bind hsettings, firstPass_renumber hfirst hread hstatements, ok_bind]
  exact secondPass_renumber hsecond

/-- The statements of a program are a source for it.  Written on their canonical lines, if these fit
the line buffer, they are assembled to the same result with every statement on its own line; and so
is any other source that can be read and whose statements have the same fields, wherever they stand.
Results that differ in positions only are written as the same texts. -/
theorem assemble_canonicalSource {name : Bytes} {source : Input} {table : Opcode.Table}
    {choices : List Choice} {a : Assembly} (h : assemble name source (some table) choices = .ok a) :
    (∀ name', (∀ p ∈ a.statements, p.canonicalLine.length < lineLimit) →
      ∃ f,
        assemble name' (.ofBytes (Statement.canonicalSource (a.statements.map Placed.toStatement)))
          (some table) choices = .ok (a.renumber f) ∧
        ∀ (i : Nat) (p : Placed), a.statements[i]? = some p → f p.position = ⟨name', i + 1⟩) ∧
    (∀ name' source', source'.read.fault = none →
      (Statement.ofLines table name' source'.read.lines).map Statement.fields =
        a.statements.map (fun p => p.fields) →
      ∃ f, assemble name' source' (some table) choices = .ok (a.renumber f)) ∧
    ∀ f output, (a.renumber f).render output = a.render output := by
  obtain ⟨settings, _, hmade⟩ := made_of_assemble h
  obtain ⟨_, _, hstatements, _⟩ := hmade.exists_places
  have hnodup := Statement.nodup_positions table name source.read.lines
  have hregular : ∀ s ∈ Statement.ofLines table name source.read.lines, s.Regular table :=
    fun s hs => Statement.regular_of_mem_ofLines hs
  refine ⟨?_, ?_, fun f output => a.render_renumber output⟩
  · intro name' hfits
    have hlines : ∀ s ∈ Statement.ofLines table name source.read.lines,
        s.canonicalLine.length < lineLimit := by
      rw [← hstatements]
      simpa using hfits
    have hread := Statement.read_canonicalSource hregular hlines
    obtain ⟨f, hf, hnumbers⟩ := Statement.exists_renumber_canonicalLines hnodup hregular name'
    rw [hstatements]
    refine ⟨f, assemble_renumber h (by rw [hread]) (by rw [hread]; exact hf), fun i p hp => ?_⟩
    refine hnumbers i p.toStatement ?_
    rw [← hstatements, List.getElem?_map, hp]
    rfl
  · intro name' source' hread hfields
    have hsame : (Statement.ofLines table name' source'.read.lines).map Statement.fields =
        (Statement.ofLines table name source.read.lines).map Statement.fields := by
      rw [hfields, ← hstatements, List.map_map]
      rfl
    obtain ⟨f, hf⟩ := Statement.exists_eq_map_renumber hnodup hregular
      (fun s hs => Statement.regular_of_mem_ofLines hs) hsame
    exact ⟨f, assemble_renumber h hread hf⟩

/-- A source with comments, blank lines, words that are ignored, many kinds of white space, labels
and operands that are left out, a label that is an instruction's name and one that is no text. -/
def looseSource : Input := .ofBytes <|
  utf8 ". LDA X\n\n \tP\u00a0START 10 . LDA\r\nLDA X\n LDA\r\nLDA LDA LDA X\n\u3000LONE\n-\n" ++
    0xFF :: utf8 "\u0085LDA\n\x0b\nX RESB  2\nEND P"

theorem assemble_canonicalSource_looseSource :
    ∃ a f, assemble [] looseSource (some loadTable) [] = .ok a ∧
      (∀ p ∈ a.statements, p.canonicalLine.length < lineLimit) ∧
      Statement.canonicalSource (a.statements.map Placed.toStatement) =
        utf8 "P\tSTART\t10\n-\tLDA\tX\n-\tLDA\t-\nLDA\tLDA\tLDA\nLONE\t-\t-\n-\t-\t-\n" ++
          0xFF :: utf8 "\tLDA\t-\nX\tRESB\t2\n-\tEND\tP\n" ∧
      assemble (utf8 "P")
      (.ofBytes (Statement.canonicalSource (a.statements.map Placed.toStatement)))
        (some loadTable) [] = .ok (a.renumber f) ∧
      f ⟨[], 3⟩ = ⟨utf8 "P", 1⟩ ∧ f ⟨[], 11⟩ = ⟨utf8 "P", 8⟩ := by
  have ha := eq_ok_of_isOk (default : Assembly)
    (x := assemble [] looseSource (some loadTable) []) (by decide +kernel)
  have hstatements :
      ((assemble [] looseSource (some loadTable) []).toOption.getD default).statements =
      [⟨⟨⟨[], 3⟩, utf8 "P", utf8 "START", utf8 "10", .start⟩, none⟩,
        ⟨⟨⟨[], 4⟩, utf8 "-", utf8 "LDA", utf8 "X", .instruction (utf8 "0a")⟩, some 0x10⟩,
        ⟨⟨⟨[], 5⟩, utf8 "-", utf8 "LDA", utf8 "-", .instruction (utf8 "0a")⟩, some 0x13⟩,
        ⟨⟨⟨[], 6⟩, utf8 "LDA", utf8 "LDA", utf8 "LDA", .instruction (utf8 "0a")⟩, some 0x16⟩,
        ⟨⟨⟨[], 7⟩, utf8 "LONE", utf8 "-", utf8 "-", .unknown⟩, some 0x19⟩,
        ⟨⟨⟨[], 8⟩, utf8 "-", utf8 "-", utf8 "-", .unknown⟩, some 0x19⟩,
        ⟨⟨⟨[], 9⟩, [0xFF], utf8 "LDA", utf8 "-", .instruction (utf8 "0a")⟩, some 0x19⟩,
        ⟨⟨⟨[], 11⟩, utf8 "X", utf8 "RESB", utf8 "2", .reserveBytes⟩, some 0x1C⟩,
        ⟨⟨⟨[], 12⟩, utf8 "-", utf8 "END", utf8 "P", .finish⟩, some 0x1E⟩] := by
    decide +kernel
  have hfits :
      ∀ p ∈ ((assemble [] looseSource (some loadTable) []).toOption.getD default).statements,
      p.canonicalLine.length < lineLimit := by
    rw [hstatements]
    decide +kernel
  obtain ⟨f, hf, hnumbers⟩ := (assemble_canonicalSource ha).1 (utf8 "P") hfits
  rw [hstatements] at hnumbers
  refine ⟨_, f, ha, hfits, ?_, hf, hnumbers 0 _ rfl, hnumbers 7 _ rfl⟩
  rw [hstatements]
  decide +kernel

end TwoPass
