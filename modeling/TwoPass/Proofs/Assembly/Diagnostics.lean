import Mathlib.Data.List.Induction
import TwoPass.Proofs.Assembly.Resolution

set_option autoImplicit false

/-!
# What is diagnosed

A result lists its diagnostics in two parts.  First come the labels that are defined again, over the
whole source, each with the first statement that defines it, however often it has been defined
since.  Then come the operands that no label defines, over the listing alone, once for each use.
-/

namespace TwoPass

/-! ## Repeated elements -/

/-- The elements of a list that an earlier one matches, each with the first one that does. -/
def repeats {α : Type} (matched : α → α → Bool) (xs : List α) : List (α × α) :=
  xs.zipIdx.filterMap fun (x, i) =>
    ((xs.take i).find? fun first => matched first x).map fun first => (x, first)

section

variable {α β : Type} (matched : α → α → Bool)

/-- A further element is a repeat if one of those before matches it, and makes none of those a
repeat. -/
theorem repeats_append_singleton (xs : List α) (x : α) :
    repeats matched (xs ++ [x]) =
      repeats matched xs ++
        ((xs.find? fun first => matched first x).map fun first => (x, first)).toList := by
  unfold repeats
  rw [List.zipIdx_append, List.filterMap_append]
  congr 1
  · refine List.filterMap_congr fun ⟨y, i⟩ hmem => ?_
    have hlt : i < xs.length := by simpa using List.snd_lt_of_mem_zipIdx hmem
    simp only [List.take_append_of_le_length (Nat.le_of_lt hlt)]
  · cases hfind : xs.find? fun first => matched first x <;> simp [hfind]

/-- Elements repeat where their images do. -/
theorem repeats_map (f : β → α) (xs : List β) :
    repeats matched (xs.map f) =
      (repeats (fun first x => matched (f first) (f x)) xs).map (Prod.map f f) := by
  induction xs using List.reverseRecOn with
  | nil => rfl
  | append_singleton xs x ih =>
    rw [List.map_append, List.map_singleton, repeats_append_singleton, repeats_append_singleton, ih,
      List.map_append, List.find?_map]
    congr 1
    change (Option.map _ (Option.map f (xs.find? fun first => matched (f first) (f x)))).toList = _
    cases xs.find? fun first => matched (f first) (f x) with
    | none => rfl
    | some first => rfl

end

/-! ## Labels defined again -/

/-- A scope has recorded the definitions of names that were defined before, each with the first
one. -/
def Scope.Records (scope : Scope) (definitions : List Symbol) : Prop :=
  scope.duplicates.toList =
    (repeats (fun first symbol => first.name == symbol.name) definitions).map fun (symbol, first) =>
      ⟨symbol.position, .duplicateLabel symbol.name first.position⟩

/-- One more definition is recorded if its name is taken. -/
theorem Scope.Records.define {scope : Scope} {definitions : List Symbol}
    (h : scope.Records definitions) (hbinds : scope.Binds definitions) (symbol : Symbol) :
    (scope.define symbol).Records (definitions ++ [symbol]) := by
  have hfind := hbinds.find symbol.name
  unfold Scope.Records at h ⊢
  rw [repeats_append_singleton, List.map_append, ← h]
  change _ = _ ++ List.map _ (Option.map _ (Symbol.find? definitions symbol.name)).toList
  rw [← hfind]
  unfold Scope.define
  cases Symbol.find? scope.symbols symbol.name with
  | none => simp
  | some first => simp

theorem Scope.Records.foldl_define {scope : Scope} {definitions : List Symbol}
    (h : scope.Records definitions) (hbinds : scope.Binds definitions) (symbols : List Symbol) :
    (symbols.foldl Scope.define scope).Records (definitions ++ symbols) := by
  induction symbols generalizing scope definitions with
  | nil => simpa using h
  | cons symbol symbols ih => simpa using ih (h.define hbinds symbol) (hbinds.define symbol)

theorem Scope.records_ofStatements (ps : List Placed) :
    (Scope.ofStatements ps).Records (ps.filterMap Placed.symbol?) :=
  Scope.Records.foldl_define (show Scope.empty.Records [] from rfl) Scope.Binds.empty _

/-- The diagnostics of the labels that are defined again. -/
def duplicateLabels (ps : List Placed) : List Diagnostic :=
  (repeats (fun first p => first.label == p.label) (defining ps)).map fun (p, first) =>
    ⟨p.position, .duplicateLabel p.label first.position⟩

/-- The scope of placed statements records the labels that they define again. -/
theorem Counter.Places.duplicates_eq {last : Counter} {ps : List Placed}
    (h : Counter.Places .initial ps last) :
    (Scope.ofStatements ps).duplicates.toList = duplicateLabels ps := by
  have hrecords := Scope.records_ofStatements ps
  rw [h.filterMap_symbol?, Scope.Records, repeats_map, List.map_map] at hrecords
  exact hrecords

/-! ## Operands that no label defines -/

/-- The diagnostic of an instruction whose operand is there, and is the label of no statement that
defines one. -/
def Line.undefinedUse? (ps : List Placed) (l : Line) : Option Diagnostic :=
  match l.operation with
  | .instruction _ =>
    if l.operand ≠ absent ∧ ∀ p ∈ defining ps, p.label ≠ l.operand then
      some ⟨l.position, .undefinedSymbol l.operand⟩
    else none
  | _ => none

/-- The diagnostics of the operands in a listing that no label defines. -/
def undefinedUses (ps : List Placed) (lines : List Line) : List Diagnostic :=
  lines.filterMap (Line.undefinedUse? ps)

/-- A line is diagnosed if no label defines its operand. -/
theorem Assembly.Made.undefined?_eq {settings : Settings} {source : List Statement} {a : Assembly}
    (h : a.Made settings source) (l : Line) :
    l.undefined? a.symbols = l.undefinedUse? a.statements := by
  have hdefined : (Symbol.lookup a.symbols l.operand).isSome = true ↔
      ¬ ∀ p ∈ defining a.statements, p.label ≠ l.operand := by
    rw [h.lookup_eq, Option.isSome_map, ← firstDefinition?_eq_none_iff, Option.isSome_iff_ne_none]
  have hquiet : (l.operand = absent ∨ (Symbol.lookup a.symbols l.operand).isSome = true) ↔
      ¬ (l.operand ≠ absent ∧ ∀ p ∈ defining a.statements, p.label ≠ l.operand) := by
    rw [hdefined]
    tauto
  cases hoperation : l.operation with
  | instruction opcode =>
    simp only [Statement.undefined?, Line.undefinedUse?, hoperation]
    rw [if_congr hquiet rfl rfl, ite_not]
  | _ => simp [Statement.undefined?, Line.undefinedUse?, hoperation]

theorem Assembly.Made.undefined_eq {settings : Settings} {source : List Statement} {a : Assembly}
    (h : a.Made settings source) :
    Listing.undefined a.symbols a.statements = undefinedUses a.statements a.listing := by
  rw [Listing.undefined, ← (Listing.map_toPlaced h.listing).1, List.filterMap_map]
  exact List.filterMap_congr fun l _ => h.undefined?_eq l

/-! ## Results -/

/-- What a result diagnoses. -/
structure Assembly.Diagnoses (source : List Statement) (a : Assembly) : Prop where
  /-- the statements are those of the source -/
  statements : a.statements.map Placed.toStatement = source
  /-- the listing goes up to the first END statement -/
  listing : a.listing.map Line.toPlaced = Listing.upToEnd a.statements
  /-- labels defined again, then operands that no label defines, and nothing else -/
  diagnostics : a.diagnostics = duplicateLabels a.statements ++ undefinedUses a.statements a.listing
  /-- how the former are reported -/
  duplicate : ∀ d ∈ duplicateLabels a.statements, d.report.kind.name = utf8 "duplicate label"
  /-- how the latter are reported -/
  undefined : ∀ d ∈ undefinedUses a.statements a.listing,
    d.report.kind.name = utf8 "undefined symbol"

/-- The diagnostics of an assembly are exactly the labels defined again and the operands left
undefined. -/
theorem diagnoses_of_assemble {name : Bytes} {source : Input} {table : Opcode.Table}
    {choices : List Choice} {a : Assembly} (h : assemble name source (some table) choices = .ok a) :
    a.Diagnoses (Statement.ofLines table name source.read.lines) := by
  obtain ⟨settings, _, hmade⟩ := made_of_assemble h
  obtain ⟨counter, hplaces, hstatements, _⟩ := hmade.exists_places
  refine { statements := hstatements, listing := (Listing.map_toPlaced hmade.listing).1,
           diagnostics := ?_, duplicate := ?_, undefined := ?_ }
  · obtain ⟨_, first, _, hfirst, hsecond⟩ := eq_of_assemble_eq_ok h
    obtain ⟨_, _, hscope, _⟩ := eq_of_firstPass_eq_ok hfirst
    obtain ⟨lines, _, rfl, _⟩ := eq_of_secondPass_eq_ok hsecond
    show first.scope.duplicates.toList ++ _ = _
    rw [hscope]
    exact congrArg₂ _ hplaces.duplicates_eq (hscope ▸ hmade.undefined_eq)
  · intro d hd
    obtain ⟨_, _, rfl⟩ := List.mem_map.mp hd
    rfl
  · intro d hd
    obtain ⟨l, _, hl⟩ := List.mem_filterMap.mp hd
    unfold Line.undefinedUse? at hl
    split at hl
    · split at hl
      · rw [← Option.some.inj hl]
        rfl
      · simp at hl
    · simp at hl

/-- A source that defines one label three times and another one again behind its END statement.  The
label of its first START statement is defined by a later statement only.  One undefined name is used
twice, another one behind the END statement. -/
def untidySource : Input := .ofBytes (utf8
  "P START 0\nA LDA P\nB LDA Z\nA LDA Z\nP RESB 1\nA LDA Q\nQ START 9\nEND\nB WORD 1\nR LDA W")

theorem diagnoses_of_assemble_untidySource :
    ∃ a, assemble [] untidySource (some loadTable) [] = .ok a ∧
      a.Diagnoses (Statement.ofLines loadTable [] untidySource.read.lines) ∧
      a.diagnostics = [⟨⟨[], 4⟩, .duplicateLabel (utf8 "A") ⟨[], 2⟩⟩,
        ⟨⟨[], 6⟩, .duplicateLabel (utf8 "A") ⟨[], 2⟩⟩,
        ⟨⟨[], 9⟩, .duplicateLabel (utf8 "B") ⟨[], 3⟩⟩, ⟨⟨[], 3⟩, .undefinedSymbol (utf8 "Z")⟩,
        ⟨⟨[], 4⟩, .undefinedSymbol (utf8 "Z")⟩] := by
  have ha := eq_ok_of_isOk (default : Assembly)
    (x := assemble [] untidySource (some loadTable) []) (by decide +kernel)
  refine ⟨_, ha, diagnoses_of_assemble ha, ?_⟩
  decide +kernel

end TwoPass
