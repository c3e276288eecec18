import TwoPass.Assembler
import TwoPass.Proofs.Outcome

set_option autoImplicit false

/-!
# What successful passes have done

The success of a pass says that each of its parts succeeded, and which value it handed on.
-/

namespace TwoPass

/-- A successful first pass has read all of the source and placed all of its statements. -/
theorem eq_of_firstPass_eq_ok {settings : Settings} {table : Opcode.Table} {name : Bytes}
    {source : Input} {first : Intermediate} (h : firstPass settings table name source = .ok first) :
    Layout.ofStatements (Statement.ofLines table name source.read.lines) = .ok first.layout ∧
      source.read.fault = none ∧ first.scope = Scope.ofStatements first.layout.statements ∧
      settings.accept first.scope.duplicates.toList = .ok () := by
  simp only [firstPass] at h
  split at h
  · simp at h
  · rename_i layout hlayout
    split at h
    · simp at h
    · rename_i hfault
      split at h
      · simp at h
      · rename_i haccept
        rw [← Except.ok.inj h]
        exact ⟨hlayout, hfault, rfl, haccept⟩

/-- A successful second pass has given code to every line of the listing. -/
theorem eq_of_secondPass_eq_ok {settings : Settings} {first : Intermediate} {a : Assembly}
    (h : secondPass settings first = .ok a) :
    ∃ lines, Listing.ofStatements first.scope.symbols first.layout.statements = .ok lines ∧
      a = first.complete settings.textLimit.val lines
        (Listing.undefined first.scope.symbols first.layout.statements) ∧
      settings.accept a.diagnostics = .ok () := by
  simp only [secondPass] at h
  split at h
  · simp at h
  · rename_i lines hlines
    split at h
    · simp at h
    · rename_i haccept
      have ha := Except.ok.inj h
      exact ⟨lines, hlines, ha.symm, by rw [← ha]; exact haccept⟩

/-- The second pass over a program that is listed looks at its diagnostics and is done. -/
theorem secondPass_of_listing {first : Intermediate} {lines : List Line}
    (h : Listing.ofStatements first.scope.symbols first.layout.statements = .ok lines)
    (settings : Settings) :
    secondPass settings first =
      let a := first.complete settings.textLimit.val lines
        (Listing.undefined first.scope.symbols first.layout.statements)
      (settings.accept a.diagnostics).map fun _ => a := by
  simp only [secondPass, h]
  cases settings.accept _ <;> rfl

/-- Assembly is valid settings and both passes. -/
theorem assemble_eq_ok_iff {name : Bytes} {source : Input} {table : Opcode.Table}
    {choices : List Choice} {a : Assembly} :
    assemble name source (some table) choices = .ok a ↔
      ∃ settings first, Settings.ofChoices choices = .ok settings ∧
        firstPass settings table name source = .ok first ∧ secondPass settings first = .ok a := by
  have hassemble : assemble name source (some table) choices =
      (Settings.ofChoices choices >>= fun settings =>
        firstPass settings table name source >>= fun first => secondPass settings first) := rfl
  simp only [hassemble, bind_eq_ok_iff, exists_and_left]

theorem eq_of_assemble_eq_ok {name : Bytes} {source : Input} {table : Opcode.Table}
    {choices : List Choice} {a : Assembly} (h : assemble name source (some table) choices = .ok a) :
    ∃ settings first, Settings.ofChoices choices = .ok settings ∧
      firstPass settings table name source = .ok first ∧ secondPass settings first = .ok a :=
  assemble_eq_ok_iff.mp h

/-- How the parts of a result are made, from the statements of its source on. -/
structure Assembly.Made (settings : Settings) (source : List Statement) (a : Assembly) : Prop where
  /-- the statements are placed by the location counter, which gives the start and the length -/
  layout : ∃ counter : Counter, Layout.ofStatements source = .ok ⟨a.statements, counter⟩ ∧
    a.start = counter.start ∧ a.length = counter.location - counter.start
  /-- the statements are listed with their code -/
  listing : Listing.ofStatements a.symbols a.statements = .ok a.listing
  /-- the symbols are those that the statements define -/
  symbols : a.symbols = (Scope.ofStatements a.statements).symbols
  /-- the program is named by its first START statement -/
  name : a.name = programName a.statements
  /-- the object program holds the code of the listing -/
  program : a.program =
    ⟨⟨a.name, a.start, a.length⟩, Listing.records settings.textLimit.val a.listing, a.start⟩

theorem made_of_assemble {name : Bytes} {source : Input} {table : Opcode.Table}
    {choices : List Choice} {a : Assembly} (h : assemble name source (some table) choices = .ok a) :
    ∃ settings, Settings.ofChoices choices = .ok settings ∧
      a.Made settings (Statement.ofLines table name source.read.lines) := by
  obtain ⟨settings, first, hsettings, hfirst, hsecond⟩ := eq_of_assemble_eq_ok h
  obtain ⟨hlayout, _, hscope, _⟩ := eq_of_firstPass_eq_ok hfirst
  obtain ⟨lines, hlines, rfl, _⟩ := eq_of_secondPass_eq_ok hsecond
  have hsymbols : first.scope.symbols = (Scope.ofStatements first.layout.statements).symbols := by
    rw [hscope]
  exact ⟨settings, hsettings, ⟨first.layout.counter, hlayout, rfl, rfl⟩, hlines, hsymbols, rfl, rfl⟩

/-- A table with one instruction. -/
def loadTable : Opcode.Table := .ofLines [utf8 "LDA 0a"]

end TwoPass
