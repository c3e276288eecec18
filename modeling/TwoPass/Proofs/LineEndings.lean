import TwoPass.Object.Reader
import TwoPass.Proofs.Assembly.Passes
import TwoPass.Proofs.Text.Pieces

set_option autoImplicit false

/-!
# Line endings

A line may end in a line feed, or in a carriage return and a line feed.  The line buffer drops one
carriage return, so what a reader is given still depends on how many there were.  But no reader
looks at those that are left at the end of a line: a source and an opcode table are read by words,
and an object program by lines without them.  So two inputs whose lines agree but for carriage
returns at their ends have the same outcome everywhere, and putting one before every line feed makes
such an input, as long as the lines still fit the line buffer.
-/

namespace TwoPass

/-! ## Texts -/

/-- A text with a carriage return put before every line feed. -/
def withReturns (text : Bytes) : Bytes :=
  text.flatMap fun b => if b = Ascii.newline then [Ascii.carriageReturn, Ascii.newline] else [b]

theorem withReturns_newline_cons (rest : Bytes) :
    withReturns (Ascii.newline :: rest) =
      Ascii.carriageReturn :: Ascii.newline :: withReturns rest := by
  simp [withReturns]

theorem withReturns_cons_of_ne {b : UInt8} (h : b ≠ Ascii.newline) (rest : Bytes) :
    withReturns (b :: rest) = b :: withReturns rest := by
  simp [withReturns, h]

/-- Every part that a line feed ends gets a carriage return behind it, and the part after the last
one none. -/
theorem exists_splitOn_withReturns (text : Bytes) :
    ∃ ended last, text.splitOn Ascii.newline = ended ++ [last] ∧
      (withReturns text).splitOn Ascii.newline =
        ended.map (· ++ [Ascii.carriageReturn]) ++ [last] := by
  induction text with
  | nil => exact ⟨[], [], rfl, rfl⟩
  | cons b rest ih =>
    obtain ⟨ended, last, hrest, hreturns⟩ := ih
    by_cases hb : b = Ascii.newline
    · subst hb
      have hreturn : Ascii.newline ∉ [Ascii.carriageReturn] := by decide
      refine ⟨[] :: ended, last, ?_, ?_⟩
      · rw [List.splitOn_cons_eq_if_modifyHead, hrest]
        simp
      · have hsplit := List.splitOn_append_cons_self_of_not_mem hreturn (withReturns rest)
        rw [hreturns] at hsplit
        rw [withReturns_newline_cons]
        exact hsplit
    · -- the byte goes in front of the first part, which is the last one if there is no line feed
      have hcons : ∀ tail : Bytes, (b :: tail).splitOn Ascii.newline =
          (tail.splitOn Ascii.newline).modifyHead (List.cons b) := by
        intro tail
        simp [List.splitOn_cons_eq_if_modifyHead, hb]
      rw [withReturns_cons_of_ne hb, hcons, hcons, hrest, hreturns]
      cases ended with
      | nil => exact ⟨[], b :: last, rfl, rfl⟩
      | cons first ended => exact ⟨(b :: first) :: ended, last, rfl, rfl⟩

/-- What follows the last line feed is a line if it is not empty. -/
theorem rawLines_of_splitOn {text last : Bytes} {ended : List Bytes}
    (h : text.splitOn Ascii.newline = ended ++ [last]) :
    rawLines text = ended ++ if last = [] then [] else [last] := by
  simp only [rawLines, h]
  by_cases hlast : last = [] <;> simp [hlast]

/-- The lines that a line feed ends get a carriage return each.  A rest without a line feed stays as
it is. -/
theorem exists_rawLines_withReturns (text : Bytes) :
    ∃ ended rest, rawLines text = ended ++ rest ∧
      rawLines (withReturns text) = ended.map (· ++ [Ascii.carriageReturn]) ++ rest := by
  obtain ⟨ended, last, hsplit, hreturns⟩ := exists_splitOn_withReturns text
  exact ⟨ended, _, rawLines_of_splitOn hsplit, rawLines_of_splitOn hreturns⟩

/-! ## Readings -/

/-- Readings that are the same but for carriage returns at the ends of lines. -/
structure Reading.SameButReturns (a b : Reading) : Prop where
  /-- without the carriage returns at their ends, the lines are the same -/
  lines : a.lines.map (dropTrailing Ascii.carriageReturn) =
    b.lines.map (dropTrailing Ascii.carriageReturn)
  /-- the fault after them is the same -/
  fault : a.fault = b.fault

/-- An input with a carriage return put before every line feed. -/
def Input.withReturns (input : Input) : Input :=
  { input with text := TwoPass.withReturns input.text }

/-- If there is room for one more byte on every line, an input with carriage returns is read as
before but for these. -/
theorem Input.sameButReturns_withReturns {input : Input}
    (h : ∀ line ∈ rawLines input.text, line.length + 1 < lineLimit) :
    input.withReturns.read.SameButReturns input.read := by
  obtain ⟨ended, rest, hlines, hreturns⟩ := exists_rawLines_withReturns input.text
  have hbefore : ∀ line ∈ rawLines input.text, line.length < lineLimit := by
    intro line hline
    have hroom := h line hline
    omega
  have hafter : ∀ line ∈ rawLines input.withReturns.text, line.length < lineLimit := by
    intro line hline
    rw [Input.withReturns, hreturns, List.mem_append, List.mem_map] at hline
    rcases hline with ⟨line, hline, rfl⟩ | hline
    · rw [List.length_append]
      exact h line (by simp [hlines, hline])
    · exact hbefore line (by simp [hlines, hline])
  -- of several carriage returns at the end of a line the line buffer drops one, and trimming the
  -- others
  have htrimmed : ∀ lines : List Bytes,
      (lines.map dropReturn).map (dropTrailing Ascii.carriageReturn) =
        lines.map (dropTrailing Ascii.carriageReturn) := by
    intro lines
    simp only [List.map_map, Function.comp_def, dropTrailing_dropReturn]
  rw [Input.read_of_fits hbefore, Input.read_of_fits hafter]
  refine ⟨?_, rfl⟩
  rw [htrimmed, htrimmed, Input.withReturns, hreturns, hlines, List.map_append, List.map_append,
    List.map_map]
  congr 1
  exact List.map_congr_left fun line _ => dropTrailing_append_replicate Ascii.carriageReturn line 1

/-! ## Readers -/

theorem Statement.ofLines_trimmed (table : Opcode.Table) (source : Bytes) (lines : List Bytes) :
    ofLines table source (lines.map (dropTrailing Ascii.carriageReturn)) =
      ofLines table source lines := by
  rw [ofLines, ofLines, List.zipIdx_map, List.filterMap_map]
  refine List.filterMap_congr fun numbered _ => ?_
  simp only [Function.comp_apply, Prod.map_fst, Prod.map_snd, id_eq, ofLine?,
    words_dropTrailing_return]

theorem Opcode.Table.ofLines_trimmed (lines : List Bytes) :
    ofLines (lines.map (dropTrailing Ascii.carriageReturn)) = ofLines lines := by
  rw [ofLines, ofLines, List.foldl_map]
  congr 1
  funext table line
  simp only [addLine, entry?, words_dropTrailing_return]

theorem Object.Progress.addLine_trimmed (progress : Progress) (line : Bytes) (number : Nat) :
    progress.addLine (dropTrailing Ascii.carriageReturn line, number) =
      progress.addLine (line, number) := by
  have htwice : dropTrailing Ascii.carriageReturn (dropTrailing Ascii.carriageReturn line) =
      dropTrailing Ascii.carriageReturn line :=
        dropTrailing_of_getLast?_ne (getLast?_dropTrailing_ne _ _)
  simp only [addLine, htwice]

theorem Object.foldlM_addLine_trimmed (lines : List Bytes) (number : Nat) (progress : Progress) :
    ((lines.map (dropTrailing Ascii.carriageReturn)).zipIdx number).foldlM Progress.addLine
    progress =
      (lines.zipIdx number).foldlM Progress.addLine progress := by
  rw [List.zipIdx_map, List.foldlM_map]
  congr 1
  funext progress numbered
  exact Progress.addLine_trimmed progress numbered.1 numbered.2

section Outcomes

variable {a b : Input} (h : a.read.SameButReturns b.read)
include h

/-- The first pass makes the same statements of both, on the same lines, so it places or refuses the
same ones. -/
theorem firstPass_eq_of_sameButReturns (settings : Settings) (table : Opcode.Table) (name : Bytes) :
    firstPass settings table name a = firstPass settings table name b := by
  have hstatements : Statement.ofLines table name a.read.lines =
      Statement.ofLines table name b.read.lines := by
    rw [← Statement.ofLines_trimmed, h.lines, Statement.ofLines_trimmed]
  simp only [firstPass, hstatements, h.fault]

theorem assemble_eq_of_sameButReturns (name : Bytes) (table : Option Opcode.Table)
    (choices : List Choice) :
    assemble name a table choices = assemble name b table choices := by
  cases table with
  | none => rfl
  | some table => simp only [assemble, firstPass_eq_of_sameButReturns h]

theorem Opcode.Table.read_eq_of_sameButReturns : Opcode.Table.read a = Opcode.Table.read b := by
  have htable : ofLines a.read.lines = ofLines b.read.lines := by
    rw [← ofLines_trimmed, h.lines, ofLines_trimmed]
  simp only [read, load, htable, h.fault]

theorem Object.Program.read_eq_of_sameButReturns :
    Object.Program.read a = Object.Program.read b := by
  have hprogress : (a.read.lines.zipIdx 1).foldlM Progress.addLine .empty =
      (b.read.lines.zipIdx 1).foldlM Progress.addLine .empty := by
    rw [← foldlM_addLine_trimmed, h.lines, foldlM_addLine_trimmed]
  simp only [read, hprogress, h.fault]

end Outcomes

/-- It does not matter how lines end.  With a carriage return before every line feed, a text whose
lines leave room for one more byte is assembled to the same result or failure as a source, gives the
same opcode table or fault, and is read as the same object program or refused for the same reason on
the same line. -/
theorem outcomes_withReturns (input : Input)
    (h : ∀ line ∈ rawLines input.text, line.length + 1 < lineLimit) :
    (∀ name table choices, assemble name input.withReturns table choices =
      assemble name input table choices) ∧
      Opcode.Table.read input.withReturns = Opcode.Table.read input ∧
      Object.Program.read input.withReturns = Object.Program.read input := by
  have hsame := Input.sameButReturns_withReturns h
  exact ⟨assemble_eq_of_sameButReturns hsame, Opcode.Table.read_eq_of_sameButReturns hsame,
    Object.Program.read_eq_of_sameButReturns hsame⟩

/-- A source with none, one and two carriage returns before a line feed, some inside a line, and one
behind the last word, where no line feed follows. -/
def strayReturnsSource : Input :=
  .ofBytes (utf8 "P START 10\r\r\n\r\nA\rLDA\r B\n. A\r\nB WORD 7\n\rEND\r")

/-- Such an opcode table. -/
def strayReturnsTable : Input := .ofBytes (utf8 "LDA 03\r\nSTA\r0C\r\r\nLDA\n\nLDA 00\r")

/-- Such an object program.  A carriage return inside a line belongs to its field. -/
def strayReturnsText : Input := .ofBytes (utf8 "H^P\r^10^2\r\n\r\r\nT^10^2^ab\r^cd\nE^10\r\r")

theorem outcomes_withReturns_strayReturns :
    (∀ input ∈ [strayReturnsSource, strayReturnsTable, strayReturnsText],
      input.withReturns ≠ input ∧ ∀ line ∈ rawLines input.text, line.length + 1 < lineLimit) ∧
    (∃ a, assemble [] strayReturnsSource.withReturns (some loadTable) [] = .ok a ∧
      assemble [] strayReturnsSource (some loadTable) [] = .ok a ∧
      a.statements.map (fun p => p.position.line) = [1, 3, 5, 6]) ∧
    (∃ table, Opcode.Table.read strayReturnsTable.withReturns = .ok table ∧
      table.opcode? (utf8 "LDA") = some (utf8 "00") ∧
      table.opcode? (utf8 "STA") = some (utf8 "0C")) ∧
    Object.Program.read strayReturnsText.withReturns =
      .ok ⟨⟨utf8 "P\r", 0x10, 2⟩, [⟨0x10, [utf8 "ab\r", utf8 "cd"]⟩], 0x10⟩ := by
  have hfits : ∀ input ∈ [strayReturnsSource, strayReturnsTable, strayReturnsText],
      input.withReturns ≠ input ∧ ∀ line ∈ rawLines input.text, line.length + 1 < lineLimit := by
    decide +kernel
  have hsource :=
    (outcomes_withReturns strayReturnsSource (hfits _ (by simp)).2).1 [] (some loadTable) []
  have htable := (outcomes_withReturns strayReturnsTable (hfits _ (by simp)).2).2.1
  have htext := (outcomes_withReturns strayReturnsText (hfits _ (by simp)).2).2.2
  refine ⟨hfits, ⟨(assemble [] strayReturnsSource (some loadTable) []).toOption.getD default, ?_,
    ?_, ?_⟩, ⟨.ofLines strayReturnsTable.read.lines, ?_, ?_, ?_⟩, ?_⟩
  · rw [hsource]
    exact eq_ok_of_isOk default (by decide +kernel)
  · exact eq_ok_of_isOk default (by decide +kernel)
  · decide +kernel
  · rw [htable]
    rfl
  · decide +kernel
  · decide +kernel
  · rw [htext]
    decide +kernel

end TwoPass
