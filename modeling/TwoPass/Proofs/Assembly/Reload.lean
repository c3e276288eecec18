import TwoPass.Proofs.Assembly.Code
import TwoPass.Proofs.Assembly.LocationCounter
import TwoPass.Proofs.Assembly.Records
import TwoPass.Proofs.Object.RoundTrip
import TwoPass.Proofs.Source.Fields

set_option autoImplicit false

/-!
# When a written object program can be read again

The name of the program and the opcodes are taken over from texts as they stand.  They are words of
those texts, so they hold nothing that ends a line or that the name field drops; all that can come
between the object program and its reader is a circumflex, and a line that does not fit the line
buffer.
-/

namespace TwoPass

open Object (Program nameWidth)

namespace Assembly.Made

variable {settings : Settings} {table : Opcode.Table} {name : Bytes} {lines : List Bytes}
  {a : Assembly}

/-- The name is a label, or empty. -/
theorem isPlain_name (h : a.Made settings (Statement.ofLines table name lines)) :
    IsPlain a.name := by
  rw [h.name, programName]
  split
  · exact isPlain_of_isHexDigit (by simp)
  · rename_i p hfind
    split
    · exact isPlain_of_isHexDigit (by simp)
    · exact Statement.isPlain_label (h.mem_source (List.mem_of_find?_eq_some hfind))

/-- Code is plain if the opcodes of the table are. -/
theorem isPlain_code (h : a.Made settings (Statement.ofLines table name lines))
    (htable : ∀ mnemonic opcode, table.opcode? mnemonic = some opcode → IsPlain opcode) :
    ∀ l ∈ a.listing, IsPlain l.code := by
  intro l hl
  obtain ⟨hmem, hcode⟩ := h.mem_statements hl
  refine Statement.isPlain_code hcode ?_
  intro opcode hoperation
  exact htable _ opcode (Statement.opcode?_mnemonic (h.mem_source hmem) hoperation)

end Assembly.Made

/-- A program with its name cut to the width of the name field. -/
def Object.Program.cutName (p : Program) : Program :=
  { p with header := { p.header with name := p.header.name.take nameWidth } }

/-- A plain name loses no more than what is cut off. -/
theorem Object.Program.reread_of_isPlain {p : Program} (h : IsPlain p.header.name) :
    p.reread = p.cutName := by
  have hspace : (p.header.name.take nameWidth).getLast? ≠ some Ascii.space := by
    intro hlast
    exact h.2.2 (List.mem_of_mem_take (List.mem_of_getLast? hlast))
  rw [Program.reread, Object.Header.reread, dropTrailing_of_getLast?_ne hspace, Program.cutName]

/-- A result whose names and codes are plain makes a legible program, if there is no circumflex and
its records fit. -/
theorem Assembly.Made.legible {settings : Settings} {source : List Statement} {a : Assembly}
    (h : a.Made settings source) (hname : IsPlain a.name) (hplain : ∀ l ∈ a.listing, IsPlain l.code)
    (hcircumflex : Ascii.circumflex ∉ a.name.take nameWidth)
    (hcodes : ∀ l ∈ a.listing, Ascii.circumflex ∉ l.code)
    (hfits : ∀ record ∈ a.program.records, record.length < lineLimit) : a.program.Legible := by
  have hheader : a.program.header.name = a.name := by rw [h.program]
  have hlisted : ∀ t ∈ a.program.text, ∀ code ∈ t.codes,
      IsPlain code ∧ Ascii.circumflex ∉ code := by
    intro t ht code hcode
    obtain ⟨_, l, hl, rfl⟩ := h.mem_codes_iff.mp ⟨t, ht, hcode⟩
    exact ⟨hplain l hl, hcodes l hl⟩
  refine { circumflex := ?_, newline := ?_, text := ?_, fits := hfits }
  · rw [hheader]
    exact hcircumflex
  · rw [hheader]
    exact fun hmem => hname.1 (List.mem_of_mem_take hmem)
  · intro t ht
    refine
      { nonempty := ?_
        circumflex := fun code hcode => (hlisted t ht code hcode).2
        newline := fun code hcode => (hlisted t ht code hcode).1.1
        carriageReturn := ?_ }
    · rw [h.program] at ht
      exact Listing.codes_ne_nil_of_mem_records ht
    · intro code hlast hreturn
      have hcode := hlisted t ht code (List.mem_of_getLast? hlast)
      exact hcode.1.2.1 (List.mem_of_getLast? hreturn)

/-- The object program of a result is read back, its name cut to the width of the name field, just
if neither that name nor any code holds a circumflex and every record fits the line buffer. -/
theorem read_render_assemble_iff {entries : Input} {table : Opcode.Table} {name : Bytes}
    {source : Input} {choices : List Choice} {a : Assembly}
    (htable : Opcode.Table.read entries = .ok table)
    (h : assemble name source (some table) choices = .ok a) :
    Program.read (.ofBytes (a.render .object)) = .ok a.program.cutName ↔
      Ascii.circumflex ∉ a.name.take nameWidth ∧
      (∀ l ∈ a.listing, Ascii.circumflex ∉ l.code) ∧
      ∀ record ∈ a.program.records, record.length < lineLimit := by
  obtain ⟨settings, _, hmade⟩ := made_of_assemble h
  have hname : IsPlain a.name := hmade.isPlain_name
  have hplain : ∀ l ∈ a.listing, IsPlain l.code :=
    hmade.isPlain_code fun _ _ hopcode => Opcode.Table.isPlain_opcode htable hopcode
  have hheader : a.program.header.name = a.name := by rw [hmade.program]
  have hrender : a.render .object = a.program.render := rfl
  rw [hrender]
  constructor
  · intro hread
    obtain ⟨hfree, hcodes⟩ := Program.freeOfCircumflex_of_read hread
    have hnewline : ∀ record ∈ a.program.records, Ascii.newline ∉ record := by
      refine Program.newline_not_mem_records ?_ ?_
      · rw [hheader]
        exact fun hmem => hname.1 (List.mem_of_mem_take hmem)
      · intro t ht code hcode
        obtain ⟨_, l, hl, rfl⟩ := hmade.mem_codes_iff.mp ⟨t, ht, hcode⟩
        exact (hplain l hl).1
    refine ⟨?_, ?_, length_lt_of_read_terminated hnewline (Program.eq_of_read_eq_ok hread).1⟩
    · rw [← hheader]
      exact hfree
    · intro l hl hmem
      -- A line without code is in no record, but then it holds no circumflex either.
      have hcode : l.code ≠ [] := List.ne_nil_of_mem hmem
      obtain ⟨t, ht, hcode⟩ := hmade.mem_codes_iff.mpr ⟨hcode, l, hl, rfl⟩
      exact hcodes t ht l.code hcode hmem
  · rintro ⟨hcircumflex, hcodes, hfits⟩
    have hlegible := hmade.legible hname hplain hcircumflex hcodes hfits
    rw [← hheader] at hname
    rw [Program.read_render_of_legible hlegible, Program.reread_of_isPlain hname]

/-- Opcodes that are not digits, one of them with a circumflex. -/
def oddOpcodes : List Bytes := [utf8 "LDA 0^", utf8 "STA zz9"]

/-- A source whose name field ends inside a character, before a circumflex, and whose only use of
the opcode with a circumflex stands behind the END statement. -/
def cutNameSource : Input := .ofBytes (utf8
  "PROGRé^ START 10\nA STA B\nB BYTE C'^'\nC RESW 2\nD WORD -1\nEND A\nE LDA E")

/-- A source with a circumflex in its code. -/
def circumflexSource : Input := .ofBytes (utf8 "P START 0\nA LDA A")

theorem read_render_assemble_iff_oddOpcodes :
    ∃ table a b, Opcode.Table.read (.ofBytes (terminated oddOpcodes)) = .ok table ∧
      assemble [] cutNameSource (some table) [.textLimit 4] = .ok a ∧
      Program.read (.ofBytes (a.render .object)) = .ok a.program.cutName ∧
      assemble [] circumflexSource (some table) [] = .ok b ∧
      Program.read (.ofBytes (b.render .object)) ≠ .ok b.program.cutName := by
  have htable : Opcode.Table.read (.ofBytes (terminated oddOpcodes)) = .ok (.ofLines oddOpcodes) :=
    rfl
  have ha := eq_ok_of_isOk (default : Assembly)
    (x := assemble [] cutNameSource (some (.ofLines oddOpcodes)) [.textLimit 4]) (by decide +kernel)
  have hb := eq_ok_of_isOk (default : Assembly)
    (x := assemble [] circumflexSource (some (.ofLines oddOpcodes)) []) (by decide +kernel)
  refine ⟨.ofLines oddOpcodes, _, _, htable, ha, ?_, hb, ?_⟩
  · exact (read_render_assemble_iff htable ha).mpr (by decide +kernel)
  · intro hread
    exact absurd ((read_render_assemble_iff htable hb).mp hread) (by decide +kernel)

end TwoPass
