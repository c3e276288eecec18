import TwoPass.Proofs.Object.Grammar
import TwoPass.Proofs.Text.Pieces

set_option autoImplicit false

/-!
# Written programs are normal forms

A text that is read may spell its numbers in many ways, hold blank lines and carriage returns, and
give the program a name of any length.  Writing the program settles all of that.  What was read from
lines can be told apart again, so the written text is read, and the only thing that writing changes
is the name, which the name field cuts.  Cutting it once more changes nothing: the field counts
characters where the cut counts bytes, but the spaces that reading drops are one byte and one
character each.
-/

namespace TwoPass.Object

/-! ## The name field -/

/-- A space is a character of one byte. -/
theorem length_pieces_append_spaces (text : Bytes) (count : Nat) :
    (pieces (text ++ List.replicate count Ascii.space)).length = (pieces text).length + count := by
  have hspace : Ascii.space < 0x80 := by decide
  have hspaces : (pieces (List.replicate count Ascii.space)).length = count := by
    induction count with
    | zero => rfl
    | succ count ih => rw [List.replicate_succ, pieces_cons_of_ascii hspace, List.length_cons, ih]
  cases count with
  | zero => simp
  | succ count =>
    rw [List.replicate_succ] at hspaces ⊢
    rw [pieces_append_cons_of_ascii hspace, List.length_append, hspaces]

/-- A name that was cut to the width of its field and lost the spaces at its end fills the field as
before. -/
theorem Header.nameField_reread (h : Header) : h.reread.nameField = h.nameField := by
  obtain ⟨count, hcut⟩ := exists_eq_dropTrailing_append Ascii.space (h.name.take nameWidth)
  have hwidth : (h.name.take nameWidth).length ≤ nameWidth := List.length_take_le _ _
  have hpieces := length_pieces_le (h.name.take nameWidth)
  generalize hkept : dropTrailing Ascii.space (h.name.take nameWidth) = kept at hcut
  -- what is kept is no longer than what was cut, so a second cut takes nothing
  have hname : h.reread.name.take nameWidth = kept := by
    have hlength : (h.name.take nameWidth).length = kept.length + count := by rw [hcut]; simp
    have hreread : h.reread.name = kept := hkept
    rw [hreread]
    exact List.take_of_length_le (by omega)
  rw [Header.nameField, Header.nameField, hname, hcut, length_pieces_append_spaces,
    List.append_assoc, ← List.replicate_add]
  rw [hcut, length_pieces_append_spaces] at hpieces
  have hfill : count + (nameWidth - ((pieces kept).length + count)) =
      nameWidth - (pieces kept).length := by
    rw [hcut] at hwidth
    omega
  rw [hfill]

theorem Program.render_reread (p : Program) : p.reread.render = p.render := by
  have hheader : p.reread.header.record = p.header.record := by
    simp only [Program.reread, Header.record, Header.nameField_reread]
    rfl
  simp only [Program.render, Program.chunks, Program.records, hheader]
  rfl

/-! ## What was read can be told apart -/

theorem mem_of_mem_splitOn {b c : UInt8} {text part : Bytes} (hpart : part ∈ text.splitOn b)
    (hc : c ∈ part) :
    c ∈ text := (forall_mem_splitOnP (· == b) text part hpart c hc).2

/-- The last field of a line is its end. -/
theorem suffix_of_splitOn {b : UInt8} {text last : Bytes} {front : List Bytes}
    (h : text.splitOn b = front ++ [last]) : last <:+ text := by
  have hjoined : [b].intercalate (front ++ [last]) = text := by rw [← h, List.intercalate_splitOn]
  rw [← hjoined]
  clear hjoined h
  induction front with
  | nil => simp
  | cons field front ih =>
    rw [List.cons_append, List.intercalate_cons_of_ne_nil (by simp)]
    exact ih.trans (List.suffix_append _ _)

/-- A Text record that stands on a line can be told apart again. -/
theorem Text.SpelledBy.legible {t : Text} {line : Bytes} (h : t.SpelledBy line)
    (hnewline : Ascii.newline ∉ line) (hreturn : line.getLast? ≠ some Ascii.carriageReturn) :
    t.Legible := by
  obtain ⟨start, size, stated, hfields, hcodes, _⟩ := h
  have hfield : ∀ code ∈ t.codes, code ∈ line.splitOn Ascii.circumflex := by
    intro code hcode
    rw [hfields]
    simp [hcode]
  refine { nonempty := hcodes, circumflex := ?_, newline := ?_, carriageReturn := ?_ }
  · exact fun code hcode => not_mem_of_mem_splitOn (hfield code hcode)
  · exact fun code hcode hmem => hnewline (mem_of_mem_splitOn (hfield code hcode) hmem)
  · intro code hlast hend
    obtain ⟨front, hfront⟩ := List.getLast?_eq_some_iff.mp hlast
    rw [hfront, ← List.cons_append, ← List.cons_append, ← List.cons_append] at hfields
    obtain ⟨before, rfl⟩ := suffix_of_splitOn hfields
    have hcode : code ≠ [] := by
      rintro rfl
      simp at hend
    exact hreturn ((List.getLast?_append_of_ne_nil before hcode).trans hend)

/-- All Text records that stand on lines can be told apart again. -/
theorem legible_of_forall₂ {texts : List Text} {lines : List Bytes}
    (h : List.Forall₂ Text.SpelledBy texts lines)
    (hends : ∀ line ∈ lines, Ascii.newline ∉ line ∧ line.getLast? ≠ some Ascii.carriageReturn) :
    ∀ t ∈ texts, t.Legible := by
  induction h with
  | nil => simp
  | cons hspelled _ ih =>
    obtain ⟨⟨hnewline, hreturn⟩, hrest⟩ := List.forall_mem_cons.mp hends
    exact List.forall_mem_cons.mpr ⟨hspelled.legible hnewline hreturn, ih hrest⟩

/-- The lines on which records stand hold no line feed and do not end in a carriage return. -/
theorem ends_of_mem_recordLines {text line : Bytes} (h : line ∈ recordLines (rawLines text)) :
    Ascii.newline ∉ line ∧ line.getLast? ≠ some Ascii.carriageReturn := by
  obtain ⟨raw, hraw, rfl⟩ := List.mem_map.mp (List.mem_of_mem_filter h)
  refine ⟨?_, getLast?_dropTrailing_ne _ _⟩
  have hcut : raw ∈ text.splitOn Ascii.newline := by
    unfold rawLines at hraw
    dsimp only at hraw
    split at hraw
    · exact List.dropLast_subset _ hraw
    · exact hraw
  exact fun hmem => not_mem_of_mem_splitOn hcut (mem_of_mem_dropTrailing hmem)

/-- The records of a program that was read can be told apart once they are written, if they fit. -/
theorem Program.legible_of_read {input : Input} {p : Program} (h : Program.read input = .ok p)
    (hfits : ∀ line ∈ rawLines p.render, line.length < lineLimit) : p.Legible := by
  obtain ⟨first, middle, last, hlines, ⟨name, start, length, hfields, hname, _⟩, htexts, _⟩ :=
    Program.spelledBy_of_read h
  have hends : ∀ line ∈ first :: middle ++ [last],
      Ascii.newline ∉ line ∧ line.getLast? ≠ some Ascii.carriageReturn := by
    rw [← hlines]
    exact fun line => ends_of_mem_recordLines
  have hfield : name ∈ first.splitOn Ascii.circumflex := by
    rw [hfields]
    simp
  have hkept : ∀ b ∈ p.header.name.take nameWidth, b ∈ name := by
    intro b hb
    rw [hname] at hb
    exact mem_of_mem_dropTrailing (List.mem_of_mem_take hb)
  have htext : ∀ t ∈ p.text, t.Legible :=
    legible_of_forall₂ htexts fun line hline => hends line (by simp [hline])
  have hnewline : Ascii.newline ∉ p.header.name.take nameWidth := fun hmem =>
    (hends first (by simp)).1 (mem_of_mem_splitOn hfield (hkept _ hmem))
  refine { circumflex := ?_, newline := hnewline, text := htext, fits := ?_ }
  · exact fun hmem => not_mem_of_mem_splitOn hfield (hkept _ hmem)
  · have hrecords := Program.newline_not_mem_records hnewline fun t ht => (htext t ht).newline
    rwa [Program.render_eq_terminated, rawLines_terminated hrecords] at hfits

/-! ## Normal forms -/

/-- A program that was read is written as a text that is read as the same program, but for a name
cut to the width of its field and without the spaces at its end; and that program is written as the
same text. -/
theorem Program.read_render_of_read {input : Input} {p : Program} (h : Program.read input = .ok p)
    (hfits : ∀ line ∈ rawLines p.render, line.length < lineLimit) :
    Program.read (.ofBytes p.render) = .ok p.reread ∧ p.reread.render = p.render :=
  ⟨Program.read_render_of_legible (Program.legible_of_read h hfits), p.render_reread⟩

/-- A text with blank lines, carriage returns, numbers in few and in many digits of either case, and
a name whose sixth byte is inside a character. -/
def looseText : Input :=
  .ofBytes (utf8 "\nH^ABé éz ^a^0000000010\r\r\n \t\nT^0b^02^f\r^1Z^\r\nE^A")

theorem Program.read_render_of_read_looseText :
    ∃ p, Program.read looseText = .ok p ∧ (∀ line ∈ rawLines p.render, line.length < lineLimit) ∧
      p = ⟨⟨utf8 "ABé éz", 0xA, 0x10⟩, [⟨0xB, [utf8 "f\r", utf8 "1Z", []]⟩], 0xA⟩ ∧
      p.reread.header.name = utf8 "ABé " ++ [0xC3] ∧
      Program.read (.ofBytes p.render) = .ok p.reread ∧ p.reread.render = p.render := by
  have hread : Program.read looseText =
      .ok ⟨⟨utf8 "ABé éz", 0xA, 0x10⟩, [⟨0xB, [utf8 "f\r", utf8 "1Z", []]⟩], 0xA⟩ := by
    decide +kernel
  have hfits : ∀ line ∈ rawLines (Program.render
      ⟨⟨utf8 "ABé éz", 0xA, 0x10⟩, [⟨0xB, [utf8 "f\r", utf8 "1Z", []]⟩], 0xA⟩),
      line.length < lineLimit := by
    decide +kernel
  exact ⟨_, hread, hfits, rfl, by decide, Program.read_render_of_read hread hfits⟩

end TwoPass.Object
