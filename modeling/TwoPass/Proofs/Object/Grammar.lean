import TwoPass.Proofs.Numeral.Values
import TwoPass.Proofs.Object.RoundTrip
import TwoPass.Proofs.Object.Runs

set_option autoImplicit false

/-!
# The grammar of object programs

The lines of a text that are not blank spell an object program if the first one is a Header record,
the last one an End record and all between them are Text records.  The reader knows only how far it
has come: nothing read, some records read, all read.  What one line can do to that progress is
settled once for each of the three states; reading a whole text is then an induction along its
lines, and what it accepts is the grammar.
-/

namespace TwoPass.Object

/-! ## Records -/

/-- A field that gives a number of 32 bits: hexadecimal digits of either case, one at least, with
any zeros in front. -/
def HexNumber (field : Bytes) (n : Address) : Prop :=
  Numeral.IsNumeral 16 field ∧ Numeral.value 16 field = n.toNat

/-- A Header record: its name loses the spaces at its end. -/
def Header.SpelledBy (h : Header) (line : Bytes) : Prop :=
  ∃ name start length, line.splitOn Ascii.circumflex = [utf8 "H", name, start, length] ∧
    h.name = dropTrailing Ascii.space name ∧ HexNumber start h.start ∧ HexNumber length h.length

/-- A Text record: its length is that of its codes, each rounded down to whole bytes. -/
def Text.SpelledBy (t : Text) (line : Bytes) : Prop :=
  ∃ start size stated, line.splitOn Ascii.circumflex = utf8 "T" :: start :: size :: t.codes ∧
    t.codes ≠ [] ∧
    HexNumber start t.start ∧ HexNumber size stated ∧
    stated.toNat = (t.codes.map fun code => code.length / 2).sum

/-- An End record. -/
def EntrySpelledBy (entry : Address) (line : Bytes) : Prop :=
  ∃ field, line.splitOn Ascii.circumflex = [utf8 "E", field] ∧ HexNumber field entry

/-- One Header record, any number of Text records, one End record. -/
def Program.SpelledBy (p : Program) (lines : List Bytes) : Prop :=
  ∃ first middle last, lines = first :: middle ++ [last] ∧ p.header.SpelledBy first ∧
    List.Forall₂ Text.SpelledBy p.text middle ∧ EntrySpelledBy p.entry last

theorem readNumber_eq_ok_iff {field : Field} {text : Bytes} {n : Address} :
    readNumber field text = .ok n ↔ HexNumber text n := by
  have hmax : Numeral.maxOfBits 32 = 2 ^ 32 - 1 := rfl
  unfold readNumber HexNumber
  cases hread : Numeral.unsigned 16 (Numeral.maxOfBits 32) text with
  | error fault =>
    simp only [reduceCtorEq, false_iff]
    rintro ⟨hnumeral, hvalue⟩
    have hlt := n.toNat_lt
    have hok :=
      Numeral.unsigned_eq_ok_iff.mpr ⟨hnumeral, hvalue, (by omega : n.toNat ≤ Numeral.maxOfBits 32)⟩
    rw [hread] at hok
    simp at hok
  | ok value =>
    obtain ⟨hnumeral, rfl, hle⟩ := Numeral.unsigned_eq_ok_iff.mp hread
    have hlt : Numeral.value 16 text < 2 ^ 32 := by omega
    simp only [Except.ok.injEq, hnumeral, true_and]
    constructor
    · rintro rfl
      exact (UInt32.toNat_ofNat_of_lt' hlt).symm
    · intro hvalue
      rw [hvalue, UInt32.ofNat_toNat]

/-- What reads as a Header record is four fields. -/
theorem readHeader_eq_ok_iff {fields : List Bytes} {h : Header} :
    readHeader fields = .ok h ↔ ∃ type name start length, fields = [type, name, start, length] ∧
      h.name = dropTrailing Ascii.space name ∧ HexNumber start h.start ∧
      HexNumber length h.length := by
  constructor
  · intro hread
    unfold readHeader at hread
    split at hread
    · rename_i type name start length
      obtain ⟨origin, horigin, hread⟩ := bind_eq_ok_iff.mp hread
      obtain ⟨bytes, hbytes, hread⟩ := bind_eq_ok_iff.mp hread
      obtain rfl := Except.ok.inj hread
      exact ⟨type, name, start, length, rfl, rfl, readNumber_eq_ok_iff.mp horigin,
        readNumber_eq_ok_iff.mp hbytes⟩
    · simp at hread
  · rintro ⟨type, name, start, length, rfl, hname, hstart, hlength⟩
    refine bind_eq_ok_iff.mpr ⟨h.start, readNumber_eq_ok_iff.mpr hstart, ?_⟩
    refine bind_eq_ok_iff.mpr ⟨h.length, readNumber_eq_ok_iff.mpr hlength, ?_⟩
    rw [← hname]
    rfl

/-- What reads as a Text record is an address, the size of its codes, and one code at least. -/
theorem readText_eq_ok_iff {fields : List Bytes} {t : Text} :
    readText fields = .ok t ↔ ∃ type start size stated, fields = type :: start :: size :: t.codes ∧
      t.codes ≠ [] ∧ HexNumber start t.start ∧ HexNumber size stated ∧
      stated.toNat = (t.codes.map fun code => code.length / 2).sum := by
  have hsum : ∀ u : Text, (u.codes.map fun code => code.length / 2).sum = u.size :=
    fun u => u.size_eq_sum.symm
  rw [hsum]
  constructor
  · intro hread
    obtain ⟨type, start, size, stated, rfl, hstart, hstated, hsize⟩ := eq_of_readText_eq_ok hread
    refine ⟨type, start, size, stated, rfl, ?_, readNumber_eq_ok_iff.mp hstart,
      readNumber_eq_ok_iff.mp hstated, hsize⟩
    intro hnone
    simp [readText, hnone] at hread
  · rintro ⟨type, start, size, stated, rfl, hcodes, hstart, hstated, hsize⟩
    obtain ⟨address, codes⟩ := t
    obtain ⟨code, codes, rfl⟩ := List.exists_cons_of_ne_nil hcodes
    refine bind_eq_ok_iff.mpr ⟨address, readNumber_eq_ok_iff.mpr hstart, ?_⟩
    refine bind_eq_ok_iff.mpr ⟨stated, readNumber_eq_ok_iff.mpr hstated, ?_⟩
    exact if_pos hsize

theorem readEnd_eq_ok_iff {fields : List Bytes} {entry : Address} :
    readEnd fields = .ok entry ↔ ∃ type field, fields = [type, field] ∧ HexNumber field entry := by
  unfold readEnd
  split
  · rename_i type field
    rw [readNumber_eq_ok_iff]
    constructor
    · exact fun h => ⟨type, field, rfl, h⟩
    · rintro ⟨_, _, hfields, h⟩
      simp only [List.cons.injEq, and_true] at hfields
      rw [hfields.2]
      exact h
  · rename_i hfields
    simp only [reduceCtorEq, false_iff]
    rintro ⟨type, field, rfl, _⟩
    exact hfields type field rfl

/-! ## One line -/

/-- The first field says which kind of record the other fields are read as. -/
theorem Header.spelledBy_iff {h : Header} {line : Bytes} :
    h.SpelledBy line ↔ (line.splitOn Ascii.circumflex).headD [] = utf8 "H" ∧
      readHeader (line.splitOn Ascii.circumflex) = .ok h := by
  rw [readHeader_eq_ok_iff]
  constructor
  · rintro ⟨name, start, length, hfields, h⟩
    exact ⟨by rw [hfields]; rfl, _, name, start, length, hfields, h⟩
  · rintro ⟨htype, type, name, start, length, hfields, h⟩
    obtain rfl : type = utf8 "H" := by rwa [hfields] at htype
    exact ⟨name, start, length, hfields, h⟩

theorem Text.spelledBy_iff {t : Text} {line : Bytes} :
    t.SpelledBy line ↔ (line.splitOn Ascii.circumflex).headD [] = utf8 "T" ∧
      readText (line.splitOn Ascii.circumflex) = .ok t := by
  rw [readText_eq_ok_iff]
  constructor
  · rintro ⟨start, size, stated, hfields, h⟩
    exact ⟨by rw [hfields]; rfl, _, start, size, stated, hfields, h⟩
  · rintro ⟨htype, type, start, size, stated, hfields, h⟩
    obtain rfl : type = utf8 "T" := by rwa [hfields] at htype
    exact ⟨start, size, stated, hfields, h⟩

theorem entrySpelledBy_iff {entry : Address} {line : Bytes} :
    EntrySpelledBy entry line ↔ (line.splitOn Ascii.circumflex).headD [] = utf8 "E" ∧
      readEnd (line.splitOn Ascii.circumflex) = .ok entry := by
  rw [readEnd_eq_ok_iff]
  constructor
  · rintro ⟨field, hfields, h⟩
    exact ⟨by rw [hfields]; rfl, _, field, hfields, h⟩
  · rintro ⟨htype, type, field, hfields, h⟩
    obtain rfl : type = utf8 "E" := by rwa [hfields] at htype
    exact ⟨field, hfields, h⟩

namespace Progress

/-- Where nothing has been read, a line has to be a Header record. -/
theorem add_empty_eq_ok_iff {line : Bytes} {next : Progress} :
    Progress.empty.add line = .ok next ↔ ∃ h : Header, h.SpelledBy line ∧ next = .begun h #[] := by
  simp only [Header.spelledBy_iff]
  by_cases htype : (line.splitOn Ascii.circumflex).headD [] = utf8 "H"
  · simp only [add, htype, beq_self_eq_true, if_true, true_and]
    refine map_eq_ok_iff.trans ?_
    simp only [eq_comm]
  · simp only [add, beq_iff_eq, htype, if_false, false_and, exists_false, iff_false]
    split
    · simp
    · split <;> simp

/-- Behind the Header record, a line has to be a Text record or the End record. -/
theorem add_begun_eq_ok_iff {header : Header} {seen : Array Text} {line : Bytes} {next : Progress} :
    (Progress.begun header seen).add line = .ok next ↔
      (∃ t : Text, t.SpelledBy line ∧ next = .begun header (seen.push t)) ∨
      ∃ entry, EntrySpelledBy entry line ∧ next = .complete ⟨header, seen.toList, entry⟩ := by
  have hte : utf8 "T" ≠ utf8 "E" := by decide
  have hth : utf8 "T" ≠ utf8 "H" := by decide
  have heh : utf8 "E" ≠ utf8 "H" := by decide
  simp only [Text.spelledBy_iff, entrySpelledBy_iff]
  by_cases htext : (line.splitOn Ascii.circumflex).headD [] = utf8 "T"
  · simp only [add, htext, beq_iff_eq, hth, hte, if_false, if_true, true_and, false_and,
      exists_false, or_false]
    refine map_eq_ok_iff.trans ?_
    simp only [eq_comm]
  · by_cases hend : (line.splitOn Ascii.circumflex).headD [] = utf8 "E"
    · simp only [add, hend, beq_iff_eq, heh, hte.symm, if_false, if_true, true_and, false_and,
        exists_false, false_or]
      refine map_eq_ok_iff.trans ?_
      simp only [eq_comm]
    · simp only [add, beq_iff_eq, htext, hend, if_false, false_and, exists_false, or_self,
        iff_false]
      split <;> simp

/-- Behind the End record no line is accepted. -/
theorem add_complete_ne_ok {p : Program} {line : Bytes} {next : Progress} :
    (Progress.complete p).add line ≠ .ok next := by
  simp [add]

end Progress

/-! ## Runs of lines -/

/-- The lines of a text on which records can stand: without the carriage returns at their ends, and
without those of white space only. -/
def recordLines (lines : List Bytes) : List Bytes :=
  (lines.map (dropTrailing Ascii.carriageReturn)).filter (!isBlankText ·)

/-- The numbers of lines and the blank ones among them have no part in what is read. -/
theorem foldlM_addLine_eq_ok_iff {lines : List Bytes} {number : Nat} {progress last : Progress} :
    (lines.zipIdx number).foldlM Progress.addLine progress = .ok last ↔
      (recordLines lines).foldlM Progress.add progress = .ok last := by
  induction lines generalizing number progress with
  | nil => simp [recordLines, pure, Except.pure]
  | cons line lines ih =>
    rw [List.zipIdx_cons, List.foldlM_cons, bind_eq_ok_iff]
    by_cases hblank : isBlankText (dropTrailing Ascii.carriageReturn line) = true
    · have hskip : recordLines (line :: lines) = recordLines lines := by simp [recordLines, hblank]
      simp only [Progress.addLine, hblank, if_true, hskip, ih, Except.ok.injEq, exists_eq_left']
    · have hkeep : recordLines (line :: lines) =
          dropTrailing Ascii.carriageReturn line :: recordLines lines := by
        simp [recordLines, hblank]
      rw [hkeep, List.foldlM_cons, bind_eq_ok_iff]
      simp only [Progress.addLine, hblank, Bool.false_eq_true, if_false, mapError_eq_ok_iff, ih]

/-- Nothing but the End record completes a program, and nothing follows it. -/
theorem foldlM_add_complete_iff {p q : Program} {lines : List Bytes} :
    lines.foldlM Progress.add (.complete p) = .ok (.complete q) ↔ lines = [] ∧ p = q := by
  cases lines with
  | nil => simp [pure, Except.pure]
  | cons line lines =>
    rw [List.foldlM_cons, bind_eq_ok_iff]
    simp [Progress.add_complete_ne_ok]

/-- What completes a program that has begun: Text records, which go behind those read before, and
the End record. -/
theorem foldlM_add_begun_iff {header : Header} {seen : Array Text} {lines : List Bytes}
    {p : Program} :
    lines.foldlM Progress.add (.begun header seen) = .ok (.complete p) ↔
      ∃ middle last texts, lines = middle ++ [last] ∧ List.Forall₂ Text.SpelledBy texts middle ∧
        EntrySpelledBy p.entry last ∧ p.header = header ∧ p.text = seen.toList ++ texts := by
  -- the induction is along the lines, from any records read before
  induction lines generalizing seen with
  | nil => simp [pure, Except.pure]
  | cons line lines ih =>
    rw [List.foldlM_cons, bind_eq_ok_iff]
    simp only [Progress.add_begun_eq_ok_iff]
    constructor
    · rintro ⟨next, ⟨t, ht, rfl⟩ | ⟨entry, hentry, rfl⟩, hrest⟩
      · obtain ⟨middle, last, texts, rfl, htexts, hend, hheader, htext⟩ := ih.mp hrest
        exact ⟨line :: middle, last, t :: texts, rfl, .cons ht htexts, hend, hheader,
          by simp [htext]⟩
      · obtain ⟨rfl, rfl⟩ := foldlM_add_complete_iff.mp hrest
        exact ⟨[], line, [], rfl, .nil, hentry, rfl, by simp⟩
    · rintro ⟨middle, last, texts, hlines, htexts, hend, rfl, htext⟩
      cases htexts with
      | nil =>
        obtain ⟨rfl, rfl⟩ := List.cons.inj hlines
        refine ⟨_, .inr ⟨p.entry, hend, rfl⟩, foldlM_add_complete_iff.mpr ⟨rfl, ?_⟩⟩
        rw [List.append_nil] at htext
        rw [← htext]
      | @cons t _ texts middle ht htexts =>
        obtain ⟨rfl, rfl⟩ := List.cons.inj hlines
        exact ⟨_, .inl ⟨t, ht, rfl⟩,
          ih.mpr ⟨middle, last, texts, rfl, htexts, hend, rfl, by simp [htext]⟩⟩

/-- Reading lines from the beginning accepts what the grammar does. -/
theorem foldlM_add_empty_iff {lines : List Bytes} {p : Program} :
    lines.foldlM Progress.add .empty = .ok (.complete p) ↔ p.SpelledBy lines := by
  cases lines with
  | nil => simp [Program.SpelledBy, pure, Except.pure]
  | cons line lines =>
    rw [List.foldlM_cons, bind_eq_ok_iff]
    simp only [Progress.add_empty_eq_ok_iff]
    constructor
    · rintro ⟨_, ⟨header, hheader, rfl⟩, hrest⟩
      obtain ⟨middle, last, texts, rfl, htexts, hend, rfl, htext⟩ := foldlM_add_begun_iff.mp hrest
      obtain rfl : p.text = texts := by simpa using htext
      exact ⟨line, middle, last, rfl, hheader, htexts, hend⟩
    · rintro ⟨first, middle, last, hlines, hheader, htexts, hend⟩
      obtain ⟨rfl, rfl⟩ := List.cons.inj hlines
      exact ⟨_, ⟨p.header, hheader, rfl⟩,
        foldlM_add_begun_iff.mpr ⟨middle, last, p.text, rfl, htexts, hend, rfl, by simp⟩⟩

/-! ## Texts -/

/-- A program is read if all of the input can be read and its lines complete the program. -/
theorem Program.read_eq_ok_iff {input : Input} {p : Program} :
    Program.read input = .ok p ↔ input.read.fault = none ∧
      (input.read.lines.zipIdx 1).foldlM Progress.addLine .empty = .ok (.complete p) := by
  refine ⟨Program.eq_of_read_eq_ok, ?_⟩
  rintro ⟨hfault, hlines⟩
  simp only [Program.read, hlines, hfault]
  rfl

/-- The lines on which the records of a text can stand do not depend on what the line buffer
drops. -/
theorem recordLines_map_dropReturn (lines : List Bytes) :
    recordLines (lines.map dropReturn) = recordLines lines := by
  simp only [recordLines, List.map_map, Function.comp_def, dropTrailing_dropReturn]

/-- The records of a program that is read stand on the lines of its text. -/
theorem Program.spelledBy_of_read {input : Input} {p : Program} (h : Program.read input = .ok p) :
    p.SpelledBy (recordLines (rawLines input.text)) := by
  obtain ⟨hfault, hlines⟩ := Program.read_eq_ok_iff.mp h
  have hfits := (Input.fault_read_eq_none_iff.mp hfault).2
  rwa [foldlM_addLine_eq_ok_iff, foldlM_add_empty_iff, Input.lines_read hfits,
    recordLines_map_dropReturn] at hlines

/-- A program is read from an input just if the input can be read to its end, every line of it fits
the line buffer, and its lines spell the program. -/
theorem Program.read_eq_ok_iff_spelledBy (input : Input) (p : Program) :
    Program.read input = .ok p ↔ input.fault = none ∧
      (∀ line ∈ rawLines input.text, line.length < lineLimit) ∧
      p.SpelledBy (recordLines (rawLines input.text)) := by
  constructor
  · intro h
    obtain ⟨hfault, hfits⟩ := Input.fault_read_eq_none_iff.mp (Program.read_eq_ok_iff.mp h).1
    exact ⟨hfault, hfits, Program.spelledBy_of_read h⟩
  · rintro ⟨hfault, hfits, hspelled⟩
    refine Program.read_eq_ok_iff.mpr ⟨Input.fault_read_eq_none_iff.mpr ⟨hfault, hfits⟩, ?_⟩
    rwa [foldlM_addLine_eq_ok_iff, foldlM_add_empty_iff, Input.lines_read hfits,
      recordLines_map_dropReturn]

-- blank lines stand anywhere, also behind the End record; one digit of a code is no byte
example : Program.read (.ofBytes (utf8 " \nH^AB ^a^0fF\r\r\nT^1^1^x^F1\n\nE^00\n \r")) =
    .ok ⟨⟨utf8 "AB", 0xA, 0xFF⟩, [⟨1, [utf8 "x", utf8 "F1"]⟩], 0⟩ := by
  decide +kernel

end TwoPass.Object
