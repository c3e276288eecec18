import Mathlib.Data.List.Basic
import TwoPass.Object.Reader
import TwoPass.Proofs.Numeral.Hexadecimal
import TwoPass.Proofs.Outcome
import TwoPass.Proofs.Text.Lines
import TwoPass.Proofs.Text.Words

set_option autoImplicit false

/-!
# Object programs read back

A record is its fields with circumflexes between them, so cutting it at the circumflexes gives the
fields back as long as no field holds one.  Each kind of record is then read as what it says, and
reading the records of a program one line after the other gives the program, up to what the name
field cannot hold: the name is cut to the width of the field, and loses the spaces at its end.
-/

namespace TwoPass.Object

/-! ## Numbers -/

/-- A number of 32 bits is read back from its field. -/
theorem readNumber_upperHex (field : Field) (width : Nat) {n : Nat} (h : n < 2 ^ 32) :
    readNumber field (upperHex width n) = .ok (UInt32.ofNat n) := by
  have hread : Numeral.unsigned 16 (Numeral.maxOfBits 32) (upperHex width n) = .ok n :=
    Numeral.unsigned_upperHex (by simp only [Numeral.maxOfBits]; omega)
  rw [readNumber, hread]

theorem readNumber_address (field : Field) (width : Nat) (address : Address) :
    readNumber field (upperHex width address.toNat) = .ok address := by
  rw [readNumber_upperHex field width address.toNat_lt, UInt32.ofNat_toNat]

theorem circumflex_not_mem_upperHex (width n : Nat) : Ascii.circumflex ∉ upperHex width n :=
  not_mem_upperHex (by decide) width n

/-! ## Fields -/

/-- A header as it is read back: the name is cut to the width of its field and loses the spaces at
its end. -/
def Header.reread (h : Header) : Header :=
  { name := dropTrailing Ascii.space (h.name.take nameWidth), start := h.start, length := h.length }

theorem Header.dropTrailing_nameField (h : Header) :
    dropTrailing Ascii.space h.nameField = h.reread.name := by
  rw [Header.nameField, dropTrailing_append_replicate, Header.reread]

/-- A byte other than the space is in the name field just if it is in the part of the name that is
kept. -/
theorem Header.mem_nameField {h : Header} {b : UInt8} (hb : b ≠ Ascii.space) :
    b ∈ h.nameField ↔ b ∈ h.name.take nameWidth := by
  have hspace : b ∉ List.replicate (nameWidth - (pieces (h.name.take nameWidth)).length)
      Ascii.space := fun hmem => hb (List.eq_of_mem_replicate hmem)
  simp only [Header.nameField, List.mem_append, hspace, or_false]

theorem Header.splitOn_record {h : Header} (hname : Ascii.circumflex ∉ h.name.take nameWidth) :
    h.record.splitOn Ascii.circumflex =
      [utf8 "H", h.nameField, upperHex 6 h.start.toNat, upperHex 6 h.length.toNat] := by
  have hrecord : h.record = [Ascii.circumflex].intercalate
      [utf8 "H", h.nameField, upperHex 6 h.start.toNat, upperHex 6 h.length.toNat] := by
    have hfront : utf8 "H^" = utf8 "H" ++ [Ascii.circumflex] := by decide
    have hcut : utf8 "^" = [Ascii.circumflex] := by decide
    simp [Header.record, hfront, hcut]
  rw [hrecord]
  refine List.splitOn_intercalate Ascii.circumflex ?_ (by simp)
  intro field hfield
  simp only [List.mem_cons, List.not_mem_nil, or_false] at hfield
  rcases hfield with rfl | rfl | rfl | rfl
  · decide
  · rw [Header.mem_nameField (by decide)]
    exact hname
  · exact circumflex_not_mem_upperHex 6 _
  · exact circumflex_not_mem_upperHex 6 _

/-- Fields that each follow a separator are fields with separators between them. -/
theorem append_flatMap_separator (separator : UInt8) (front : Bytes) (fields : List Bytes) :
    front ++ fields.flatMap (separator :: ·) = [separator].intercalate (front :: fields) := by
  induction fields generalizing front with
  | nil => simp
  | cons field fields ih =>
    rw [List.intercalate_cons_cons, ← ih field]
    simp

theorem Text.record_eq_intercalate (t : Text) :
    t.record = [Ascii.circumflex].intercalate
      (utf8 "T" :: upperHex 6 t.start.toNat :: upperHex 2 t.size :: t.codes) := by
  have hfront : utf8 "T^" = utf8 "T" ++ [Ascii.circumflex] := by decide
  have hcut : utf8 "^" = [Ascii.circumflex] := by decide
  rw [← append_flatMap_separator]
  simp [Text.record, hfront, hcut]

theorem Text.splitOn_record {t : Text} (hcodes : ∀ code ∈ t.codes, Ascii.circumflex ∉ code) :
    t.record.splitOn Ascii.circumflex =
      utf8 "T" :: upperHex 6 t.start.toNat :: upperHex 2 t.size :: t.codes := by
  rw [Text.record_eq_intercalate]
  refine List.splitOn_intercalate Ascii.circumflex ?_ (by simp)
  intro field hfield
  simp only [List.mem_cons] at hfield
  rcases hfield with rfl | rfl | rfl | hcode
  · decide
  · exact circumflex_not_mem_upperHex 6 _
  · exact circumflex_not_mem_upperHex 2 _
  · exact hcodes field hcode

theorem Program.splitOn_endRecord (p : Program) :
    p.endRecord.splitOn Ascii.circumflex = [utf8 "E", upperHex 6 p.entry.toNat] := by
  have hrecord : p.endRecord = [Ascii.circumflex].intercalate
      [utf8 "E", upperHex 6 p.entry.toNat] := by
    have hfront : utf8 "E^" = utf8 "E" ++ [Ascii.circumflex] := by decide
    simp [Program.endRecord, hfront]
  rw [hrecord]
  refine List.splitOn_intercalate Ascii.circumflex ?_ (by simp)
  intro field hfield
  simp only [List.mem_cons, List.not_mem_nil, or_false] at hfield
  rcases hfield with rfl | rfl
  · decide
  · exact circumflex_not_mem_upperHex 6 _

/-! ## Records -/

theorem readHeader_record {h : Header} (hname : Ascii.circumflex ∉ h.name.take nameWidth) :
    readHeader (h.record.splitOn Ascii.circumflex) = .ok h.reread := by
  rw [Header.splitOn_record hname]
  simp only [readHeader, readNumber_address, Header.dropTrailing_nameField]
  rfl

/-- A Text record states the size of its code, so reading it checks out. -/
theorem readText_record {t : Text} (hcodes : ∀ code ∈ t.codes, Ascii.circumflex ∉ code)
    (hnonempty : t.codes ≠ []) (hsize : t.size < 2 ^ 32) :
    readText (t.record.splitOn Ascii.circumflex) = .ok t := by
  rw [Text.splitOn_record hcodes]
  obtain ⟨start, codes⟩ := t
  cases codes with
  | nil => exact absurd rfl hnonempty
  | cons code codes =>
    have hstated : (UInt32.ofNat (Text.size ⟨start, code :: codes⟩)).toNat =
        Text.size ⟨start, code :: codes⟩ := UInt32.toNat_ofNat_of_lt' hsize
    simp only [readText, readNumber_address, readNumber_upperHex .textLength 2 hsize]
    exact if_pos hstated

theorem readEnd_record (p : Program) :
    readEnd (p.endRecord.splitOn Ascii.circumflex) = .ok p.entry := by
  rw [Program.splitOn_endRecord]
  exact readNumber_address .entryAddress 6 p.entry

/-- The size of a Text record is stated in a line at least as long. -/
theorem Text.size_le_length_record (t : Text) : t.size ≤ t.record.length := by
  have hcodes : t.codes.foldr (fun code size => codeSize code + size) 0 ≤
      (t.codes.flatMap (Ascii.circumflex :: ·)).length := by
    induction t.codes with
    | nil => simp
    | cons code codes ih =>
      have hcode : codeSize code ≤ code.length := Nat.div_le_self _ _
      simp only [List.foldr_cons, List.flatMap_cons, List.length_append, List.length_cons]
      omega
  simp only [Text.size, Text.record, List.length_append]
  omega

/-! ## Lines -/

/-- A line that is not blank and does not end in a carriage return is read as a record. -/
theorem Progress.addLine_of_add {progress next : Progress} {line : Bytes} (number : Nat)
    (hreturn : line.getLast? ≠ some Ascii.carriageReturn)
    (hblank : isBlankText line = false) (hadd : progress.add line = .ok next) :
    progress.addLine (dropReturn line, number) = .ok next := by
  simp only [Progress.addLine]
  rw [dropReturn_of_getLast?_ne hreturn, dropTrailing_of_getLast?_ne hreturn, hblank, hadd]
  rfl

/-- A text that ends in a printed number does not end in a carriage return. -/
theorem getLast?_append_upperHex_ne (front : Bytes) (width n : Nat) :
    (front ++ upperHex width n).getLast? ≠ some Ascii.carriageReturn := by
  intro h
  rw [List.getLast?_append_of_ne_nil _ (upperHex_ne_nil width n)] at h
  exact not_mem_upperHex (by decide) width n (List.mem_of_getLast? h)

theorem Header.getLast?_record_ne (h : Header) :
    h.record.getLast? ≠ some Ascii.carriageReturn := getLast?_append_upperHex_ne _ 6 h.length.toNat

theorem Program.getLast?_endRecord_ne (p : Program) :
    p.endRecord.getLast? ≠ some Ascii.carriageReturn :=
  getLast?_append_upperHex_ne _ 6 p.entry.toNat

theorem Text.getLast?_record_ne {t : Text} (hnonempty : t.codes ≠ [])
    (hlast : ∀ code, t.codes.getLast? = some code → code.getLast? ≠ some Ascii.carriageReturn) :
    t.record.getLast? ≠ some Ascii.carriageReturn := by
  obtain ⟨start, codes⟩ := t
  rcases List.eq_nil_or_concat' codes with rfl | ⟨front, code, rfl⟩
  · exact absurd rfl hnonempty
  · have hcode := hlast code (by simp)
    have hend : (Text.record ⟨start, front ++ [code]⟩).getLast? =
        some (code.getLast?.getD Ascii.circumflex) := by
      rw [Text.record, List.flatMap_append, ← List.append_assoc,
        List.getLast?_append_of_ne_nil _ (by simp), List.flatMap_singleton, List.getLast?_cons]
    rw [hend]
    intro h
    cases hbyte : code.getLast? with
    | none =>
      rw [hbyte] at h
      exact absurd h (by decide)
    | some b =>
      rw [hbyte] at h hcode
      exact hcode h

/-- The first byte of a record decides that its line is not blank. -/
theorem Header.isBlankText_record (h : Header) : isBlankText h.record = false :=
  isBlankText_cons_of_ascii (b := 0x48) (by decide) (by decide) _

theorem Text.isBlankText_record (t : Text) : isBlankText t.record = false :=
  isBlankText_cons_of_ascii (b := 0x54) (by decide) (by decide) _

theorem Program.isBlankText_endRecord (p : Program) : isBlankText p.endRecord = false :=
  isBlankText_cons_of_ascii (b := 0x45) (by decide) (by decide) _

/-! ## Programs -/

/-- A Text record that can be told apart again once it is written: no code holds a byte that ends
it, and the last one is not taken for a part of its line's end. -/
structure Text.Legible (t : Text) : Prop where
  /-- there is code -/
  nonempty : t.codes ≠ []
  /-- no code holds a circumflex -/
  circumflex : ∀ code ∈ t.codes, Ascii.circumflex ∉ code
  /-- no code holds a line feed -/
  newline : ∀ code ∈ t.codes, Ascii.newline ∉ code
  /-- the last code does not end in a carriage return -/
  carriageReturn : ∀ code, t.codes.getLast? = some code →
    code.getLast? ≠ some Ascii.carriageReturn

/-- A program whose records can be told apart again once they are written. -/
structure Program.Legible (p : Program) : Prop where
  /-- the name field holds no circumflex -/
  circumflex : Ascii.circumflex ∉ p.header.name.take nameWidth
  /-- the name field holds no line feed -/
  newline : Ascii.newline ∉ p.header.name.take nameWidth
  /-- every Text record is legible -/
  text : ∀ t ∈ p.text, t.Legible
  /-- every record fits the line buffer -/
  fits : ∀ record ∈ p.records, record.length < lineLimit

/-- A program as it is read back: what the name field cannot hold of the name is lost. -/
def Program.reread (p : Program) : Program := ⟨p.header.reread, p.text, p.entry⟩

theorem Program.render_eq_terminated (p : Program) : p.render = terminated p.records := rfl

/-- No record of a program holds a line feed unless its name field or a code does. -/
theorem Program.newline_not_mem_records {p : Program}
    (hname : Ascii.newline ∉ p.header.name.take nameWidth)
    (hcodes : ∀ t ∈ p.text, ∀ code ∈ t.codes, Ascii.newline ∉ code) :
    ∀ record ∈ p.records, Ascii.newline ∉ record := by
  have hdigits : ∀ width n, Ascii.newline ∉ upperHex width n := not_mem_upperHex (by decide)
  have hcut : Ascii.newline ∉ utf8 "^" := by decide
  intro record hrecord
  simp only [Program.records, List.cons_append, List.mem_cons, List.mem_append, List.mem_map,
    List.not_mem_nil, or_false] at hrecord
  rcases hrecord with rfl | ⟨t, ht, rfl⟩ | rfl
  · have hfront : Ascii.newline ∉ utf8 "H^" := by decide
    have hfield : Ascii.newline ∉ p.header.nameField := by
      rw [Header.mem_nameField (by decide)]
      exact hname
    simp [Header.record, hfront, hcut, hfield, hdigits]
  · have hfront : Ascii.newline ∉ utf8 "T^" := by decide
    have hcode : Ascii.newline ∉ t.codes.flatMap (Ascii.circumflex :: ·) := by
      intro h
      obtain ⟨code, hmem, hnewline⟩ := List.mem_flatMap.mp h
      rcases List.mem_cons.mp hnewline with hfirst | hrest
      · exact absurd hfirst (by decide)
      · exact hcodes t ht code hmem hrest
    simp only [Text.record, List.mem_append, hfront, hcut, hdigits, hcode, or_self,
      not_false_eq_true]
  · have hfront : Ascii.newline ∉ utf8 "E^" := by decide
    simp [Program.endRecord, hfront, hdigits]

theorem Progress.add_header {h : Header} (hname : Ascii.circumflex ∉ h.name.take nameWidth) :
    Progress.empty.add h.record = .ok (.begun h.reread #[]) := by
  have htype : (h.record.splitOn Ascii.circumflex).headD [] = utf8 "H" := by
    rw [Header.splitOn_record hname]
    rfl
  simp only [Progress.add, htype, readHeader_record hname, beq_self_eq_true]
  rfl

theorem Progress.add_text (header : Header) (seen : Array Text) {t : Text} (ht : t.Legible)
    (hsize : t.size < 2 ^ 32) :
    (Progress.begun header seen).add t.record = .ok (.begun header (seen.push t)) := by
  have htype : (t.record.splitOn Ascii.circumflex).headD [] = utf8 "T" := by
    rw [Text.splitOn_record ht.circumflex]
    rfl
  have hother : (utf8 "T" == utf8 "H") = false := by decide
  simp only [Progress.add, htype, readText_record ht.circumflex ht.nonempty hsize, hother]
  rfl

theorem Progress.add_end (header : Header) (seen : Array Text) (p : Program) :
    (Progress.begun header seen).add p.endRecord =
      .ok (.complete ⟨header, seen.toList, p.entry⟩) := by
  have htype : (p.endRecord.splitOn Ascii.circumflex).headD [] = utf8 "E" := by
    rw [Program.splitOn_endRecord]
    rfl
  have hheader : (utf8 "E" == utf8 "H") = false := by decide
  have htext : (utf8 "E" == utf8 "T") = false := by decide
  simp only [Progress.add, htype, readEnd_record, hheader, htext]
  rfl

/-- Reading the Text records of a program puts them behind those read before. -/
theorem foldlM_addLine_text (header : Header) {texts : List Text}
    (hlegible : ∀ t ∈ texts, t.Legible) (hsize : ∀ t ∈ texts, t.size < 2 ^ 32)
    (seen : Array Text) (number : Nat) :
    ((texts.map fun t => dropReturn t.record).zipIdx number).foldlM Progress.addLine
        (.begun header seen) = .ok (.begun header (seen ++ texts.toArray)) := by
  induction texts generalizing seen number with
  | nil => simp [pure, Except.pure]
  | cons t texts ih =>
    have ht := hlegible t List.mem_cons_self
    have hreturn := Text.getLast?_record_ne ht.nonempty ht.carriageReturn
    have hadd := Progress.add_text header seen ht (hsize t List.mem_cons_self)
    have hline := Progress.addLine_of_add number hreturn t.isBlankText_record hadd
    have hrest := ih (fun u hu => hlegible u (List.mem_cons_of_mem t hu))
      (fun u hu => hsize u (List.mem_cons_of_mem t hu)) (seen.push t) (number + 1)
    rw [List.map_cons, List.zipIdx_cons, List.foldlM_cons, hline]
    refine hrest.trans ?_
    simp

/-- Reading the records of a legible program line by line gives the program. -/
theorem foldlM_addLine_records {p : Program} (h : p.Legible) :
    ((p.records.map dropReturn).zipIdx 1).foldlM Progress.addLine .empty =
      .ok (.complete p.reread) := by
  have hsize : ∀ t ∈ p.text, t.size < 2 ^ 32 := by
    intro t ht
    have hfits := h.fits t.record (by
      simp only [Program.records, List.cons_append, List.mem_cons, List.mem_append, List.mem_map]
      exact Or.inr (Or.inl ⟨t, ht, rfl⟩))
    have hlength := t.size_le_length_record
    simp only [lineLimit] at hfits
    omega
  have hheader := Progress.addLine_of_add 1 p.header.getLast?_record_ne
    p.header.isBlankText_record (Progress.add_header h.circumflex)
  have htext := foldlM_addLine_text p.header.reread h.text hsize #[] 2
  have hend := fun number => Progress.addLine_of_add number p.getLast?_endRecord_ne
    p.isBlankText_endRecord (Progress.add_end p.header.reread p.text.toArray p)
  rw [Array.empty_append] at htext
  rw [Program.records, List.map_append, List.zipIdx_append, List.foldlM_append, List.map_cons,
    List.zipIdx_cons, List.foldlM_cons, hheader, ok_bind, List.map_map]
  simp only [Function.comp_def]
  rw [htext, ok_bind, List.map_singleton, List.zipIdx_singleton, List.foldlM_cons, hend, ok_bind]
  rfl

/-- A legible program is read back, its name as far as the name field holds it. -/
theorem Program.read_render_of_legible {p : Program} (h : p.Legible) :
    Program.read (.ofBytes p.render) = .ok p.reread := by
  have hnewline := Program.newline_not_mem_records h.newline fun t ht => (h.text t ht).newline
  have hread := read_terminated hnewline h.fits
  rw [Program.read, Program.render_eq_terminated]
  simp only [hread, foldlM_addLine_records h]
  rfl

/-- A program is read back as itself if its name fits the name field and does not end in a space,
its records can be told apart and its lines fit the line buffer.  Nothing is asked of its numbers,
of the contents of its codes beyond the bytes that end them, or of their lengths. -/
theorem Program.read_render (p : Program) (hwidth : p.header.name.length ≤ nameWidth)
    (hcircumflex : Ascii.circumflex ∉ p.header.name) (hnewline : Ascii.newline ∉ p.header.name)
    (hspace : p.header.name.getLast? ≠ some Ascii.space)
    (hnonempty : ∀ t ∈ p.text, t.codes ≠ [])
    (hcodes : ∀ t ∈ p.text, ∀ code ∈ t.codes, Ascii.circumflex ∉ code ∧ Ascii.newline ∉ code)
    (hreturn : ∀ t ∈ p.text, ∀ code, t.codes.getLast? = some code →
      code.getLast? ≠ some Ascii.carriageReturn)
    (hfits : ∀ record ∈ p.records, record.length < lineLimit) :
    Program.read (.ofBytes p.render) = .ok p := by
  have htake : p.header.name.take nameWidth = p.header.name := List.take_of_length_le hwidth
  have hlegible : p.Legible :=
    { circumflex := by rw [htake]; exact hcircumflex
      newline := by rw [htake]; exact hnewline
      text := fun t ht =>
        { nonempty := hnonempty t ht
          circumflex := fun code hcode => (hcodes t ht code hcode).1
          newline := fun code hcode => (hcodes t ht code hcode).2
          carriageReturn := hreturn t ht }
      fits := hfits }
  have hreread : p.reread = p := by
    rw [Program.reread, Header.reread, htake, dropTrailing_of_getLast?_ne hspace]
  rw [Program.read_render_of_legible hlegible, hreread]

/-- A program with large numbers, a space and a carriage return inside its name, and codes that are
empty, of odd length, no digits at all, or end in a carriage return inside their record. -/
def unusualProgram : Program :=
  ⟨⟨utf8 "A \rZ", 0xFFFFFFFF, 0x1000000⟩,
    [⟨0x80000000, [utf8 "1", [], utf8 "zz\r", utf8 "0C0"]⟩, ⟨0, [[]]⟩], 0xABCDEF0⟩

theorem Program.read_render_unusualProgram :
    Program.read (.ofBytes unusualProgram.render) = .ok unusualProgram :=
  Program.read_render unusualProgram (by decide) (by decide) (by decide) (by decide) (by decide)
    (by decide) (by simp [unusualProgram, utf8]; decide) (by decide)

/-! ## What reading can deliver -/

/-- The fields of a Header record that is read. -/
theorem eq_of_readHeader_eq_ok {fields : List Bytes} {h : Header}
    (hread : readHeader fields = .ok h) :
    ∃ type name start length, fields = [type, name, start, length] ∧
      h.name = dropTrailing Ascii.space name := by
  unfold readHeader at hread
  split at hread
  · rename_i type name start length
    obtain ⟨_, _, hread⟩ := bind_eq_ok_iff.mp hread
    obtain ⟨_, _, hread⟩ := bind_eq_ok_iff.mp hread
    have hheader := Except.ok.inj hread
    exact ⟨type, name, start, length, rfl, by rw [← hheader]⟩
  · simp at hread

/-- The fields of a Text record that is read: the address, the size and the codes. -/
theorem eq_of_readText_eq_ok {fields : List Bytes} {t : Text} (hread : readText fields = .ok t) :
    ∃ type start size stated, fields = type :: start :: size :: t.codes ∧
      readNumber .textAddress start = .ok t.start ∧ readNumber .textLength size = .ok stated ∧
      stated.toNat = t.size := by
  unfold readText at hread
  split at hread
  · rename_i type start size code codes
    obtain ⟨address, haddress, hread⟩ := bind_eq_ok_iff.mp hread
    obtain ⟨stated, hstated, hread⟩ := bind_eq_ok_iff.mp hread
    dsimp only at hread
    split at hread
    · rename_i hsize
      rw [← Except.ok.inj hread]
      exact ⟨type, start, size, stated, rfl, haddress, hstated, hsize⟩
    · simp [throw, throwThe, MonadExceptOf.throw] at hread
  · simp at hread

/-- What one more record can do: it is the Header record, a Text record or the End record. -/
theorem Progress.add_cases {progress next : Progress} {line : Bytes}
    (h : progress.add line = .ok next) :
    (∃ header, progress = .empty ∧ readHeader (line.splitOn Ascii.circumflex) = .ok header ∧
      next = .begun header #[]) ∨
    (∃ header text t, progress = .begun header text ∧
      (line.splitOn Ascii.circumflex).headD [] = utf8 "T" ∧
      readText (line.splitOn Ascii.circumflex) = .ok t ∧ next = .begun header (text.push t)) ∨
    ∃ header text entry, progress = .begun header text ∧
      next = .complete ⟨header, text.toList, entry⟩ := by
  cases progress with
  | complete program => simp [Progress.add] at h
  | empty =>
    simp only [Progress.add] at h
    split at h
    · obtain ⟨header, hheader, rfl⟩ := map_eq_ok_iff.mp h
      exact .inl ⟨header, rfl, hheader, rfl⟩
    · split at h
      · simp at h
      · split at h <;> simp at h
  | begun header text =>
    simp only [Progress.add] at h
    split at h
    · simp at h
    · split at h
      · rename_i htype
        obtain ⟨t, ht, rfl⟩ := map_eq_ok_iff.mp h
        exact .inr (.inl ⟨header, text, t, rfl, eq_of_beq htype, ht, rfl⟩)
      · split at h
        · obtain ⟨entry, _, rfl⟩ := map_eq_ok_iff.mp h
          exact .inr (.inr ⟨header, text, entry, rfl, rfl⟩)
        · simp at h

/-- A name and Text records without a circumflex. -/
def FreeOfCircumflex (h : Header) (texts : List Text) : Prop :=
  Ascii.circumflex ∉ h.name ∧ ∀ t ∈ texts, ∀ code ∈ t.codes, Ascii.circumflex ∉ code

/-- Nothing that has been read holds a circumflex. -/
def Progress.FreeOfCircumflex : Progress → Prop
  | .empty => True
  | .begun header text => Object.FreeOfCircumflex header text.toList
  | .complete program => Object.FreeOfCircumflex program.header program.text

theorem Progress.freeOfCircumflex_add {progress next : Progress} {line : Bytes}
    (hfree : progress.FreeOfCircumflex) (hadd : progress.add line = .ok next) :
    next.FreeOfCircumflex := by
  rcases Progress.add_cases hadd with ⟨header, _, hheader, rfl⟩ |
    ⟨header, text, t, rfl, _, ht, rfl⟩ |
    ⟨header, text, entry, rfl, rfl⟩
  · obtain ⟨type, name, start, length, hfields, hname⟩ := eq_of_readHeader_eq_ok hheader
    have hfield : name ∈ line.splitOn Ascii.circumflex := by
      rw [hfields]
      simp
    refine ⟨?_, by simp⟩
    rw [hname]
    exact fun h => not_mem_of_mem_splitOn hfield (mem_of_mem_dropTrailing h)
  · obtain ⟨type, start, size, _, hfields, _⟩ := eq_of_readText_eq_ok ht
    refine ⟨hfree.1, ?_⟩
    intro u hu code hcode
    simp only [Array.toList_push, List.mem_append, List.mem_singleton] at hu
    rcases hu with hu | rfl
    · exact hfree.2 u hu code hcode
    · have hfield : code ∈ line.splitOn Ascii.circumflex := by
        rw [hfields]
        simp [hcode]
      exact not_mem_of_mem_splitOn hfield
  · exact hfree

/-- A program that was read is what its lines put together, and all of the input was read for it. -/
theorem Program.eq_of_read_eq_ok {input : Input} {p : Program} (h : Program.read input = .ok p) :
    input.read.fault = none ∧
      (input.read.lines.zipIdx 1).foldlM Progress.addLine .empty = .ok (.complete p) := by
  simp only [Program.read] at h
  split at h
  · simp at h
  · rename_i progress hfold
    split at h
    · simp at h
    · rename_i hfault
      cases progress with
      | empty => simp [Progress.finish] at h
      | begun header text => simp [Progress.finish] at h
      | complete program =>
        rw [← Except.ok.inj h]
        exact ⟨hfault, hfold⟩

/-- What one more line can do: nothing, if it is blank, or what the record on it does. -/
theorem Progress.addLine_cases {progress next : Progress} {numbered : Bytes × Nat}
    (h : progress.addLine numbered = .ok next) :
    next = progress ∨ progress.add (dropTrailing Ascii.carriageReturn numbered.1) = .ok next := by
  simp only [Progress.addLine] at h
  split at h
  · exact .inl (Except.ok.inj h).symm
  · exact .inr (mapError_eq_ok_iff.mp h)

/-- A program that was read holds no circumflex in its name or in a code. -/
theorem Program.freeOfCircumflex_of_read {input : Input} {p : Program}
    (h : Program.read input = .ok p) : FreeOfCircumflex p.header p.text := by
  have hline : ∀ progress numbered next, progress.FreeOfCircumflex →
      Progress.addLine progress numbered = .ok next → next.FreeOfCircumflex := by
    intro progress numbered next hfree hadd
    rcases Progress.addLine_cases hadd with rfl | hadd
    · exact hfree
    · exact Progress.freeOfCircumflex_add hfree hadd
  have hempty : Progress.empty.FreeOfCircumflex := trivial
  exact foldlM_invariant Progress.FreeOfCircumflex hline hempty (Program.eq_of_read_eq_ok h).2

/-- A line on which a Text record stands. -/
structure Text.StandsOn (t : Text) (line : Bytes) : Prop where
  /-- its fields say so -/
  type : ((dropTrailing Ascii.carriageReturn line).splitOn Ascii.circumflex).headD [] = utf8 "T"
  /-- they are read as the record -/
  read : readText ((dropTrailing Ascii.carriageReturn line).splitOn Ascii.circumflex) = .ok t

/-- The Text records that have been read. -/
def Progress.text : Progress → List Text
  | .empty => []
  | .begun _ text => text.toList
  | .complete program => program.text

/-- Each Text record of a program that was read stands on a line. -/
theorem Program.exists_line_of_mem_text {input : Input} {p : Program}
    (h : Program.read input = .ok p)
    {t : Text} (ht : t ∈ p.text) : ∃ line ∈ input.read.lines, t.StandsOn line := by
  have hline : ∀ progress : Progress, ∀ numbered ∈ input.read.lines.zipIdx 1, ∀ next,
      (∀ t ∈ progress.text, ∃ line ∈ input.read.lines, t.StandsOn line) →
      progress.addLine numbered = .ok next →
      ∀ t ∈ next.text, ∃ line ∈ input.read.lines, t.StandsOn line := by
    intro progress numbered hnumbered next hseen hadd
    have hmem : numbered.1 ∈ input.read.lines := List.fst_mem_of_mem_zipIdx hnumbered
    rcases Progress.addLine_cases hadd with rfl | hadd
    · exact hseen
    rcases Progress.add_cases hadd with ⟨header, _, _, rfl⟩ |
      ⟨header, text, u, rfl, htype, hu, rfl⟩ |
      ⟨header, text, entry, rfl, rfl⟩
    · simp [Progress.text]
    · intro t ht
      simp only [Progress.text, Array.toList_push, List.mem_append, List.mem_singleton] at ht
      rcases ht with ht | rfl
      · exact hseen t ht
      · exact ⟨numbered.1, hmem, htype, hu⟩
    · exact hseen
  have hempty : ∀ t ∈ Progress.empty.text, ∃ line ∈ input.read.lines, t.StandsOn line := by
    simp [Progress.text]
  exact foldlM_invariant_of_mem _ hline hempty (Program.eq_of_read_eq_ok h).2 t ht

end TwoPass.Object
