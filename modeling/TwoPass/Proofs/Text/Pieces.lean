import TwoPass.Proofs.Text.Lines
import TwoPass.Proofs.Text.Words

set_option autoImplicit false

/-!
# Where the pieces of a text divide

What the front of a text spells depends on the bytes of the first piece only, and a stray byte stays
one if less follows it.  So a run of pieces, cut out of a text, falls into the same pieces again;
and an ASCII byte divides a text into two parts that have nothing to do with each other.  Words are
runs of pieces, so a word is the only word of itself, and words with tabs between them are told
apart again.
-/

namespace TwoPass

/-! ## The front of a text -/

/-- What follows a character has no part in it. -/
theorem leadingChar?_append {front : Bytes} {r : Char × Nat} (h : leadingChar? front = some r)
    (back : Bytes) :
    leadingChar? (front ++ back) = some r := by
  cases front with
  | nil => simp [leadingChar?] at h
  | cons b rest =>
    simp only [leadingChar?, List.cons_append] at h ⊢
    cases hlead : Lead.ofByte? b with
    | none => simp [hlead] at h
    | some lead =>
      simp only [hlead] at h ⊢
      split at h
      · rename_i hvalid
        have hlong : lead.trailing ≤ rest.length := by
          have hlength := hvalid.1
          rw [List.length_take] at hlength
          omega
        rw [List.take_append_of_le_length hlong, if_pos hvalid]
        exact h
      · simp at h

/-- A character that takes no more than the bytes of a text is spelled by them alone. -/
theorem leadingChar?_of_append {b : UInt8} {front back : Bytes} {c : Char} {width : Nat}
    (h : leadingChar? (b :: (front ++ back)) = some (c, width))
    (hwidth : width ≤ front.length + 1) :
    leadingChar? (b :: front) = some (c, width) := by
  simp only [leadingChar?] at h ⊢
  cases hlead : Lead.ofByte? b with
  | none => simp [hlead] at h
  | some lead =>
    simp only [hlead] at h ⊢
    split at h
    · rename_i hvalid
      obtain ⟨_, hfits⟩ := Prod.mk.inj (Option.some.inj h)
      have hlong : lead.trailing ≤ front.length := by omega
      rw [List.take_append_of_le_length hlong] at hvalid h
      rw [if_pos hvalid]
      exact h
    · simp at h

theorem pieces_nil : pieces [] = [] := rfl

theorem piecesFrom_eq_pieces_drop (skip : Nat) (text : Bytes) :
    piecesFrom skip text [] = pieces (text.drop skip) := by
  induction text generalizing skip with
  | nil => simp [piecesFrom, pieces_nil]
  | cons b rest ih =>
    cases skip with
    | zero => rfl
    | succ skip => exact ih skip

/-- A character in front is the first piece. -/
theorem pieces_of_leadingChar? {text : Bytes} {c : Char} {width : Nat}
    (h : leadingChar? text = some (c, width)) :
    pieces text = .char c (text.take width) :: pieces (text.drop width) := by
  cases text with
  | nil => simp [leadingChar?] at h
  | cons b rest =>
    obtain ⟨hpositive, _⟩ := leadingChar?_width h
    obtain ⟨more, rfl⟩ : ∃ more, width = more + 1 := ⟨width - 1, by omega⟩
    simp only [pieces, piecesFrom, h]
    rw [piecesFrom_eq_append, Nat.add_sub_cancel, piecesFrom_eq_pieces_drop]
    rfl

/-- A byte in front that begins no character is the first piece. -/
theorem pieces_cons_of_stray {b : UInt8} {rest : Bytes} (h : leadingChar? (b :: rest) = none) :
    pieces (b :: rest) = .stray b :: pieces rest := by
  simp only [pieces, piecesFrom, h]
  rw [piecesFrom_eq_append]
  rfl

/-- A text has no more pieces than bytes. -/
theorem length_pieces_le (text : Bytes) : (pieces text).length ≤ text.length := by
  induction hlength : text.length using Nat.strongRecOn generalizing text with
  | ind n ih =>
    cases text with
    | nil => simp [pieces_nil]
    | cons b rest =>
      cases hlead : leadingChar? (b :: rest) with
      | none =>
        have hrest := ih rest.length (by simp [← hlength]) rest rfl
        rw [pieces_cons_of_stray hlead, ← hlength]
        simpa using hrest
      | some r =>
        obtain ⟨c, width⟩ := r
        obtain ⟨hpositive, hwidth⟩ := leadingChar?_width hlead
        have hdrop : ((b :: rest).drop width).length = n - width := by
          rw [List.length_drop, hlength]
        have hrest := ih (n - width) (by simp at hlength; omega) _ hdrop
        rw [pieces_of_leadingChar? hlead, List.length_cons]
        simp at hlength
        omega

/-! ## Cuts -/

/-- An ASCII byte divides the pieces of a text. -/
theorem pieces_append_cons_of_ascii {b : UInt8} (hascii : b < 0x80) (front rest : Bytes) :
    pieces (front ++ b :: rest) = pieces front ++ pieces (b :: rest) := by
  induction hlength : front.length using Nat.strongRecOn generalizing front with
  | ind n ih =>
    cases front with
    | nil => rfl
    | cons first front =>
      cases hlead : leadingChar? (first :: front) with
      | some r =>
        obtain ⟨c, width⟩ := r
        obtain ⟨hpositive, hwidth⟩ := leadingChar?_width hlead
        have hle : width ≤ (first :: front).length := by simpa using hwidth
        have hdrop : ((first :: front).drop width).length = n - width := by
          rw [List.length_drop, hlength]
        have hrest := ih (n - width) (by omega) _ hdrop
        rw [pieces_of_leadingChar? (leadingChar?_append hlead (b :: rest)),
          pieces_of_leadingChar? hlead, List.take_append_of_le_length hle,
          List.drop_append_of_le_length hle, hrest, List.cons_append]
      | none =>
        -- The byte cannot complete what is no character without it: it continues no sequence.
        have hstray : leadingChar? (first :: (front ++ b :: rest)) = none := by
          cases hlonger : leadingChar? (first :: (front ++ b :: rest)) with
          | none => rfl
          | some r =>
            obtain ⟨c, width⟩ := r
            by_cases hwidth : width ≤ front.length + 1
            · rw [leadingChar?_of_append hlonger hwidth] at hlead
              simp at hlead
            · have hmem : b ∈ (front ++ b :: rest).take (width - 1) := by
                rw [List.take_append, List.mem_append]
                obtain ⟨more, hmore⟩ : ∃ more, width - 1 - front.length = more + 1 :=
                  ⟨width - 2 - front.length, by omega⟩
                exact Or.inr (by simp [hmore])
              exact absurd hascii (not_ascii_of_leadingChar? hlonger hmem)
        have hrest := ih front.length (by simp [← hlength]) front rfl
        rw [List.cons_append, pieces_cons_of_stray hstray, pieces_cons_of_stray hlead, hrest,
          List.cons_append]

theorem spell_append (front back : List Piece) :
    spell (front ++ back) = spell front ++ spell back := by
  simp [spell]

/-- The first pieces of a text are the pieces of what they spell. -/
theorem pieces_spell_of_append_right {text : Bytes} {front back : List Piece}
    (h : pieces text = front ++ back) : pieces (spell front) = front := by
  induction front generalizing text with
  | nil => rfl
  | cons piece front ih =>
    have htext : text = spell (piece :: front) ++ spell back := by
      rw [← spell_append, ← h, spell_pieces]
    cases text with
    | nil => simp [pieces_nil] at h
    | cons b rest =>
      cases hlead : leadingChar? (b :: rest) with
      | none =>
        rw [pieces_cons_of_stray hlead, List.cons_append] at h
        obtain ⟨rfl, hrest⟩ := List.cons.inj h
        have hspell : spell (.stray b :: front) = b :: spell front := rfl
        have hstray : leadingChar? (b :: spell front) = none := by
          cases hshorter : leadingChar? (b :: spell front) with
          | none => rfl
          | some r =>
            have hlonger := leadingChar?_append hshorter (spell back)
            rw [← hspell, ← htext, hlead] at hlonger
            simp at hlonger
        rw [hspell, pieces_cons_of_stray hstray, ih hrest]
      | some r =>
        obtain ⟨c, width⟩ := r
        obtain ⟨hpositive, hwidth⟩ := leadingChar?_width hlead
        rw [pieces_of_leadingChar? hlead, List.cons_append] at h
        obtain ⟨rfl, hrest⟩ := List.cons.inj h
        have hspell : spell (.char c ((b :: rest).take width) :: front) =
            (b :: rest).take width ++ spell front := rfl
        have hlength : ((b :: rest).take width).length = width := by simp; omega
        obtain ⟨more, rfl⟩ : ∃ more, width = more + 1 := ⟨width - 1, by omega⟩
        have hshorter : leadingChar? ((b :: rest).take (more + 1) ++ spell front) =
            some (c, more + 1) := by
          rw [List.take_succ_cons, List.cons_append]
          rw [hspell, List.take_succ_cons, List.cons_append, List.cons_append] at htext
          rw [htext] at hlead
          exact leadingChar?_of_append hlead (by simp at hlength ⊢; omega)
        rw [hspell, pieces_of_leadingChar? hshorter, List.take_left' hlength,
          List.drop_left' hlength, ih hrest]

/-- The last pieces of a text are the pieces of what they spell. -/
theorem pieces_spell_of_append_left {text : Bytes} {front back : List Piece}
    (h : pieces text = front ++ back) : pieces (spell back) = back := by
  induction front generalizing text with
  | nil =>
    rw [List.nil_append] at h
    rw [← h, spell_pieces]
  | cons piece front ih =>
    cases text with
    | nil => simp [pieces_nil] at h
    | cons b rest =>
      cases hlead : leadingChar? (b :: rest) with
      | none =>
        rw [pieces_cons_of_stray hlead] at h
        exact ih (List.cons.inj h).2
      | some r =>
        rw [pieces_of_leadingChar? hlead] at h
        exact ih (List.cons.inj h).2

/-- A run of the pieces of a text falls into the same pieces again. -/
theorem pieces_spell_of_infix {text : Bytes} {run : List Piece} (h : run <:+: pieces text) :
    pieces (spell run) = run := by
  obtain ⟨front, back, hpieces⟩ := h
  have hfront : pieces (spell (front ++ run)) = front ++ run :=
    pieces_spell_of_append_right hpieces.symm
  exact pieces_spell_of_append_left hfront

/-! ## Words -/

/-- A text that is a word: not empty, and without white space. -/
def IsSingleWord (text : Bytes) : Prop := text ≠ [] ∧ ∀ piece ∈ pieces text, piece.isBlank = false

/-- What lies between two cuts is a run of the list; what lies before the first is its beginning. -/
theorem infix_of_mem_splitOnP {α : Type} (p : α → Bool) (xs : List α) :
    ∀ first more, xs.splitOnP p = first :: more → first <+: xs ∧ ∀ part ∈ more, part <:+: xs := by
  induction xs with
  | nil =>
    intro first more h
    obtain ⟨rfl, rfl⟩ := List.cons.inj h
    exact ⟨List.prefix_rfl, by simp⟩
  | cons x xs ih =>
    intro first more h
    obtain ⟨head, tail, hsplit⟩ := List.exists_cons_of_ne_nil (List.splitOnP_ne_nil p xs)
    obtain ⟨hhead, htail⟩ := ih head tail hsplit
    rw [List.splitOnP_cons_eq_if_modifyHead, hsplit] at h
    split at h
    · obtain ⟨rfl, rfl⟩ := List.cons.inj h
      refine ⟨List.nil_prefix, ?_⟩
      intro part hpart
      rcases List.mem_cons.mp hpart with rfl | hpart
      · exact hhead.isInfix.trans (List.suffix_cons x xs).isInfix
      · exact (htail part hpart).trans (List.suffix_cons x xs).isInfix
    · obtain ⟨rfl, rfl⟩ := List.cons.inj h
      refine ⟨(List.prefix_cons_inj x).mpr hhead, ?_⟩
      intro part hpart
      exact (htail part hpart).trans (List.suffix_cons x xs).isInfix

/-- The words of a text are words. -/
theorem isSingleWord_of_mem_words {text word : Bytes} (h : word ∈ words text) :
    IsSingleWord word := by
  simp only [words, List.mem_map, List.mem_filter] at h
  obtain ⟨part, ⟨hpart, hnonempty⟩, rfl⟩ := h
  have hinfix : part <:+: pieces text := by
    obtain ⟨first, more, hsplit⟩ := List.exists_cons_of_ne_nil
      (List.splitOnP_ne_nil Piece.isBlank (pieces text))
    obtain ⟨hfirst, hmore⟩ := infix_of_mem_splitOnP Piece.isBlank (pieces text) first more hsplit
    rw [hsplit] at hpart
    rcases List.mem_cons.mp hpart with rfl | hpart
    · exact hfirst.isInfix
    · exact hmore part hpart
  have hpieces := pieces_spell_of_infix hinfix
  refine ⟨?_, ?_⟩
  · intro hspell
    rw [hspell, pieces_nil] at hpieces
    simp [← hpieces] at hnonempty
  · intro piece hpiece
    rw [hpieces] at hpiece
    exact (forall_mem_splitOnP Piece.isBlank (pieces text) part hpart piece hpiece).1

/-- A word is not lost where pieces without any are dropped. -/
theorem IsSingleWord.isEmpty_pieces {word : Bytes} (h : IsSingleWord word) :
    (pieces word).isEmpty = false := by
  rw [List.isEmpty_eq_false_iff]
  intro hnone
  have hspell := spell_pieces word
  rw [hnone] at hspell
  exact h.1 hspell.symm

theorem IsSingleWord.words_eq {word : Bytes} (h : IsSingleWord word) : words word = [word] := by
  simp [words, List.splitOnP_eq_singleton h.2, h.isEmpty_pieces]

theorem IsSingleWord.words_append_tab {word : Bytes} (h : IsSingleWord word) (rest : Bytes) :
    words (word ++ Ascii.tab :: rest) = word :: words rest := by
  have htab : Ascii.tab < 0x80 := by decide
  have hblank : Piece.isBlank (.char (Char.ofNat Ascii.tab.toNat) [Ascii.tab]) = true := by decide
  have hsplit : (pieces (word ++ Ascii.tab :: rest)).splitOnP Piece.isBlank =
      pieces word :: (pieces rest).splitOnP Piece.isBlank := by
    rw [pieces_append_cons_of_ascii htab, pieces_cons_of_ascii htab,
      List.splitOnP_append_cons_of_forall_mem h.2 _ hblank]
  simp [words, hsplit, h.isEmpty_pieces]

/-- White space behind a text adds no word. -/
theorem words_append_blank {b : UInt8} (hascii : b < 0x80)
    (hblank : isBlank (Char.ofNat b.toNat) = true)
    (text : Bytes) : words (text ++ [b]) = words text := by
  have hpiece : Piece.isBlank (.char (Char.ofNat b.toNat) [b]) = true := hblank
  have hsplit : (pieces (text ++ [b])).splitOnP Piece.isBlank =
      (pieces text).splitOnP Piece.isBlank ++ [[]] := by
    rw [pieces_append_cons_of_ascii hascii, pieces_cons_of_ascii hascii, pieces_nil,
      List.splitOnP_append_cons _ _ hpiece, List.splitOnP_nil]
  simp [words, hsplit]

/-- White space that is trimmed from the end of a text takes no word with it. -/
theorem words_dropTrailing {b : UInt8} (hascii : b < 0x80)
    (hblank : isBlank (Char.ofNat b.toNat) = true)
    (text : Bytes) : words (dropTrailing b text) = words text := by
  have hcopies : ∀ kept count, words (kept ++ List.replicate count b) = words kept := by
    intro kept count
    induction count with
    | zero => rw [List.replicate_zero, List.append_nil]
    | succ count ih =>
      rw [List.replicate_succ', ← List.append_assoc, words_append_blank hascii hblank, ih]
  obtain ⟨count, htext⟩ := exists_eq_dropTrailing_append b text
  calc words (dropTrailing b text) = words (dropTrailing b text ++ List.replicate count b) :=
    (hcopies _ count).symm
    _ = words text := by rw [← htext]

/-- The words of a line do not depend on the carriage returns at its end. -/
theorem words_dropTrailing_return (line : Bytes) :
    words (dropTrailing Ascii.carriageReturn line) = words line :=
  words_dropTrailing (by decide) (by decide) line

/-- Words with tabs between them are the words of the whole. -/
theorem words_intercalate_tab {fields : List Bytes} (h : ∀ field ∈ fields, IsSingleWord field) :
    words ([Ascii.tab].intercalate fields) = fields := by
  induction fields with
  | nil => rfl
  | cons field fields ih =>
    have hfield := h field List.mem_cons_self
    have hrest := ih fun other hother => h other (List.mem_cons_of_mem field hother)
    cases fields with
    | nil => rw [List.intercalate_singleton, hfield.words_eq]
    | cons next fields =>
      rw [List.intercalate_cons_cons, List.append_assoc, List.singleton_append,
        hfield.words_append_tab, hrest]

end TwoPass
