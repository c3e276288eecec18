import TwoPass.Text.Blank

set_option autoImplicit false

/-!
# The ASCII bytes of words

Bytes below 0x80 never belong to a longer sequence: such a byte is a piece of its own wherever it
stands.  So a word, which holds no white space piece, holds none of the ASCII white space bytes, and
in particular none of the bytes that end or trim a line.
-/

namespace TwoPass

/-! ## Cutting a list -/

/-- What lies between two cuts does not hold the element that is cut at. -/
theorem forall_mem_splitOnP {α : Type} (p : α → Bool) (xs : List α) :
    ∀ part ∈ xs.splitOnP p, ∀ x ∈ part, p x = false ∧ x ∈ xs := by
  induction xs with
  | nil =>
    intro part hpart x hx
    rw [List.splitOnP_nil, List.mem_singleton] at hpart
    rw [hpart] at hx
    exact absurd hx List.not_mem_nil
  | cons y ys ih =>
    intro part hpart x hx
    have hlater : ∀ part ∈ ys.splitOnP p, ∀ x ∈ part, p x = false ∧ x ∈ y :: ys := by
      intro part hpart x hx
      exact ⟨(ih part hpart x hx).1, List.mem_cons_of_mem y (ih part hpart x hx).2⟩
    rw [List.splitOnP_cons_eq_if_modifyHead] at hpart
    split at hpart
    · rcases List.mem_cons.mp hpart with rfl | hpart
      · exact absurd hx List.not_mem_nil
      · exact hlater part hpart x hx
    · rename_i hy
      cases hparts : ys.splitOnP p with
      | nil => exact absurd hparts (List.splitOnP_ne_nil p ys)
      | cons first parts =>
        rw [hparts, List.modifyHead_cons] at hpart
        rcases List.mem_cons.mp hpart with rfl | hpart
        · rcases List.mem_cons.mp hx with rfl | hx
          · exact ⟨by simpa using hy, List.mem_cons_self⟩
          · exact hlater first (by rw [hparts]; exact List.mem_cons_self) x hx
        · exact hlater part (by rw [hparts]; exact List.mem_cons_of_mem first hpart) x hx

/-- The parts between two cuts at a byte do not hold that byte. -/
theorem not_mem_of_mem_splitOn {b : UInt8} {text part : Bytes} (h : part ∈ text.splitOn b) :
    b ∉ part := by
  intro hb
  have hne := (forall_mem_splitOnP (· == b) text part h b hb).1
  simp at hne

/-! ## Pieces -/

/-- An ASCII byte at the front is a character of one byte. -/
theorem leadingChar?_of_ascii {b : UInt8} (hascii : b < 0x80) (rest : Bytes) :
    leadingChar? (b :: rest) = some (Char.ofNat b.toNat, 1) := by
  have hlt : b.toNat < 128 := UInt8.lt_iff_toNat_lt.mp hascii
  have hvalid : b.toNat.isValidChar := Or.inl (by omega)
  simp [leadingChar?, Lead.ofByte?, hascii, hvalid]

/-- Behind its first byte, a longer sequence holds no ASCII byte. -/
theorem not_ascii_of_leadingChar? {first b : UInt8} {rest : Bytes} {c : Char} {width : Nat}
    (h : leadingChar? (first :: rest) = some (c, width)) (hb : b ∈ rest.take (width - 1)) :
    ¬ b < 0x80 := by
  simp only [leadingChar?] at h
  split at h
  · simp at h
  · rename_i lead _
    split at h
    · rename_i hvalid
      obtain ⟨_, rfl⟩ := Prod.mk.inj (Option.some.inj h)
      have hcontinues := List.all_eq_true.mp hvalid.2.1 b (by simpa using hb)
      simp only [isContinuation, Bool.and_eq_true, decide_eq_true_eq] at hcontinues
      exact UInt8.not_lt.mpr hcontinues.1
    · simp at h

/-- An ASCII byte stands alone in its piece. -/
theorem piece_eq_of_ascii_mem_piecesFrom {text : Bytes} {skip : Nat} {piece : Piece} {b : UInt8}
    (hpiece : piece ∈ piecesFrom skip text []) (hb : b ∈ piece.bytes) (hascii : b < 0x80) :
    piece = .char (Char.ofNat b.toNat) [b] := by
  induction text generalizing skip with
  | nil => simp [piecesFrom] at hpiece
  | cons first rest ih =>
    cases skip with
    | succ skip => exact ih hpiece
    | zero =>
      simp only [piecesFrom] at hpiece
      split at hpiece
      · rename_i c width hlead
        rw [piecesFrom_eq_append, List.mem_append] at hpiece
        rcases hpiece with hpiece | hpiece
        · simp only [List.reverse_singleton, List.mem_singleton] at hpiece
          subst hpiece
          obtain ⟨hpositive, _⟩ := leadingChar?_width hlead
          obtain ⟨more, rfl⟩ : ∃ more, width = more + 1 := ⟨width - 1, by omega⟩
          simp only [Piece.bytes, List.take_succ_cons, List.mem_cons] at hb
          rcases hb with rfl | hb
          · rw [leadingChar?_of_ascii hascii] at hlead
            simp only [Option.some.injEq, Prod.mk.injEq] at hlead
            simp [← hlead.1, ← hlead.2]
          · exact absurd hascii (not_ascii_of_leadingChar? hlead (by simpa using hb))
        · exact ih hpiece
      · rename_i hlead
        rw [piecesFrom_eq_append, List.mem_append] at hpiece
        rcases hpiece with hpiece | hpiece
        · simp only [List.reverse_singleton, List.mem_singleton] at hpiece
          subst hpiece
          simp only [Piece.bytes, List.mem_singleton] at hb
          rw [← hb, leadingChar?_of_ascii hascii] at hlead
          simp at hlead
        · exact ih hpiece

/-- A text that starts with an ASCII byte starts with that byte as a piece. -/
theorem pieces_cons_of_ascii {b : UInt8} (hascii : b < 0x80) (rest : Bytes) :
    pieces (b :: rest) = .char (Char.ofNat b.toNat) [b] :: pieces rest := by
  simp only [pieces, piecesFrom, leadingChar?_of_ascii hascii]
  rw [piecesFrom_eq_append]
  rfl

/-! ## Blanks and words -/

/-- A text with an ASCII byte in front that is no white space is not blank. -/
theorem isBlankText_cons_of_ascii {b : UInt8} (hascii : b < 0x80)
    (hblank : isBlank (Char.ofNat b.toNat) = false) (rest : Bytes) :
    isBlankText (b :: rest) = false := by
  simp [isBlankText, pieces_cons_of_ascii hascii, Piece.isBlank, hblank]

/-- The ASCII bytes of a word are not white space. -/
theorem isBlank_eq_false_of_mem_words {text word : Bytes} {b : UInt8} (hword : word ∈ words text)
    (hb : b ∈ word) (hascii : b < 0x80) : isBlank (Char.ofNat b.toNat) = false := by
  simp only [words, List.mem_map, List.mem_filter] at hword
  obtain ⟨part, ⟨hpart, _⟩, rfl⟩ := hword
  obtain ⟨piece, hpiece, hbytes⟩ := List.mem_flatMap.mp hb
  obtain ⟨hblank, hmem⟩ := forall_mem_splitOnP Piece.isBlank (pieces text) part hpart piece hpiece
  rw [piece_eq_of_ascii_mem_piecesFrom hmem hbytes hascii] at hblank
  exact hblank

/-- A text without the bytes that the formats give a meaning at the end of a line or of a field. -/
def IsPlain (text : Bytes) : Prop :=
  Ascii.newline ∉ text ∧ Ascii.carriageReturn ∉ text ∧ Ascii.space ∉ text

/-- Words are plain. -/
theorem isPlain_of_mem_words {text word : Bytes} (hword : word ∈ words text) : IsPlain word := by
  have hblank := fun b hb hascii => isBlank_eq_false_of_mem_words (b := b) hword hb hascii
  refine ⟨?_, ?_, ?_⟩
  · intro hb
    exact absurd (hblank _ hb (by decide)) (by decide)
  · intro hb
    exact absurd (hblank _ hb (by decide)) (by decide)
  · intro hb
    exact absurd (hblank _ hb (by decide)) (by decide)

end TwoPass
