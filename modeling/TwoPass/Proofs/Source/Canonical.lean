import TwoPass.Proofs.Source.Fields
import TwoPass.Proofs.Text.Lines
import TwoPass.Proofs.Text.Pieces

set_option autoImplicit false

/-!
# Canonical lines

A statement can be written in many ways.  Its label or its last fields may be left out, words may
follow that are ignored, and any white space may stand between.  On its canonical line all three
fields are written out, absent ones too, with tabs between them.  Such a line has three words, so
nothing is put in and nothing is dropped: it is read as the statement it was made from.
-/

namespace TwoPass

namespace Statement

variable {table : Opcode.Table} {s : Statement}

/-! ## Statements apart from where they stand -/

/-- The three fields of a statement. -/
def fields (s : Statement) : List Bytes := [s.label, s.mnemonic, s.operand]

/-- A statement with its position changed. -/
def renumber (f : Position → Position) (s : Statement) : Statement :=
  { s with position := f s.position }

/-- What every statement of a source is like, whatever its line looks like. -/
structure Regular (table : Opcode.Table) (s : Statement) : Prop where
  /-- its fields are words -/
  words : ∀ field ∈ s.fields, IsSingleWord field
  /-- its label does not start a comment -/
  comment : isComment s.fields = false
  /-- its operation is the one that its mnemonic names -/
  operation : s.operation = Operation.ofMnemonic table s.mnemonic

theorem isSingleWord_absent : IsSingleWord absent := by
  refine ⟨?_, ?_⟩ <;> decide

/-- A field is a word of the line or absent. -/
theorem isSingleWord_getD_withLabel (line : Bytes) (n : Nat) :
    IsSingleWord ((withLabel table (words line))[n]?.getD absent) := by
  cases hfield : (withLabel table (words line))[n]? with
  | none => exact isSingleWord_absent
  | some field =>
    rcases mem_of_mem_withLabel (List.mem_of_getElem? hfield) with rfl | hword
    · exact isSingleWord_absent
    · exact isSingleWord_of_mem_words hword

/-- Whether words are a comment is seen from the first of them. -/
theorem isComment_cons (first : Bytes) (rest rest' : List Bytes) :
    isComment (first :: rest) = isComment (first :: rest') := by
  cases first <;> rfl

theorem regular_of_ofLine? {position : Position} {line : Bytes}
    (h : ofLine? table position line = some s) :
    s.Regular table := by
  have hfields : (words line).isEmpty = false ∧ isComment (words line) = false := by
    simp only [ofLine?] at h
    split at h
    · simp at h
    · rename_i hstatement
      simpa using hstatement
  obtain rfl := eq_of_ofLine?_eq_some h
  refine ⟨?_, ?_, rfl⟩
  · intro field hfield
    simp only [fields, ofFields, List.mem_cons, List.not_mem_nil, or_false] at hfield
    rcases hfield with rfl | rfl | rfl <;> exact isSingleWord_getD_withLabel line _
  · cases hwords : words line with
    | nil => simp [hwords] at hfields
    | cons first rest =>
      have hfirst : isComment (first :: rest) = false := hwords ▸ hfields.2
      unfold withLabel
      split
      · split
        · rfl
        · rename_i first' rest' heq _
          obtain ⟨rfl, rfl⟩ := List.cons.inj heq
          exact (isComment_cons _ _ _).trans hfirst
      · rfl

theorem regular_of_mem_ofLines {source : Bytes} {lines : List Bytes}
    (h : s ∈ ofLines table source lines) :
    s.Regular table := by
  obtain ⟨_, _, _, hline⟩ := exists_number_of_mem_ofLines h
  exact regular_of_ofLine? hline

/-! ## The canonical line -/

/-- The line on which all fields of a statement are written out. -/
def canonicalLine (s : Statement) : Bytes := [Ascii.tab].intercalate s.fields

theorem canonicalLine_eq (s : Statement) :
    s.canonicalLine = s.label ++ Ascii.tab :: (s.mnemonic ++ Ascii.tab :: s.operand) := by
  simp [canonicalLine, fields, List.intercalate]

/-- The canonical line of a statement is read as that statement. -/
theorem Regular.ofLine?_canonicalLine (h : s.Regular table) (position : Position) :
    ofLine? table position s.canonicalLine = some (s.renumber fun _ => position) := by
  have hwords : TwoPass.words s.canonicalLine = s.fields := words_intercalate_tab h.words
  -- a label is put in on lines of one or two words only, and here are three
  have hkept : withLabel table s.fields = s.fields := by simp [withLabel, fields]
  simp only [ofLine?, hwords, h.comment, hkept]
  simp [ofFields, fields, renumber, ← h.operation]

/-- The canonical line of a statement is one line, and no byte of it is dropped. -/
theorem Regular.isLine_canonicalLine (h : s.Regular table) :
    Ascii.newline ∉ s.canonicalLine ∧ dropReturn s.canonicalLine = s.canonicalLine := by
  have hplain : ∀ field ∈ s.fields, IsPlain field := by
    intro field hfield
    have hword : field ∈ TwoPass.words field := by
      rw [(h.words field hfield).words_eq]
      exact List.mem_singleton_self field
    exact isPlain_of_mem_words hword
  obtain ⟨hlabel, hmnemonic, hoperand⟩ : IsPlain s.label ∧ IsPlain s.mnemonic ∧
      IsPlain s.operand := by
    simpa [fields] using hplain
  have hnewline : Ascii.newline ≠ Ascii.tab := by decide
  have hreturn : Ascii.carriageReturn ≠ Ascii.tab := by decide
  refine ⟨?_, dropReturn_of_getLast?_ne fun hlast => ?_⟩
  · simp [canonicalLine_eq, hlabel.1, hmnemonic.1, hoperand.1, hnewline]
  · have hmem := List.mem_of_getLast? hlast
    simp [canonicalLine_eq, hlabel.2.1, hmnemonic.2.1, hoperand.2.1, hreturn] at hmem

/-- The text of the canonical lines of statements. -/
def canonicalSource (statements : List Statement) : Bytes :=
  terminated (statements.map canonicalLine)

/-- A canonical source is delivered line by line. -/
theorem read_canonicalSource {statements : List Statement} (h : ∀ s ∈ statements, s.Regular table)
    (hfits : ∀ s ∈ statements, s.canonicalLine.length < lineLimit) :
    (Input.ofBytes (canonicalSource statements)).read = ⟨statements.map canonicalLine, none⟩ := by
  rw [canonicalSource, read_terminated, List.map_map]
  · congr 1
    exact List.map_congr_left fun s hs => (h s hs).isLine_canonicalLine.2
  · simpa using fun s hs => (h s hs).isLine_canonicalLine.1
  · simpa using hfits

/-- Its statements are those it was made from, each on its own line. -/
theorem ofLines_canonicalLines {statements : List Statement} (h : ∀ s ∈ statements, s.Regular table)
    (name : Bytes) :
    ofLines table name (statements.map canonicalLine) =
      (statements.zipIdx 1).map fun (s, number) => s.renumber fun _ => ⟨name, number⟩ := by
  rw [ofLines, List.zipIdx_map, List.filterMap_map, ← List.filterMap_eq_map]
  refine List.filterMap_congr fun entry hentry => ?_
  exact (h entry.1 (List.fst_mem_of_mem_zipIdx hentry)).ofLine?_canonicalLine _

/-! ## Positions -/

/-- No two statements of a source stand on the same line. -/
theorem nodup_positions (table : Opcode.Table) (source : Bytes) (lines : List Bytes) :
    ((ofLines table source lines).map position).Nodup := by
  have hnumbers : (lines.zipIdx 1).Pairwise fun a b => a.2 ≠ b.2 := by
    have hrange : ((lines.zipIdx 1).map Prod.snd).Nodup := by
      rw [List.zipIdx_map_snd]
      exact List.nodup_range'
    exact List.pairwise_map.mp hrange
  refine List.pairwise_map.mpr (List.pairwise_filterMap.mpr (hnumbers.imp ?_))
  intro a b hne s hs t ht hposition
  obtain rfl := eq_of_ofLine?_eq_some hs
  obtain rfl := eq_of_ofLine?_eq_some ht
  have hline : (a.2 : Int) = b.2 := congrArg Position.line hposition
  exact hne (by exact_mod_cast hline)

/-- Statements with the same fields are the same, except that they may stand elsewhere. -/
theorem exists_eq_map_renumber {statements : List Statement}
    (hnodup : (statements.map position).Nodup) (h : ∀ s ∈ statements, s.Regular table) :
    ∀ {others : List Statement}, (∀ s ∈ others, s.Regular table) →
      others.map fields = statements.map fields →
      ∃ f, others = statements.map (renumber f) := by
  induction statements with
  | nil =>
    intro others _ hfields
    exact ⟨id, by simpa using hfields⟩
  | cons s rest ih =>
    intro others hothers hfields
    obtain ⟨t, others, rfl, ht, hrest⟩ := List.map_eq_cons_iff.mp hfields
    rw [List.map_cons, List.nodup_cons] at hnodup
    obtain ⟨f, rfl⟩ := ih hnodup.2 (fun s hs => h s (List.mem_cons_of_mem _ hs))
      (fun s hs => hothers s (List.mem_cons_of_mem _ hs)) hrest
    -- the first statement's position is no other's, so it can be given a value of its own
    refine ⟨Function.update f s.position t.position, ?_⟩
    have hfirst : t = s.renumber (Function.update f s.position t.position) := by
      have hs := (h s List.mem_cons_self).operation
      have hoperation := (hothers t List.mem_cons_self).operation
      obtain ⟨hlabel, hmnemonic, hoperand⟩ : t.label = s.label ∧ t.mnemonic = s.mnemonic ∧
          t.operand = s.operand := by
        simpa [fields] using ht
      cases t
      simp_all [renumber]
    rw [List.map_cons, ← hfirst]
    congr 1
    refine List.map_congr_left fun other hother => ?_
    have hne : other.position ≠ s.position := fun heq =>
      hnodup.1 (heq ▸ List.mem_map.mpr ⟨other, hother, rfl⟩)
    simp [renumber, Function.update_of_ne hne]

/-- Canonical lines hold the statements that they were made from, each on its own line. -/
theorem exists_renumber_canonicalLines {statements : List Statement}
    (hnodup : (statements.map position).Nodup)
    (h : ∀ s ∈ statements, s.Regular table) (name : Bytes) :
    ∃ f, ofLines table name (statements.map canonicalLine) = statements.map (renumber f) ∧
      ∀ (i : Nat) (s : Statement), statements[i]? = some s → f s.position = ⟨name, i + 1⟩ := by
  have hlines := ofLines_canonicalLines h name
  have hfields : (ofLines table name (statements.map canonicalLine)).map fields =
      statements.map fields := by
    rw [hlines, List.map_map]
    calc (statements.zipIdx 1).map _ = ((statements.zipIdx 1).map Prod.fst).map fields := by
          rw [List.map_map]
          rfl
      _ = statements.map fields := by rw [List.zipIdx_map_fst]
  obtain ⟨f, hf⟩ := exists_eq_map_renumber hnodup h (fun s hs => regular_of_mem_ofLines hs) hfields
  refine ⟨f, hf, fun i s hs => ?_⟩
  have hat : (statements.map (renumber f))[i]? =
      ((statements.zipIdx 1).map fun (s, number) => s.renumber fun _ => ⟨name, number⟩)[i]? := by
    rw [← hf, hlines]
  simp only [List.getElem?_map, List.getElem?_zipIdx, hs, Option.map_some, Option.some.injEq] at hat
  have hposition := congrArg position hat
  simpa [renumber, Int.add_comm] using hposition

end Statement

end TwoPass
