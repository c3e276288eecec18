import Mathlib.Data.List.Induction
import TwoPass.Opcode.Table
import TwoPass.Proofs.LastElement
import TwoPass.Proofs.Text.Lines
import TwoPass.Proofs.Text.Pieces

set_option autoImplicit false

/-!
# Opcode tables after any changes

What a table says of a mnemonic is decided by the last change that concerns it: that sets its
opcode, or reads the table anew.  Of a text that was read, the last line with an entry for the
mnemonic decides, and a text that cannot be read to its end says nothing, whatever stands on its
earlier lines.
-/

namespace TwoPass

/-! ## Inputs -/

/-- An input that can be read to its end: it does not break off, and every line fits the line
buffer. -/
def Input.Readable (input : Input) : Prop :=
  input.fault = none ∧ ∀ line ∈ input.text.splitOn Ascii.newline, line.length < lineLimit

theorem Input.readable_iff {input : Input} : input.Readable ↔ input.read.fault = none := by
  rw [Input.Readable, Input.fault_read_eq_none_iff]
  rcases splitOn_eq_rawLines_or input.text with h | h
  · rw [h]
  · rw [h, List.forall_mem_append, List.forall_mem_singleton]
    simp [lineLimit]

/-- A carriage return at the end of a line makes no difference to its words. -/
theorem words_dropReturn (line : Bytes) : words (dropReturn line) = words line := by
  rw [← words_dropTrailing_return, dropTrailing_dropReturn, words_dropTrailing_return]

namespace Opcode.Table

/-! ## Lines -/

theorem entry?_eq_some_iff {line mnemonic opcode : Bytes} :
    entry? line = some (mnemonic, opcode) ↔ words line = [mnemonic, opcode] := by
  unfold entry?
  split <;> simp_all

/-- The opcode that lines give a mnemonic: the second word of the last line that has exactly two
words, the first of them the mnemonic. -/
def Lists (lines : List Bytes) (mnemonic opcode : Bytes) : Prop :=
  ∃ line, IsLast (fun line => ∃ opcode, words line = [mnemonic, opcode]) lines line ∧
    words line = [mnemonic, opcode]

theorem not_lists_nil {mnemonic opcode : Bytes} : ¬ Lists [] mnemonic opcode := by
  rintro ⟨line, hlast, _⟩
  exact not_isLast_nil hlast

theorem lists_append_singleton {lines : List Bytes} {line mnemonic opcode : Bytes} :
    Lists (lines ++ [line]) mnemonic opcode ↔
      words line = [mnemonic, opcode] ∨ (∀ other, words line ≠ [mnemonic, other]) ∧
      Lists lines mnemonic opcode := by
  simp only [Lists, isLast_append_singleton, not_exists]
  constructor
  · rintro ⟨last, ⟨_, rfl⟩ | ⟨hnone, hlast⟩, hwords⟩
    · exact Or.inl hwords
    · exact Or.inr ⟨hnone, last, hlast, hwords⟩
  · rintro (hwords | ⟨hnone, last, hlast, hwords⟩)
    · exact ⟨line, Or.inl ⟨⟨opcode, hwords⟩, rfl⟩, hwords⟩
    · exact ⟨last, Or.inr ⟨hnone, hlast⟩, hwords⟩

/-- A table holds what its lines list. -/
theorem opcode?_ofLines_iff {lines : List Bytes} {mnemonic opcode : Bytes} :
    (ofLines lines).opcode? mnemonic = some opcode ↔ Lists lines mnemonic opcode := by
  induction lines using List.reverseRecOn with
  | nil => simp [ofLines, not_lists_nil]
  | append_singleton lines line ih =>
    rw [lists_append_singleton, ← ih]
    cases hentry : entry? line with
    | none =>
      have hnone : ∀ other, words line ≠ [mnemonic, other] := by
        intro other hwords
        rw [entry?_eq_some_iff.mpr hwords] at hentry
        simp at hentry
      simp [ofLines, addLine, hentry, hnone]
    | some entry =>
      obtain ⟨m, code⟩ := entry
      have hwords := entry?_eq_some_iff.mp hentry
      have hinsert : ofLines (lines ++ [line]) = (ofLines lines).insert m code := by
        simp [ofLines, addLine, hentry]
      rw [hinsert, opcode?_insert, hwords]
      by_cases hm : m = mnemonic <;> simp [hm]

/-- What lines list is not changed by carriage returns at their ends. -/
theorem lists_map_dropReturn {lines : List Bytes} {mnemonic opcode : Bytes} :
    Lists (lines.map dropReturn) mnemonic opcode ↔ Lists lines mnemonic opcode := by
  induction lines using List.reverseRecOn with
  | nil => rfl
  | append_singleton lines line ih =>
    rw [List.map_append, List.map_singleton, lists_append_singleton, lists_append_singleton,
      words_dropReturn, ih]

/-- Nor by an empty rest behind them. -/
theorem lists_splitOn {text mnemonic opcode : Bytes} :
    Lists (text.splitOn Ascii.newline) mnemonic opcode ↔ Lists (rawLines text) mnemonic opcode := by
  rcases splitOn_eq_rawLines_or text with h | h
  · rw [h]
  · have hwords : words [] = [] := rfl
    rw [h, lists_append_singleton, hwords]
    simp

/-! ## Reading -/

theorem load_of_readable {input : Input} (h : input.Readable) :
    load input = (ofLines input.read.lines, none) := by
  rw [load, Input.readable_iff.mp h]

/-- What was read before a fault is lost. -/
theorem load_of_not_readable {input : Input} (h : ¬ input.Readable) :
    ∃ fault, load input = (empty, some fault) := by
  rw [Input.readable_iff] at h
  obtain ⟨fault, hfault⟩ := Option.ne_none_iff_exists'.mp h
  exact ⟨fault, by rw [load, hfault]⟩

/-- A table that is read is the one that the lines describe. -/
theorem read_eq_ok_iff {input : Input} {table : Table} :
    read input = .ok table ↔ input.Readable ∧ ofLines input.read.lines = table := by
  by_cases hreadable : input.Readable
  · simp [read, load_of_readable hreadable, hreadable]
  · obtain ⟨fault, hload⟩ := load_of_not_readable hreadable
    simp [read, hload, hreadable]

/-- Reading fails just if the input cannot be read to its end. -/
theorem exists_read_eq_error_iff {input : Input} :
    (∃ fault, read input = .error fault) ↔ ¬ input.Readable := by
  constructor
  · rintro ⟨fault, hread⟩ hreadable
    have hok := read_eq_ok_iff.mpr ⟨hreadable, rfl⟩
    rw [hread] at hok
    cases hok
  · intro hreadable
    obtain ⟨fault, hload⟩ := load_of_not_readable hreadable
    exact ⟨fault, by rw [read, hload]⟩

/-- A table that is read holds what the lines of the text list. -/
theorem opcode?_reload_iff {table : Table} {input : Input} {mnemonic opcode : Bytes} :
    (table.change (.reload input)).opcode? mnemonic = some opcode ↔
      input.Readable ∧ Lists (input.text.splitOn Ascii.newline) mnemonic opcode := by
  by_cases hreadable : input.Readable
  · have hfault := Input.readable_iff.mp hreadable
    have hlines := Input.lines_read (Input.fault_read_eq_none_iff.mp hfault).2
    have hread : table.change (.reload input) = ofLines ((rawLines input.text).map dropReturn) := by
      rw [change, load_of_readable hreadable, hlines]
    rw [hread, opcode?_ofLines_iff, lists_map_dropReturn, lists_splitOn]
    exact (and_iff_right hreadable).symm
  · obtain ⟨fault, hload⟩ := load_of_not_readable hreadable
    have hempty : table.change (.reload input) = empty := by rw [change, hload]
    simp [hempty, hreadable]

/-! ## Changes -/

/-- The table after changes, the first of which finds it empty. -/
def after (changes : List Change) : Table := changes.foldl change empty

theorem after_append_singleton (changes : List Change) (c : Change) :
    after (changes ++ [c]) = (after changes).change c := by
  simp [after]

/-- A change that concerns a mnemonic: it sets its opcode, or reads the table anew. -/
def Change.Concerns (mnemonic : Bytes) : Change → Prop
  | .set m _ => m = mnemonic
  | .reload _ => True

/-- The opcode that changes leave a mnemonic with. -/
inductive Leaves (changes : List Change) (mnemonic opcode : Bytes) : Prop where
  /-- the last change that concerns it has set the opcode -/
  | set : IsLast (Change.Concerns mnemonic) changes (.set mnemonic opcode) →
    Leaves changes mnemonic opcode
  /-- the last change that concerns it has read a text to its end, and the opcode is listed there -/
  | reload {input : Input} :
    IsLast (Change.Concerns mnemonic) changes (.reload input) → input.Readable →
      Lists (input.text.splitOn Ascii.newline) mnemonic opcode → Leaves changes mnemonic opcode

theorem not_leaves_nil {mnemonic opcode : Bytes} : ¬ Leaves [] mnemonic opcode := by
  rintro (hlast | ⟨hlast, _, _⟩)
  · exact not_isLast_nil hlast
  · exact not_isLast_nil hlast

theorem leaves_append_set {changes : List Change} {m code mnemonic opcode : Bytes} :
    Leaves (changes ++ [.set m code]) mnemonic opcode ↔
      m = mnemonic ∧ code = opcode ∨ m ≠ mnemonic ∧ Leaves changes mnemonic opcode := by
  constructor
  · rintro (hlast | ⟨hlast, hreadable, hlists⟩)
    · rcases isLast_append_singleton.mp hlast with ⟨_, heq⟩ | ⟨hne, hlast⟩
      · obtain ⟨rfl, rfl⟩ := Change.set.inj heq
        exact Or.inl ⟨rfl, rfl⟩
      · exact Or.inr ⟨hne, .set hlast⟩
    · rcases isLast_append_singleton.mp hlast with ⟨_, heq⟩ | ⟨hne, hlast⟩
      · cases heq
      · exact Or.inr ⟨hne, .reload hlast hreadable hlists⟩
  · rintro (⟨rfl, rfl⟩ | ⟨hne, hlast | ⟨hlast, hreadable, hlists⟩⟩)
    · exact .set (isLast_append_singleton.mpr (Or.inl ⟨rfl, rfl⟩))
    · exact .set (isLast_append_singleton.mpr (Or.inr ⟨hne, hlast⟩))
    · exact .reload (isLast_append_singleton.mpr (Or.inr ⟨hne, hlast⟩)) hreadable hlists

theorem leaves_append_reload {changes : List Change} {input : Input} {mnemonic opcode : Bytes} :
    Leaves (changes ++ [.reload input]) mnemonic opcode ↔
      input.Readable ∧ Lists (input.text.splitOn Ascii.newline) mnemonic opcode := by
  have hconcerns : (Change.reload input).Concerns mnemonic := trivial
  constructor
  · rintro (hlast | ⟨hlast, hreadable, hlists⟩)
    · rcases isLast_append_singleton.mp hlast with ⟨_, heq⟩ | ⟨hnot, _⟩
      · cases heq
      · exact absurd hconcerns hnot
    · rcases isLast_append_singleton.mp hlast with ⟨_, heq⟩ | ⟨hnot, _⟩
      · obtain rfl := Change.reload.inj heq
        exact ⟨hreadable, hlists⟩
      · exact absurd hconcerns hnot
  · rintro ⟨hreadable, hlists⟩
    exact .reload (isLast_append_singleton.mpr (Or.inl ⟨hconcerns, rfl⟩)) hreadable hlists

/-- A table holds what the changes leave. -/
theorem opcode?_after_iff {changes : List Change} {mnemonic opcode : Bytes} :
    (after changes).opcode? mnemonic = some opcode ↔ Leaves changes mnemonic opcode := by
  induction changes using List.reverseRecOn with
  | nil => simp [after, not_leaves_nil]
  | append_singleton changes c ih =>
    rw [after_append_singleton]
    cases c with
    | set m code =>
      rw [leaves_append_set, ← ih, change, opcode?_insert]
      by_cases hm : m = mnemonic <;> simp [hm]
    | reload input => rw [leaves_append_reload, opcode?_reload_iff]

/-! ## Mnemonics -/

/-- Comparing byte strings is comparing them byte by byte. -/
theorem compare_eq_lt_iff : ∀ {a b : Bytes}, compare a b = .lt ↔ a < b
  | [], [] => by decide
  | [], y :: b => by simp [compare, List.compareLex]
  | x :: a, [] => by simp [compare, List.compareLex]
  | x :: a, y :: b => by
    have hcompare : compare (x :: a) (y :: b) = (compare x y).then (compare a b) :=
      List.compareLex_cons_cons
    rw [hcompare, Ordering.then_eq_lt, Std.compare_eq_lt, Std.compare_eq_iff_eq, compare_eq_lt_iff,
      List.cons_lt_cons_iff]

theorem pairwise_mnemonics (table : Table) : table.mnemonics.Pairwise (· < ·) :=
  Std.TreeMap.ordered_keys.imp compare_eq_lt_iff.mp

/-- After any changes, a table gives every mnemonic the opcode that the changes leave it with, and
no other.  A text that cannot be read to its end leaves nothing at all.  The mnemonics are those
with an opcode, each of them once, in the order of their bytes. -/
theorem after_contents (changes : List Change) :
    (∀ mnemonic opcode, (after changes).opcode? mnemonic = some opcode ↔
      Leaves changes mnemonic opcode) ∧
    (∀ input : Input, ((∃ fault, read input = .error fault) ↔ ¬ input.Readable) ∧
      (¬ input.Readable → ∀ mnemonic, (after (changes ++ [.reload input])).opcode? mnemonic =
        none)) ∧
    (after changes).mnemonics.Pairwise (· < ·) ∧
    (∀ mnemonic, mnemonic ∈ (after changes).mnemonics ↔
      ∃ opcode, (after changes).opcode? mnemonic = some opcode) ∧
    (after changes).mnemonics.length = (after changes).size := by
  refine ⟨fun _ _ => opcode?_after_iff, ?_, pairwise_mnemonics _, ?_, length_mnemonics _⟩
  · intro input
    refine ⟨exists_read_eq_error_iff, fun hinput mnemonic => ?_⟩
    rw [Option.eq_none_iff_forall_ne_some]
    intro opcode hopcode
    rw [opcode?_after_iff, leaves_append_reload] at hopcode
    exact hinput hopcode.1
  · intro mnemonic
    rw [mem_mnemonics, Option.isSome_iff_exists]

/-- A table is read and changed.  The text has two entries for one mnemonic, a carriage return, and
lines without an entry. -/
def looseChanges : List Change :=
  [.set (utf8 "ADD") (utf8 "18"),
    .reload (.ofBytes (utf8 "LDA 03\r\nSTA\t0C\nJSUB 48 48\n  LDA  00 \nRSUB")),
    .set (utf8 "STA") (utf8 "zz")]

theorem after_contents_looseChanges :
    Leaves looseChanges (utf8 "LDA") (utf8 "00") ∧ Leaves looseChanges (utf8 "STA") (utf8 "zz") ∧
      (∀ opcode, ¬ Leaves looseChanges (utf8 "ADD") opcode) ∧
      (after (looseChanges ++ [.reload ⟨utf8 "TIX 2C\n", some .brokenOff⟩])).opcode? (utf8 "TIX") =
        none := by
  obtain ⟨hleaves, hfails, _⟩ := after_contents looseChanges
  refine ⟨(hleaves _ _).mp (by decide +kernel), (hleaves _ _).mp (by decide +kernel), ?_, ?_⟩
  · intro opcode
    have hnone : (after looseChanges).opcode? (utf8 "ADD") = none := by decide +kernel
    rw [← hleaves, hnone]
    simp
  · exact (hfails _).2 (fun hreadable => Option.some_ne_none _ hreadable.1) _

end Opcode.Table

end TwoPass
