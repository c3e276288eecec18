import TwoPass.Proofs.Opcode.Changes
import TwoPass.Proofs.Outcome
import TwoPass.Proofs.Text.Words
import TwoPass.Source.Statement

set_option autoImplicit false

/-!
# What statements take from their lines

Labels are taken over from the source as they stand, and opcodes from the text of the table.  Both
are words of some line, so neither holds a byte that ends a line or fills a name field.
-/

namespace TwoPass

/-! ## Fields -/

theorem isPlain_absent : IsPlain absent := by
  refine ⟨?_, ?_, ?_⟩ <;> decide

/-- The only field that is not on the line is the label where it was left out. -/
theorem Statement.mem_of_mem_withLabel {table : Opcode.Table} {fields : List Bytes} {field : Bytes}
    (h : field ∈ Statement.withLabel table fields) : field = absent ∨ field ∈ fields := by
  unfold Statement.withLabel at h
  split at h
  · split at h
    · exact List.mem_cons.mp h
    · exact Or.inr h
  · exact absurd h List.not_mem_nil

/-- The statement on a line is made of its words, and knows where it stands. -/
theorem Statement.eq_of_ofLine?_eq_some {table : Opcode.Table} {position : Position} {line : Bytes}
    {s : Statement} (h : Statement.ofLine? table position line = some s) :
    s = Statement.ofFields table position (Statement.withLabel table (words line)) := by
  simp only [Statement.ofLine?] at h
  split at h
  · simp at h
  · exact (Option.some.inj h).symm

/-- Every statement of a source is the one on some line, counted from one. -/
theorem Statement.exists_number_of_mem_ofLines {table : Opcode.Table} {source : Bytes}
    {lines : List Bytes} {s : Statement} (h : s ∈ Statement.ofLines table source lines) :
    ∃ (n : Nat) (line : Bytes), lines[n]? = some line ∧
      Statement.ofLine? table ⟨source, n + 1⟩ line = some s := by
  obtain ⟨⟨line, number⟩, hmem, hline⟩ := List.mem_filterMap.mp h
  obtain ⟨n, hn, rfl⟩ : ∃ n, lines[n]? = some line ∧ number = n + 1 := by
    obtain ⟨hle, hget⟩ := List.mk_mem_zipIdx_iff_le_and_getElem?_sub.mp hmem
    exact ⟨number - 1, hget, by omega⟩
  exact ⟨n, line, hn, hline⟩

/-- Every statement of a source stands on one of its lines. -/
theorem Statement.exists_line_of_mem_ofLines {table : Opcode.Table} {source : Bytes}
    {lines : List Bytes} {s : Statement} (h : s ∈ Statement.ofLines table source lines) :
    ∃ line ∈ lines, ∃ position, s = Statement.ofFields table position
      (Statement.withLabel table (words line)) := by
  obtain ⟨n, line, hline, hs⟩ := Statement.exists_number_of_mem_ofLines h
  exact ⟨line, List.mem_of_getElem? hline, _, Statement.eq_of_ofLine?_eq_some hs⟩

/-- Labels are plain. -/
theorem Statement.isPlain_label {table : Opcode.Table} {source : Bytes} {lines : List Bytes}
    {s : Statement} (h : s ∈ Statement.ofLines table source lines) : IsPlain s.label := by
  obtain ⟨line, _, position, rfl⟩ := Statement.exists_line_of_mem_ofLines h
  show IsPlain ((Statement.withLabel table (words line))[0]?.getD absent)
  cases hfield : (Statement.withLabel table (words line))[0]? with
  | none => exact isPlain_absent
  | some field =>
    rcases Statement.mem_of_mem_withLabel (List.mem_of_getElem? hfield) with rfl | hword
    · exact isPlain_absent
    · exact isPlain_of_mem_words hword

/-! ## Opcodes -/

/-- Instructions are the mnemonics of the table. -/
theorem Operation.opcode?_of_ofMnemonic {table : Opcode.Table} {mnemonic opcode : Bytes}
    (h : Operation.ofMnemonic table mnemonic = .instruction opcode) :
    table.opcode? mnemonic = some opcode := by
  unfold Operation.ofMnemonic Operation.named? at h
  split at h
  · rename_i directive hdirective
    obtain ⟨front, back, hsplit, _⟩ := List.lookup_eq_some_iff.mp hdirective
    have hmem : (mnemonic, directive) ∈ Operation.directives := by
      rw [hsplit]
      simp
    simp only [Option.getD_some] at h
    simp [Operation.directives, h] at hmem
  · cases hopcode : table.opcode? mnemonic with
    | none => simp [hopcode] at h
    | some code => simpa [hopcode] using h

/-- The operation of a statement is the one that its mnemonic names. -/
theorem Statement.opcode?_mnemonic {table : Opcode.Table} {source : Bytes} {lines : List Bytes}
    {s : Statement} (h : s ∈ Statement.ofLines table source lines) {opcode : Bytes}
    (hoperation : s.operation = .instruction opcode) : table.opcode? s.mnemonic = some opcode := by
  obtain ⟨line, _, position, rfl⟩ := Statement.exists_line_of_mem_ofLines h
  exact Operation.opcode?_of_ofMnemonic hoperation

/-- The opcodes of a table that is read are plain. -/
theorem Opcode.Table.isPlain_opcode {input : Input} {table : Opcode.Table}
    (hread : Opcode.Table.read input = .ok table) {mnemonic opcode : Bytes}
    (h : table.opcode? mnemonic = some opcode) : IsPlain opcode := by
  obtain ⟨_, rfl⟩ := Opcode.Table.read_eq_ok_iff.mp hread
  obtain ⟨line, _, hwords⟩ := Opcode.Table.opcode?_ofLines_iff.mp h
  have hmem : opcode ∈ words line := by
    rw [hwords]
    simp
  exact isPlain_of_mem_words hmem

end TwoPass
