import TwoPass.Object.Dump
import TwoPass.Proofs.Numeral.Hexadecimal
import TwoPass.Proofs.Object.Digits
import TwoPass.Proofs.Object.RoundTrip
import TwoPass.Proofs.Output.Prefix

set_option autoImplicit false

/-!
# Memory read back from a dump

A dump is a text of lines.  Cut at its spaces, a line is an address with a colon and then one column
for each byte.  Every line but the last has all its columns, the addresses go up by the width of a
line and wrap around, and the columns of all lines, one after the other, are the digits of the
memory.
-/

namespace TwoPass.Object

/-! ## Columns -/

theorem upperHex_two {n : Nat} (h : n < 256) :
    upperHex 2 n = [hexDigit (n / 16), hexDigit (n % 16)] := by
  rw [upperHex_eq_replicate_append]
  by_cases hn : n < 16
  · have hquotient : n / 16 = 0 := by omega
    have hrest : n % 16 = n := by omega
    rw [upperHex_zero_of_lt hn, hquotient, hrest]
    rfl
  · rw [upperHex_zero_of_le (by omega), upperHex_zero_of_lt (by omega)]
    rfl

/-- The digits of bytes, two for each, stand for the bytes. -/
theorem denotes_flatMap_upperHex (bytes : Bytes) :
    Denotes (bytes.flatMap fun b => upperHex 2 b.toNat) bytes := by
  induction bytes with
  | nil => exact .nil
  | cons b bytes ih =>
    have hlt := b.toNat_lt
    have hhigh : b.toNat / 16 < 16 := by omega
    have hlow : b.toNat % 16 < 16 := by omega
    have hpair :=
      Denotes.pair (Numeral.digit?_hexDigit hhigh) hhigh (Numeral.digit?_hexDigit hlow) hlow ih
    have hvalue : b.toNat / 16 * 16 + b.toNat % 16 = b.toNat := by omega
    rw [hvalue, UInt8.ofNat_toNat] at hpair
    rw [List.flatMap_cons, upperHex_two hlt]
    exact hpair

/-- The columns of a line: what stands between spaces, behind the address. -/
def byteColumns (line : Bytes) : List Bytes := (line.splitOn Ascii.space).tail

/-! ## Lines -/

/-- A line of a dump without its end. -/
def dumpLine (address : Address) (bytes : Bytes) : Bytes :=
  upperHex 6 address.toNat ++ utf8 ":" ++
    (bytes.map fun b => upperHex 2 b.toNat).flatMap (Ascii.space :: ·)

theorem flatten_dumpRow (address : Address) (bytes : Bytes) :
    (dumpRow address bytes).flatten = dumpLine address bytes ++ [Ascii.newline] := by
  simp [dumpRow, dumpLine, List.flatMap_def, Function.comp_def]

theorem newline_not_mem_dumpLine (address : Address) (bytes : Bytes) :
    Ascii.newline ∉ dumpLine address bytes := by
  have hdigits : ∀ width n, Ascii.newline ∉ upperHex width n := not_mem_upperHex (by decide)
  have hcolon : Ascii.newline ∉ utf8 ":" := by decide
  have hspace : Ascii.newline ≠ Ascii.space := by decide
  simp [dumpLine, hdigits, hcolon, hspace]

/-- Cut at its spaces, a line is its address and its columns. -/
theorem splitOn_dumpLine (address : Address) (bytes : Bytes) :
    (dumpLine address bytes).splitOn Ascii.space =
      (upperHex 6 address.toNat ++ utf8 ":") :: bytes.map fun b => upperHex 2 b.toNat := by
  have hdigits : ∀ width n, Ascii.space ∉ upperHex width n := not_mem_upperHex (by decide)
  have hcolon : Ascii.space ∉ utf8 ":" := by decide
  rw [dumpLine, append_flatMap_separator]
  refine List.splitOn_intercalate Ascii.space ?_ (by simp)
  simp [hdigits, hcolon]

/-! ## Rows -/

/-- The address of a row. -/
def rowAddress (base : Address) (row : Nat) : Address := base + UInt32.ofNat (dumpWidth * row)

/-- The bytes in a row. -/
def rowBytes (memory : Memory) (row : Nat) : Bytes :=
  (memory.extract (dumpWidth * row) (dumpWidth * row + dumpWidth)).toList

theorem toNat_rowAddress (base : Address) (row : Nat) :
    (rowAddress base row).toNat = (base.toNat + 16 * row) % 2 ^ 32 := by
  simp [rowAddress, dumpWidth, UInt32.toNat_add]

theorem length_rowBytes (memory : Memory) (row : Nat) :
    (rowBytes memory row).length = min 16 (memory.size - 16 * row) := by
  simp only [rowBytes, dumpWidth, Array.length_toList, Array.size_extract]
  omega

/-- The first rows hold the front of the memory. -/
theorem flatMap_rowBytes_range (memory : Memory) (rows : Nat) :
    (List.range rows).flatMap (rowBytes memory) = memory.toList.take (dumpWidth * rows) := by
  induction rows with
  | zero => rfl
  | succ rows ih =>
    rw [List.range_succ, List.flatMap_append, ih, List.flatMap_singleton, rowBytes,
      Array.toList_extract, Nat.mul_succ, List.take_add, List.extract_eq_take_drop,
      Nat.add_sub_cancel_left]

theorem flatMap_rowBytes (memory : Memory) :
    (List.range (dumpRows memory.size)).flatMap (rowBytes memory) = memory.toList := by
  rw [flatMap_rowBytes_range, List.take_of_length_le]
  simp only [dumpRows, dumpWidth, Array.length_toList]
  omega

/-- The lines of a dump. -/
def dumpLines (base : Address) (memory : Memory) : List Bytes :=
  (List.range (dumpRows memory.size)).map fun row =>
    dumpLine (rowAddress base row) (rowBytes memory row)

theorem flatten_dump (base : Address) (memory : Memory) :
    (dump base memory).flatten = terminated (dumpLines base memory) := by
  rw [dump, List.flatMap_def, List.flatten_flatten, terminated, dumpLines, List.map_map,
    List.map_map]
  congr 1
  refine List.map_congr_left fun row _ => ?_
  exact flatten_dumpRow (rowAddress base row) (rowBytes memory row)

theorem rawLines_dump (base : Address) (memory : Memory) :
    rawLines (dump base memory).flatten = dumpLines base memory := by
  rw [flatten_dump]
  refine rawLines_terminated ?_
  intro line hline
  obtain ⟨row, _, rfl⟩ := List.mem_map.mp hline
  exact newline_not_mem_dumpLine _ _

theorem length_dumpLines (base : Address) (memory : Memory) :
    (dumpLines base memory).length = (memory.size + 15) / 16 := by
  rw [dumpLines, List.length_map, List.length_range]
  rfl

theorem byteColumns_dumpLine (address : Address) (bytes : Bytes) :
    byteColumns (dumpLine address bytes) = bytes.map fun b => upperHex 2 b.toNat := by
  rw [byteColumns, splitOn_dumpLine, List.tail_cons]

/-- The columns of all lines are the columns of the memory. -/
theorem flatMap_byteColumns_dumpLines (base : Address) (memory : Memory) :
    (dumpLines base memory).flatMap byteColumns =
      memory.toList.map fun b => upperHex 2 b.toNat := by
  rw [dumpLines, List.flatMap_map]
  simp only [byteColumns_dumpLine]
  rw [← List.map_flatMap, flatMap_rowBytes]

theorem row_of_getElem? {base : Address} {memory : Memory} {row : Nat} {line : Bytes}
    (h : (dumpLines base memory)[row]? = some line) :
    row < dumpRows memory.size ∧ line = dumpLine (rowAddress base row) (rowBytes memory row) := by
  obtain ⟨hlt, rfl⟩ := List.getElem?_eq_some_iff.mp h
  rw [dumpLines, List.length_map, List.length_range] at hlt
  exact ⟨hlt, by simp [dumpLines]⟩

/-- Every row but the last is full, and the last is not empty. -/
theorem length_byteColumns_of_getElem? {base : Address} {memory : Memory} {row : Nat} {line : Bytes}
    (h : (dumpLines base memory)[row]? = some line) :
    (byteColumns line).length = min 16 (memory.size - 16 * row) ∧ 16 * row < memory.size := by
  obtain ⟨hlt, rfl⟩ := row_of_getElem? h
  rw [byteColumns_dumpLine, List.length_map, length_rowBytes]
  refine ⟨rfl, ?_⟩
  simp only [dumpRows, dumpWidth] at hlt
  omega

/-! ## Dumps -/

/-- A text from which memory can be read back. -/
structure ShowsMemory (base : Address) (memory : Memory) (text : Bytes) : Prop where
  /-- it is made of lines, each with its end -/
  lines : text = terminated (rawLines text)
  /-- there are as many as it takes to have sixteen bytes on each -/
  length : (rawLines text).length = (memory.size + 15) / 16
  /-- a line has the address of its first byte, a colon, and columns, divided by spaces -/
  address : ∀ i line, (rawLines text)[i]? = some line →
    line.splitOn Ascii.space =
      (upperHex 6 ((base.toNat + 16 * i) % 2 ^ 32) ++ utf8 ":") :: byteColumns line
  /-- sixteen columns if it is not the last one -/
  full : ∀ i line, (rawLines text)[i]? = some line → i + 1 < (rawLines text).length →
    (byteColumns line).length = 16
  /-- and in any case at least one and at most sixteen -/
  width : ∀ line ∈ rawLines text, 1 ≤ (byteColumns line).length ∧ (byteColumns line).length ≤ 16
  /-- a column has two digits -/
  column : ∀ line ∈ rawLines text, ∀ column ∈ byteColumns line, column.length = 2
  /-- the columns of all lines stand for the bytes of the memory -/
  bytes : decodeHex ((rawLines text).flatMap byteColumns).flatten = .ok memory.toList

/-- Memory of any size, at any address, can be read back from its dump, and the dump is what is
written to a sink without a limit. -/
theorem showsMemory_dump (base : Address) (memory : Memory) :
    ShowsMemory base memory (dump base memory).flatten ∧
      (writeDump base memory (.new none)).target.contents = (dump base memory).flatten ∧
      (writeDump base memory (.new none)).fault = none := by
  obtain ⟨hcontents, _, hfault⟩ :=
    (Writes.writeGroups (List.range (dumpRows memory.size)) fun row =>
      dumpRow (rowAddress base row) (rowBytes memory row)).unlimited
  refine ⟨?_, hcontents, hfault⟩
  have hlines := rawLines_dump base memory
  refine
    { lines := by rw [hlines, flatten_dump]
      length := by rw [hlines, length_dumpLines]
      address := ?_, full := ?_, width := ?_, column := ?_, bytes := ?_ }
  · intro i line hline
    rw [hlines] at hline
    obtain ⟨_, rfl⟩ := row_of_getElem? hline
    rw [byteColumns_dumpLine, splitOn_dumpLine, toNat_rowAddress]
  · intro i line hline hlt
    rw [hlines] at hline hlt
    obtain ⟨hwidth, _⟩ := length_byteColumns_of_getElem? hline
    rw [length_dumpLines] at hlt
    omega
  · intro line hline
    rw [hlines] at hline
    obtain ⟨i, hi⟩ := List.mem_iff_getElem?.mp hline
    obtain ⟨hwidth, _⟩ := length_byteColumns_of_getElem? hi
    omega
  · intro line hline column hcolumn
    have hall := List.mem_flatMap.mpr ⟨line, hline, hcolumn⟩
    rw [hlines, flatMap_byteColumns_dumpLines] at hall
    obtain ⟨b, _, rfl⟩ := List.mem_map.mp hall
    exact length_upperHex (by decide) b.toNat_lt
  · rw [hlines, flatMap_byteColumns_dumpLines, decodeHex_eq_ok_iff, ← List.flatMap_def]
    exact denotes_flatMap_upperHex memory.toList

/-- Seventeen bytes from an address near the end of the address words. -/
example : (dump 0xFFFFFFF8 (Array.replicate 17 0xAB)).flatten = terminated
    [utf8 "FFFFFFF8: AB AB AB AB AB AB AB AB AB AB AB AB AB AB AB AB", utf8 "000008: AB"] := by
  decide +kernel

end TwoPass.Object
