import TwoPass.Proofs.Assembly.Code
import TwoPass.Proofs.Assembly.Groups

set_option autoImplicit false

/-!
# Addresses in fields of six digits

The records of an object program have six digits for an address, as many as the address space needs.
The location counter may stand behind its last address, but no code is there: a statement with code
takes at least one byte.  So every address that is written fits its field.  The length of a program
is the one number that may not: a program that takes up all of the address space is one byte too
long for six digits.
-/

namespace TwoPass

open Object (Text)

/-! ## Fields -/

/-- A field of exactly six hexadecimal digits that stand for a number. -/
structure SixDigits (n : Nat) (field : Bytes) : Prop where
  /-- there are six of them -/
  width : field.length = 6
  /-- they are digits -/
  digits : ∀ b ∈ field, Numeral.isHexDigit b = true
  /-- they stand for the number -/
  value : Numeral.unsigned 16 0xFFFFFF field = .ok n

/-- Six digits hold the numbers of the address space. -/
theorem sixDigits_upperHex_iff {n : Nat} : SixDigits n (upperHex 6 n) ↔ n ≤ 0xFFFFFF := by
  have hfield : HexField 6 n (upperHex 6 n) ↔ n < 16 ^ 6 := hexField_upperHex_iff (by decide)
  constructor
  · intro h
    exact Nat.le_of_lt_succ (hfield.mp ⟨h.width, h.digits, h.value⟩)
  · intro h
    obtain ⟨hwidth, hdigits, hvalue⟩ := hfield.mpr (Nat.lt_succ_of_le h)
    exact ⟨hwidth, hdigits, hvalue⟩

/-! ## Addresses -/

/-- The program starts inside the address space. -/
theorem Counter.Places.start_lt {c last : Counter} {ps : List Placed} (h : Counter.Places c ps last)
    (hstart : c.start.toNat < addressSpace) : last.start.toNat < addressSpace := by
  induction h with
  | nil c => exact hstart
  | cons hstep _ _ ih =>
    refine ih ?_
    rcases Counter.step_cases hstep with ⟨_, address, haddress, rfl⟩ | ⟨_, _, _, _, rfl⟩
    · exact (Statement.startAddress_eq_ok_iff.mp haddress).2.2
    · exact hstart

namespace Assembly.Made

variable {settings : Settings} {source : List Statement} {a : Assembly}

/-- A line with code stands inside the address space, since its code takes at least one byte. -/
theorem address_lt (h : a.Made settings source) {l : Line} (hl : l ∈ a.listing)
    (hcode : l.code ≠ [])
    {address : Address} (haddress : l.address = some address) : address.toNat < addressSpace := by
  obtain ⟨counter, hplaces, _⟩ := h.exists_places
  obtain ⟨hmem, hmade⟩ := h.mem_statements hl
  obtain ⟨before, after, hsplit⟩ := List.append_of_mem hmem
  -- The only statement that is not counted is the first START statement, and it has no code.
  have hstart : ¬ (l.isStart = true ∧ hasStart before = false) := by
    rintro ⟨hstart, _⟩
    rw [Statement.code_of_isStart hstart] at hmade
    exact hcode (Except.ok.inj hmade).symm
  rw [hsplit] at hplaces
  obtain ⟨c, size, _, _, hplace, hsize, hfits, _⟩ := hplaces.exists_at hstart
  obtain rfl : c.location = address := Option.some.inj (hplace.symm.trans haddress)
  have hpos := Statement.size_pos hmade hcode hsize
  omega

/-- The length of a program is the sum of the sizes that the location counter has counted. -/
theorem length_eq (h : a.Made settings source) :
    a.length.toNat = totalSize (counted a.statements) ∧
      a.start.toNat + totalSize (counted a.statements) ≤ addressSpace := by
  obtain ⟨counter, hplaces, _, hstart, hlength⟩ := h.exists_places
  have hcounts := hplaces.counts Counter.Counts.initial
  have hlocation := hcounts.location
  have hbound := hcounts.bound
  rw [List.nil_append] at hlocation
  rw [hlength, hstart, UInt32.toNat_sub_of_le _ _ hcounts.start_le]
  omega

end Assembly.Made

/-! ## Records -/

/-- The numbers of an object program that are written in fields of six digits. -/
structure Assembly.FitsFields (a : Assembly) : Prop where
  /-- the start address -/
  start : a.program.header.start.toNat ≤ 0xFFFFFF
  /-- the address of each Text record -/
  text : ∀ t ∈ a.program.text, t.start.toNat ≤ 0xFFFFFF
  /-- the entry address -/
  entry : a.program.entry.toNat ≤ 0xFFFFFF
  /-- the length, unless the sizes of the statements add up to the whole address space -/
  length : a.program.header.length.toNat ≤ 0xFFFFFF ↔
    totalSize (counted a.statements) ≠ addressSpace
  /-- a program of that length starts at zero -/
  whole : totalSize (counted a.statements) = addressSpace →
    a.program.header.start = 0 ∧ a.program.header.length.toNat = addressSpace
  /-- the Header record has six digits for the start address, and for a length that fits -/
  headerRecord : ∃ start length, a.program.header.record =
      utf8 "H^" ++ a.program.header.nameField ++ utf8 "^" ++ start ++ utf8 "^" ++ length ∧
    SixDigits a.program.header.start.toNat start ∧
    (SixDigits a.program.header.length.toNat length ↔
      totalSize (counted a.statements) ≠ addressSpace)
  /-- a Text record has six digits for its address -/
  textRecord : ∀ t ∈ a.program.text, ∃ start rest,
    t.record = utf8 "T^" ++ start ++ utf8 "^" ++ rest ∧
    SixDigits t.start.toNat start
  /-- the End record has six digits for the entry address -/
  endRecord : ∃ entry, a.program.endRecord = utf8 "E^" ++ entry ∧
    SixDigits a.program.entry.toNat entry

/-- Every address in the object program of an assembly is written in six digits, and so is the
length unless the program takes up the whole address space. -/
theorem fitsFields_of_assemble {name : Bytes} {source : Input} {table : Opcode.Table}
    {choices : List Choice} {a : Assembly} (h : assemble name source (some table) choices = .ok a) :
    a.FitsFields := by
  obtain ⟨settings, _, hmade⟩ := made_of_assemble h
  obtain ⟨counter, hlayout, hstart, _⟩ := hmade.layout
  have hspace : addressSpace = 0xFFFFFF + 1 := rfl
  have hbegin : a.start.toNat ≤ 0xFFFFFF := by
    have hlt := (Layout.places_of_extend hlayout).1.start_lt (by decide)
    rw [hstart]
    exact Nat.le_of_lt_succ hlt
  have htext : ∀ t ∈ a.program.text, t.start.toNat ≤ 0xFFFFFF := by
    intro t ht
    obtain ⟨l, hl, hcode, haddress⟩ := hmade.exists_line_of_mem_text ht
    exact Nat.le_of_lt_succ (hmade.address_lt hl hcode haddress)
  obtain ⟨htotal, hbound⟩ := hmade.length_eq
  have hlength : a.length.toNat ≤ 0xFFFFFF ↔ totalSize (counted a.statements) ≠ addressSpace := by
    omega
  have hheader : a.program.header = ⟨a.name, a.start, a.length⟩ := by rw [hmade.program]
  have hentry : a.program.entry = a.start := by rw [hmade.program]
  refine { start := ?_, text := htext, entry := ?_, length := ?_, whole := ?_, headerRecord := ?_,
           textRecord := ?_, endRecord := ?_ }
  · rw [hheader]
    exact hbegin
  · rw [hentry]
    exact hbegin
  · rw [hheader]
    exact hlength
  · intro hwhole
    rw [hheader]
    exact ⟨UInt32.toNat_inj.mp (show a.start.toNat = 0 by omega), htotal.trans hwhole⟩
  · refine ⟨_, _, rfl, ?_⟩
    rw [hheader]
    exact ⟨sixDigits_upperHex_iff.mpr hbegin, sixDigits_upperHex_iff.trans hlength⟩
  · intro t ht
    refine ⟨upperHex 6 t.start.toNat,
      upperHex 2 t.size ++ t.codes.flatMap (Ascii.circumflex :: ·), ?_,
      sixDigits_upperHex_iff.mpr (htext t ht)⟩
    simp [Text.record]
  · refine ⟨_, rfl, ?_⟩
    rw [hentry]
    exact sixDigits_upperHex_iff.mpr hbegin

/-- A source whose code ends where the address space does. -/
def lastAddressSource : Input :=
  .ofBytes (utf8 "P START fffff8\nA LDA A\nB BYTE X'1f23'\nC BYTE C'z'\nEND")

theorem fitsFields_of_assemble_lastAddressSource :
    ∃ a, assemble [] lastAddressSource (some loadTable) [.textLimit 2] = .ok a ∧
      a.FitsFields ∧
      a.program.records = [utf8 "H^P     ^FFFFF8^000008", utf8 "T^FFFFF8^04^0aFFFFF8",
        utf8 "T^FFFFFB^02^1f23", utf8 "T^FFFFFF^01^7A", utf8 "E^FFFFF8"] := by
  have ha := eq_ok_of_isOk (default : Assembly)
    (x := assemble [] lastAddressSource (some loadTable) [.textLimit 2]) (by decide +kernel)
  refine ⟨_, ha, fitsFields_of_assemble ha, ?_⟩
  decide +kernel

/-- A source that reserves all of the address space. -/
def wholeSpaceSource : Input := .ofBytes (utf8 "P START 0\nA RESB 16777216\nEND")

/-- Its length is written in seven digits. -/
theorem not_sixDigits_wholeSpaceSource :
    ∃ a, assemble [] wholeSpaceSource (some loadTable) [] = .ok a ∧
      ¬ a.program.header.length.toNat ≤ 0xFFFFFF ∧
      a.program.header.record = utf8 "H^P     ^000000^1000000" := by
  have ha := eq_ok_of_isOk (default : Assembly)
    (x := assemble [] wholeSpaceSource (some loadTable) []) (by decide +kernel)
  refine ⟨_, ha, ?_⟩
  decide +kernel

end TwoPass
