import Mathlib.Algebra.Order.BigOperators.Group.List
import TwoPass.Proofs.Assembly.Groups
import TwoPass.Proofs.Numeral.Hexadecimal
import TwoPass.Proofs.Object.Histories

set_option autoImplicit false

/-!
# Text records under a limit

The limit bounds what is put together in a record, not the code of a single statement.  A literal or
an opcode can be of any length, and code that is longer than the limit by itself still gets a
record, which is then the only code in it.  So the records keep to the limit just if the codes do;
the length field of a longer record may need more than its two digits.
-/

namespace TwoPass

open Object (Call Entry Grouping Text codeSize recordOf)

/-! ## Listing lines as calls -/

/-- What a line asks of the grouping. -/
def Line.call? (l : Line) : Option Call :=
  if l.code = [] then if l.operation.reserves then some .interrupt else none
  else some (.add (l.address.getD 0) l.code)

namespace Listing

/-- A line asks what its call asks. -/
theorem group_eq (g : Grouping) (l : Line) : group g l = (l.call?.map g.perform).getD g := by
  unfold group Line.call?
  by_cases hcode : l.code = []
  · cases hreserves : l.operation.reserves <;> simp [hcode, Grouping.perform]
  · simp [hcode, Grouping.perform]

/-- The records of a listing are the answer behind the calls of its lines. -/
theorem records_eq_answer (limit : Int) (lines : List Line) :
    records limit lines = Grouping.answer limit (lines.filterMap Line.call?) := by
  have hfold : ∀ g : Grouping,
      lines.foldl group g = (lines.filterMap Line.call?).foldl Grouping.perform g := by
    induction lines with
    | nil => exact fun _ => rfl
    | cons l lines ih =>
      intro g
      rw [List.foldl_cons, ih, group_eq]
      cases hcall : l.call? <;> simp [hcall]
  rw [records, hfold]
  rfl

/-- A call for code is the call of a line with this code. -/
theorem exists_line_of_mem_calls {lines : List Line} {address : Address} {code : Bytes}
    (h : Call.add address code ∈ lines.filterMap Line.call?) :
    ∃ l ∈ lines, l.address.getD 0 = address ∧ l.code = code := by
  obtain ⟨l, hl, hcall⟩ := List.mem_filterMap.mp h
  unfold Line.call? at hcall
  split at hcall
  · split at hcall <;> simp at hcall
  · obtain ⟨haddress, hcode⟩ := Call.add.inj (Option.some.inj hcall)
    exact ⟨l, hl, haddress, hcode⟩

/-- A record that is longer than the limit is the code of a single line. -/
theorem exists_line_of_limit_lt {limit : Int} (hlimit : 0 < limit) {lines : List Line} {t : Text}
    (ht : t ∈ records limit lines) (hlong : limit < t.size) :
    ∃ l ∈ lines, l.code ≠ [] ∧ t = ⟨l.address.getD 0, [l.code]⟩ := by
  obtain ⟨groups, hdealt, hanswer⟩ :=
    Grouping.exists_dealsOut_answer limit (lines.filterMap Line.call?)
  rw [records_eq_answer, hanswer] at ht
  obtain ⟨group, hgroup, rfl⟩ := List.mem_map.mp ht
  have hsingle : group.length = 1 :=
    (hdealt.fits hlimit group hgroup).resolve_left (Int.not_le.mpr hlong)
  obtain ⟨e, rfl⟩ := List.length_eq_one_iff.mp hsingle
  have he : e ∈ Object.entries (lines.filterMap Line.call?) := by
    rw [← hdealt.complete]
    exact List.mem_flatten.mpr ⟨[e], hgroup, List.mem_singleton_self e⟩
  obtain ⟨hcall, hne⟩ := Object.mem_of_mem_entriesFrom he
  obtain ⟨l, hl, haddress, hcode⟩ := exists_line_of_mem_calls hcall
  refine ⟨l, hl, hcode ▸ hne, ?_⟩
  rw [haddress, hcode]
  rfl

end Listing

/-! ## Results -/

/-- A code of a record takes no more bytes than the record. -/
theorem Object.Text.codeSize_le_size {t : Text} {code : Bytes} (h : code ∈ t.codes) :
    codeSize code ≤ t.size := by
  rw [Text.size_eq_sum]
  exact List.le_sum_of_mem (List.mem_map_of_mem h)

/-- What a limit says about the Text records of a result. -/
structure Assembly.LimitsRecords (limit : Nat) (a : Assembly) : Prop where
  /-- a record that is longer than the limit is the code of a single line, at the address of the
  line -/
  single : ∀ t ∈ a.program.text, limit < t.size →
    ∃ l ∈ a.listing, limit < codeSize l.code ∧ l.address = some t.start ∧ t.codes = [l.code]
  /-- no record is longer than the limit just if the code of no line is -/
  bounded : (∀ t ∈ a.program.text, t.size ≤ limit) ↔ ∀ l ∈ a.listing, codeSize l.code ≤ limit
  /-- the length of a record is written in two digits just if it is at most 255 -/
  lengthField : ∀ t ∈ a.program.text, ∃ field,
    t.record = utf8 "T^" ++ upperHex 6 t.start.toNat ++ utf8 "^" ++ field ++
      t.codes.flatMap (Ascii.circumflex :: ·) ∧
    (HexField 2 t.size field ↔ t.size ≤ 255)

/-- Under a limit, the records of a result are not longer than the limit, and then have two digits
for their length, unless the code of a single statement is. -/
theorem limitsRecords_of_assemble {name : Bytes} {source : Input} {table : Opcode.Table}
    {choices : List Choice} {settings : Settings} {a : Assembly}
    (hsettings : Settings.ofChoices choices = .ok settings) (hlimit : 0 < settings.textLimit.val)
    (h : assemble name source (some table) choices = .ok a) :
    a.LimitsRecords settings.textLimit.val := by
  obtain ⟨used, hused, hmade⟩ := made_of_assemble h
  obtain rfl : used = settings := Except.ok.inj (hused.symm.trans hsettings)
  have htext : a.program.text = Listing.records used.textLimit.val a.listing := by
    rw [hmade.program]
  have hsingle : ∀ t ∈ a.program.text, used.textLimit.val < t.size →
      ∃ l ∈ a.listing, used.textLimit.val < codeSize l.code ∧ l.address = some t.start ∧
        t.codes = [l.code] := by
    intro t ht hlong
    rw [htext] at ht
    obtain ⟨l, hl, hne, rfl⟩ := Listing.exists_line_of_limit_lt (by omega) ht (by omega)
    obtain ⟨address, haddress⟩ := hmade.exists_address hl hne
    refine ⟨l, hl, ?_, by simp [haddress], rfl⟩
    simpa [Text.size] using hlong
  refine { single := hsingle, bounded := ⟨?_, ?_⟩, lengthField := ?_ }
  · intro hbounded l hl
    by_cases hcode : l.code = []
    · simp [hcode, codeSize]
    · obtain ⟨t, ht, hmem⟩ := hmade.mem_codes_iff.mpr ⟨hcode, l, hl, rfl⟩
      exact Nat.le_trans (Text.codeSize_le_size hmem) (hbounded t ht)
  · intro hcodes t ht
    by_contra hlong
    obtain ⟨l, hl, hcode, _⟩ := hsingle t ht (Nat.lt_of_not_le hlong)
    exact Nat.not_le_of_lt hcode (hcodes l hl)
  · intro t _
    refine ⟨upperHex 2 t.size, rfl, ?_⟩
    rw [hexField_upperHex_iff (by decide)]
    omega

/-- A source with literals on both sides of a limit of four bytes, the longer one between codes that
fit. -/
def longLiteralSource : Input := .ofBytes
  (utf8 "P START 1000\nA LDA C\nB BYTE C'z'\nC BYTE C'abcdef'\nD BYTE X'F'\nE WORD 1\n" ++
    utf8 "F RESB 2\nG BYTE X'12345678'\nEND")

theorem limitsRecords_of_assemble_longLiteralSource :
    ∃ settings a, Settings.ofChoices [.textLimit 4] = .ok settings ∧ 0 < settings.textLimit.val ∧
      assemble [] longLiteralSource (some loadTable) [.textLimit 4] = .ok a ∧
      a.LimitsRecords settings.textLimit.val ∧
      a.program.text.map (fun t => (t.start, t.codes.length, t.size)) =
        [(0x1000, 2, 4), (0x1004, 1, 6), (0x100A, 2, 3), (0x1010, 1, 4)] := by
  have hsettings : Settings.ofChoices [.textLimit 4] = .ok ⟨4, false⟩ := rfl
  have ha := eq_ok_of_isOk (default : Assembly)
    (x := assemble [] longLiteralSource (some loadTable) [.textLimit 4]) (by decide +kernel)
  refine ⟨_, _, hsettings, by decide, ha, limitsRecords_of_assemble hsettings (by decide) ha, ?_⟩
  decide +kernel

/-- A source with a literal of 256 bytes. -/
def hugeLiteralSource : Input :=
  .ofBytes (utf8 "P START 1000\nA BYTE C'" ++ List.replicate 256 0x41 ++ utf8 "'\nEND")

/-- Under the greatest limit its record is longer than the limit, and has three digits for its
length. -/
theorem not_size_le_hugeLiteralSource :
    ∃ a, assemble [] hugeLiteralSource (some loadTable) [.textLimit 255] = .ok a ∧
      ¬ (∀ t ∈ a.program.text, t.size ≤ 255) ∧
      a.program.text.map (fun t => (t.start, t.size, t.record.take 13)) =
        [(0x1000, 256, utf8 "T^001000^100^")] := by
  have ha := eq_ok_of_isOk (default : Assembly)
    (x := assemble [] hugeLiteralSource (some loadTable) [.textLimit 255]) (by decide +kernel)
  refine ⟨_, ha, ?_⟩
  decide +kernel

end TwoPass
