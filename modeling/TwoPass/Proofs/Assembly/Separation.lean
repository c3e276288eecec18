import TwoPass.Proofs.Assembly.Offsets
import TwoPass.Proofs.Object.Cells
import TwoPass.Proofs.Object.Coverage

set_option autoImplicit false

/-!
# Text records keep apart

The location counter never goes back, and gives every statement at least the bytes of its code.  So
each code ends before the next one starts, and the last one before the end of the program, whatever
is reserved in between.  A record starts at its first code and has as many bytes as its codes, so it
ends before the first code of the next record.  Where the codes are whole bytes, the records can be
loaded, and the addresses that they leave uncovered are as many as the program has beyond their
bytes.
-/

namespace TwoPass

open Object (Text codeSize WholeBytes)

/-! ## Codes in order -/

/-- Lines have addresses from one on, each line behind the code of the line before, and their code
ends before another address. -/
inductive Ascends : Nat → List Line → Nat → Prop where
  | nil {low high : Nat} : low ≤ high → Ascends low [] high
  | cons {low high : Nat} {l : Line} {rest : List Line} {address : Address} :
      l.address = some address → low ≤ address.toNat →
      Ascends (address.toNat + codeSize l.code) rest high → Ascends low (l :: rest) high

namespace Ascends

variable {low high : Nat} {lines front back group : List Line}

theorem of_le {first : Nat} (h : Ascends first lines high) (hle : low ≤ first) :
    Ascends low lines high := by
  cases h with
  | nil hhigh => exact .nil (Nat.le_trans hle hhigh)
  | cons haddress hlow hrest => exact .cons haddress (Nat.le_trans hle hlow) hrest

theorem split (h : Ascends low (front ++ back) high) :
    ∃ middle, Ascends low front middle ∧ Ascends middle back high := by
  induction front generalizing low with
  | nil => exact ⟨low, .nil (Nat.le_refl low), h⟩
  | cons l front ih =>
    rw [List.cons_append] at h
    cases h with
    | cons haddress hlow hrest =>
      obtain ⟨middle, hfront, hback⟩ := ih hrest
      exact ⟨middle, .cons haddress hlow hfront, hback⟩

/-- There is room for all of the code. -/
theorem codeBytes_le (h : Ascends low lines high) : low + Listing.codeBytes lines ≤ high := by
  induction h with
  | nil hle => exact hle
  | cons _ _ _ ih =>
    rw [Listing.codeBytes_cons]
    omega

/-- The record of such lines lies between the two addresses. -/
theorem bounds_record (h : Ascends low group high) (hne : group ≠ []) :
    low ≤ (Listing.record group).start.toNat ∧
      (Listing.record group).start.toNat + (Listing.record group).size ≤ high := by
  cases h with
  | nil => exact absurd rfl hne
  | @cons _ _ l rest address haddress hlow hrest =>
    have hstart : (Listing.record (l :: rest)).start = address := by
      simp [Listing.record, Text.ofRun, Line.item, haddress]
    have hroom := hrest.codeBytes_le
    rw [hstart, Listing.size_record, Listing.codeBytes_cons]
    exact ⟨hlow, by omega⟩

/-- The records of groups of such lines follow each other between the two addresses. -/
theorem records {groups : List (List Line)} (h : Ascends low groups.flatten high)
    (hne : ∀ group ∈ groups, group ≠ []) :
    (∀ t ∈ groups.map Listing.record, low ≤ t.start.toNat ∧ t.start.toNat + t.size ≤ high) ∧
      (groups.map Listing.record).Pairwise fun t u => t.start.toNat + t.size ≤ u.start.toNat := by
  induction groups generalizing low with
  | nil => simp
  | cons group groups ih =>
    rw [List.flatten_cons] at h
    obtain ⟨middle, hgroup, hgroups⟩ := h.split
    obtain ⟨hlater, hordered⟩ :=
      ih hgroups fun other hother => hne other (List.mem_cons_of_mem group hother)
    obtain ⟨hstart, hend⟩ := hgroup.bounds_record (hne group List.mem_cons_self)
    have hmiddle := hgroups.codeBytes_le
    rw [List.map_cons, List.forall_mem_cons, List.pairwise_cons]
    refine ⟨⟨⟨hstart, by omega⟩, ?_⟩, ?_, hordered⟩
    · intro t ht
      have hbounds := hlater t ht
      omega
    · intro u hu
      have hbounds := hlater u hu
      omega

end Ascends

/-- A line is given at least the bytes of its code. -/
def Line.HasRoom (l : Line) : Prop := ∀ size, l.size = .ok size → codeSize l.code ≤ size

/-- A settled counter gives addresses in order to lines that have room for their code. -/
theorem Counter.Places.ascends {c last : Counter} {lines : List Line}
    (h : Counter.Places c (lines.map Line.toPlaced) last)
    (hsettled : c.Settled (lines.map Line.toPlaced)) (hroom : ∀ l ∈ lines, l.HasRoom) :
    Ascends c.location.toNat (Listing.coded lines) last.location.toNat := by
  induction lines generalizing c with
  | nil =>
    cases h with
    | nil => exact .nil (Nat.le_refl _)
  | cons l lines ih =>
    rw [List.map_cons] at h hsettled
    cases h with
    | cons hstep haddress hrest =>
      obtain ⟨hplace, ⟨size, hsize, hlocation⟩, _, hnext⟩ := hsettled.step_cases hstep
      have hfits := hroom l List.mem_cons_self size hsize
      have hlater := ih hrest hnext fun d hd => hroom d (List.mem_cons_of_mem l hd)
      by_cases hcode : l.code = []
      · have hcoded : Listing.coded (l :: lines) = Listing.coded lines := by
          simp [Listing.coded, hcode]
        rw [hcoded]
        exact hlater.of_le (by omega)
      · have hcoded : Listing.coded (l :: lines) = l :: Listing.coded lines := by
          simp [Listing.coded, hcode]
        rw [hcoded]
        exact .cons (haddress.trans hplace) (Nat.le_refl _) (hlater.of_le (by omega))

/-! ## Records of a program -/

/-- The Text records of a result lie apart from each other inside its program. -/
structure Assembly.RecordsApart (a : Assembly) : Prop where
  /-- no two of them have an address in common -/
  disjoint : a.program.text.Pairwise fun t u => ∀ address ∈ t.span, address ∉ u.span
  /-- they come in order: each one starts before the next, and ends before it -/
  ordered : a.program.text.Pairwise fun t u =>
    t.start < u.start ∧ t.start.toNat + t.size ≤ u.start.toNat
  /-- all of their addresses are addresses of the program -/
  inside : ∀ t ∈ a.program.text, a.program.header.start ≤ t.start ∧
    t.start.toNat + t.size ≤ a.program.header.start.toNat + a.program.header.length.toNat
  /-- the program can be loaded -/
  image : ∃ memory, a.program.image = .ok memory
  /-- what they leave uncovered is the length of the program less their sizes -/
  uncovered : a.program.uncovered + (a.program.text.map Text.size).sum =
    a.program.header.length.toNat

/-- Whole bytes that are not empty are at least one. -/
theorem Object.WholeBytes.codeSize_pos {code : Bytes} (h : WholeBytes code) (hne : code ≠ []) :
    0 < codeSize code := by
  have hlength := List.length_pos_iff.mpr hne
  have heven := h.2
  unfold codeSize
  omega

/-- A record of whole codes has as many bytes as its codes put together, and at least one. -/
theorem Object.Text.codeSize_flatten_codes {t : Text} (hne : t.codes ≠ [])
    (h : ∀ code ∈ t.codes, WholeBytes code ∧ code ≠ []) :
    codeSize t.codes.flatten = t.size ∧ 0 < t.size := by
  refine ⟨by rw [Object.codeSize_flatten fun code hcode => (h code hcode).1, Text.size_eq_sum], ?_⟩
  obtain ⟨code, rest, hcodes⟩ := List.exists_cons_of_ne_nil hne
  obtain ⟨hwhole, hcode⟩ := h code (by simp [hcodes])
  have hpos := hwhole.codeSize_pos hcode
  rw [Text.size_eq_sum, hcodes, List.map_cons, List.sum_cons]
  omega

/-- Records of whole codes that follow each other inside the program lie apart from each other. -/
theorem Assembly.RecordsApart.of_ordered {a : Assembly}
    (hwhole : ∀ t ∈ a.program.text, t.codes ≠ [] ∧ ∀ code ∈ t.codes, WholeBytes code ∧ code ≠ [])
    (hinside : ∀ t ∈ a.program.text, a.program.header.start.toNat ≤ t.start.toNat ∧
      t.start.toNat + t.size ≤ a.program.header.start.toNat + a.program.header.length.toNat)
    (hordered : a.program.text.Pairwise fun t u => t.start.toNat + t.size ≤ u.start.toNat) :
    a.RecordsApart := by
  have hsize : ∀ t ∈ a.program.text, codeSize t.codes.flatten = t.size ∧ 0 < t.size :=
    fun t ht => Text.codeSize_flatten_codes (hwhole t ht).1 (hwhole t ht).2
  have hloads : ∀ t ∈ a.program.text, t.Inside a.program.header := by
    intro t ht
    refine ⟨Object.wholeBytes_flatten fun code hcode => ((hwhole t ht).2 code hcode).1,
      (hinside t ht).1, ?_⟩
    rw [(hsize t ht).1]
    exact (hinside t ht).2
  have hdisjoint : a.program.text.Pairwise fun t u => ∀ address ∈ t.span, address ∉ u.span := by
    refine hordered.imp ?_
    intro t u hbefore address ht hu
    have hlow : u.start.toNat ≤ address := hu.1
    have hhigh : address < t.start.toNat + t.size := ht.2
    omega
  refine { disjoint := hdisjoint, ordered := ?_, inside := ?_, image := ?_, uncovered := ?_ }
  · refine hordered.imp_of_mem ?_
    intro t u ht _ hbefore
    have hpos := (hsize t ht).2
    exact ⟨UInt32.lt_iff_toNat_lt.mpr (by omega), hbefore⟩
  · intro t ht
    exact ⟨UInt32.le_iff_toNat_le.mpr (hinside t ht).1, (hinside t ht).2⟩
  · exact ⟨_, Object.Program.image_eq_store hloads⟩
  · refine Object.Program.uncovered_add_sum_size hdisjoint ?_
    intro t ht address hmem
    have hlow : t.start.toNat ≤ address := hmem.1
    have hhigh : address < t.start.toNat + t.size := hmem.2
    have hbounds := hinside t ht
    exact ⟨Nat.le_trans hbounds.1 hlow, Nat.lt_of_lt_of_le hhigh hbounds.2⟩

/-- Where nothing precedes the first START statement and every line has room for its code, the
records follow each other inside the program. -/
theorem Assembly.Made.records_ordered {settings : Settings} {source : List Statement} {a : Assembly}
    (h : a.Made settings source)
    (hfirst : hasStart a.statements = true → ∃ p ∈ a.statements.head?, p.isStart = true)
    (hroom : ∀ l ∈ a.listing, l.HasRoom) :
    (∀ t ∈ a.program.text, a.start.toNat ≤ t.start.toNat ∧
      t.start.toNat + t.size ≤ a.start.toNat + a.length.toNat) ∧
      a.program.text.Pairwise fun t u => t.start.toNat + t.size ≤ u.start.toNat := by
  have htext : a.program.text = Listing.records settings.textLimit.val a.listing := by
    rw [h.program]
  obtain ⟨lead, lines, rest, c, last, hlisting, hblank, hplaces, hsettled, hbegin, hend⟩ :=
    h.exists_settled hfirst
  obtain ⟨groups, hgroups, hflatten, hnonempty, _⟩ :=
    Listing.exists_groups settings.textLimit.val lines
  obtain ⟨middle, hlines, hrest⟩ := hplaces.split
  obtain ⟨hsteady, hsteady'⟩ := hlines.settled hsettled
  have hascends := hlines.ascends hsteady fun l hl => hroom l (by simp [hlisting, hl])
  rw [← hflatten] at hascends
  obtain ⟨hbounds, hordered⟩ := hascends.records hnonempty
  rw [htext, hlisting, Listing.records_append_of_blank _ lines hblank, hgroups]
  refine ⟨?_, hordered⟩
  intro t ht
  have hinside := hbounds t ht
  have hbehind := hrest.location_le hsteady'
  omega

/-- In a program that is assembled with nothing before the first START statement, opcodes of two
digits, addresses of four and literals of whole bytes, the Text records lie apart from each other
inside the program, under any limit. -/
theorem recordsApart_of_assemble {name : Bytes} {source : Input} {table : Opcode.Table}
    {choices : List Choice} {a : Assembly} (h : assemble name source (some table) choices = .ok a)
    (hfirst : hasStart a.statements = true → ∃ p ∈ a.statements.head?, p.isStart = true)
    (hopcodes : ∀ p ∈ a.statements, ∀ opcode, p.operation = .instruction opcode →
      opcode.length = 2 ∧ ∀ b ∈ opcode, Numeral.isHexDigit b = true)
    (hsymbols : ∀ symbol ∈ a.symbols, symbol.address.toNat ≤ 0xFFFF)
    (heven : ∀ l ∈ a.listing, l.operation = .byte →
      ∀ body, Literal.read l.operand = .ok (.digits body) → body.length % 2 = 0) :
    a.RecordsApart := by
  obtain ⟨settings, _, hmade⟩ := made_of_assemble h
  have hheader : a.program.header = ⟨a.name, a.start, a.length⟩ := by rw [hmade.program]
  have hroom : ∀ l ∈ a.listing, l.HasRoom := by
    intro l hl size hsize
    obtain ⟨hmem, hcode⟩ := hmade.mem_statements hl
    exact Statement.codeSize_le hcode (hopcodes l.toPlaced hmem) hsymbols hsize
  have hwhole : ∀ t ∈ a.program.text, t.codes ≠ [] ∧
      ∀ code ∈ t.codes, WholeBytes code ∧ code ≠ [] := by
    intro t ht
    refine ⟨?_, ?_⟩
    · rw [hmade.program] at ht
      exact Listing.codes_ne_nil_of_mem_records ht
    · intro code hmem
      obtain ⟨hne, l, hl, rfl⟩ := hmade.mem_codes_iff.mp ⟨t, ht, hmem⟩
      obtain ⟨hplaced, hcode⟩ := hmade.mem_statements hl
      exact ⟨Statement.wholeBytes_code hcode (hopcodes l.toPlaced hplaced) hsymbols (heven l hl),
        hne⟩
  obtain ⟨hinside, hordered⟩ := hmade.records_ordered hfirst hroom
  refine .of_ordered hwhole ?_ hordered
  rw [hheader]
  exact hinside

/-- A source with literals of digits, and with storage reserved inside its code and behind it up to
the end of the address space. -/
def sparseSource : Input := .ofBytes
  (utf8 "P START 1000\nA LDA C\nB BYTE X'F1a2'\nC RESW 2\nD WORD -1\nE BYTE X''\nF BYTE C'z'\n" ++
    utf8 "END\nG RESB 16773103")

theorem recordsApart_of_assemble_sparseSource :
    ∃ a, assemble [] sparseSource (some loadTable) [.textLimit 4] = .ok a ∧ a.RecordsApart ∧
      a.program.header.start.toNat + a.program.header.length.toNat = addressSpace ∧
      a.program.text.map (fun t => (t.start, t.size)) =
        [(0x1000, 3), (0x1003, 2), (0x100D, 4)] := by
  have ha := eq_ok_of_isOk (default : Assembly)
    (x := assemble [] sparseSource (some loadTable) [.textLimit 4]) (by decide +kernel)
  generalize hresult : (assemble [] sparseSource (some loadTable) [.textLimit 4]).toOption.getD
    default = a at ha
  have hfacts : (hasStart a.statements = true → ∃ p ∈ a.statements.head?, p.isStart = true) ∧
      (∀ p ∈ a.statements, ∀ opcode, p.operation = .instruction opcode →
        opcode.length = 2 ∧ ∀ b ∈ opcode, Numeral.isHexDigit b = true) ∧
      (∀ symbol ∈ a.symbols, symbol.address.toNat ≤ 0xFFFF) ∧
      (∀ l ∈ a.listing, l.operation = .byte →
        ∀ body, Literal.read l.operand = .ok (.digits body) → body.length % 2 = 0) ∧
      a.program.header.start.toNat + a.program.header.length.toNat = addressSpace ∧
      a.program.text.map (fun t => (t.start, t.size)) =
        [(0x1000, 3), (0x1003, 2), (0x100D, 4)] := by
    rw [← hresult]
    decide +kernel
  obtain ⟨hfirst, hopcodes, hsymbols, heven, hend, hspans⟩ := hfacts
  exact ⟨a, ha, recordsApart_of_assemble ha hfirst hopcodes hsymbols heven, hend, hspans⟩

end TwoPass
