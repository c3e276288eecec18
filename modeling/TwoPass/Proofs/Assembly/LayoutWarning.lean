import TwoPass.Command.Run
import TwoPass.Proofs.Assembly.Separation

set_option autoImplicit false

/-!
# A program that its only record covers has every code in place

Without a limit one Text record holds all code.  The location counter gives every statement at least
the bytes of its code, so the codes before a statement never reach beyond its address, and those
from it on never beyond the end of the program.  A record that leaves no address uncovered has as
many bytes as the program is long.  Then nothing is left over anywhere, and every code is at the
address of its statement: a warning that looks at nothing but the number of uncovered addresses
misses no code that is out of place.
-/

namespace TwoPass

open Object (Text codeSize)

/-! ## Lines and their record -/

namespace Listing

/-- A line with code comes behind all lines of a front without code. -/
theorem exists_eq_append_of_blank {lead lines before after : List Line} {l : Line}
    (hblank : ∀ d ∈ lead, d.code = []) (hcode : l.code ≠ [])
    (h : lead ++ lines = before ++ l :: after) :
    ∃ middle, before = lead ++ middle ∧ lines = middle ++ l :: after := by
  rcases List.append_eq_append_iff.mp h with ⟨middle, hbefore, hlines⟩ | ⟨middle, hlead, hlines⟩
  · exact ⟨middle, hbefore, hlines⟩
  · cases middle with
    | nil => exact ⟨[], by simpa using hlead.symm, by simpa using hlines.symm⟩
    | cons d middle =>
      obtain ⟨rfl, _⟩ := List.cons.inj hlines
      exact absurd (hblank l (by simp [hlead])) hcode

end Listing

/-! ## Runs of the counter -/

namespace Counter.Places

variable {c last : Counter} {lines : List Line}

/-- The counter goes on by the bytes of the codes at least. -/
theorem codeBytes_le (h : Counter.Places c (lines.map Line.toPlaced) last)
    (hsettled : c.Settled (lines.map Line.toPlaced)) (hroom : ∀ l ∈ lines, l.HasRoom) :
    c.location.toNat + Listing.codeBytes lines ≤ last.location.toNat := by
  have hbytes := (h.ascends hsettled hroom).codeBytes_le
  rw [Listing.codeBytes_coded] at hbytes
  exact hbytes

/-- If the counter goes no farther than the bytes of the codes, every code is at its statement: the
codes before it and those from it on both take what they are given and no less. -/
theorem address_of_filled {rest : List Placed}
    (h : Counter.Places c (lines.map Line.toPlaced ++ rest) last)
    (hsettled : c.Settled (lines.map Line.toPlaced ++ rest)) (hroom : ∀ l ∈ lines, l.HasRoom)
    (hfilled : last.location.toNat ≤ c.location.toNat + Listing.codeBytes lines)
    {before after : List Line} {l : Line} (hlines : lines = before ++ l :: after) :
    ∃ address, l.address = some address ∧
      address.toNat = c.location.toNat + Listing.codeBytes before := by
  subst hlines
  rw [List.map_append, List.append_assoc] at h hsettled
  obtain ⟨middle, hbefore, hbehind⟩ := h.split
  obtain ⟨hsteady, hsteady'⟩ := hbefore.settled hsettled
  obtain ⟨final, htail, hrest⟩ := hbehind.split
  obtain ⟨hsteadyTail, hsteadyRest⟩ := htail.settled hsteady'
  have hroomTail : ∀ d ∈ l :: after, d.HasRoom :=
    fun d hd => hroom d (List.mem_append_right before hd)
  have hfront := hbefore.codeBytes_le hsteady fun d hd => hroom d (List.mem_append_left _ hd)
  have hback := htail.codeBytes_le hsteadyTail hroomTail
  have hend := hrest.location_le hsteadyRest
  rw [Listing.codeBytes_append] at hfilled
  rw [List.map_cons] at htail hsteadyTail
  cases htail with
  | cons hstep haddress _ =>
    have hplace := (hsteadyTail.step_cases hstep).1
    exact ⟨middle.location, haddress.trans hplace, by omega⟩

end Counter.Places

/-! ## Programs of one record -/

/-- The only record of a program that it covers starts where the program does, and is at least as
long. -/
theorem Assembly.Made.filled_of_uncovered_eq_zero {settings : Settings} {source : List Statement}
    {a : Assembly} (h : a.Made settings source)
    (hfirst : hasStart a.statements = true → ∃ p ∈ a.statements.head?, p.isStart = true) {t : Text}
    (htext : a.program.text = [t]) (hcovered : a.program.uncovered = 0) :
    t.start.toNat = a.start.toNat ∧ a.length.toNat ≤ t.size := by
  obtain ⟨lead, lines, rest, c, last, hlisting, hblank, hplaces, hsettled, hbegin, hend⟩ :=
    h.exists_settled hfirst
  have hspan : a.program.header.span = ⟨a.start.toNat, a.start.toNat + a.length.toNat⟩ := by
    rw [h.program]
    rfl
  have hcover : ∀ address, a.start.toNat ≤ address → address < a.start.toNat + a.length.toNat →
      t.start.toNat ≤ address ∧ address < t.start.toNat + t.size := by
    intro address hlow hhigh
    have hmem : address ∈ a.program.header.span := by
      rw [hspan]
      exact ⟨hlow, hhigh⟩
    obtain ⟨u, hu, hspanned⟩ := Object.Program.uncovered_eq_zero_iff.mp hcovered address hmem
    rw [htext] at hu
    rw [List.mem_singleton.mp hu] at hspanned
    exact hspanned
  obtain ⟨l, hl, hcode, haddress⟩ := h.exists_line_of_mem_text (t := t) (by simp [htext])
  have hmem : l ∈ lines := by
    rw [hlisting] at hl
    exact (List.mem_append.mp hl).resolve_left fun hlead => hcode (hblank l hlead).1
  obtain ⟨address, hsome, hlow, hhigh⟩ := hplaces.exists_address hsettled l.toPlaced
    (List.mem_append_left rest (List.mem_map.mpr ⟨l, hmem, rfl⟩))
  obtain rfl : address = t.start := Option.some.inj (hsome.symm.trans haddress)
  rw [UInt32.le_iff_toNat_le] at hlow hhigh
  -- An empty program has no address to be covered, but its record cannot start anywhere else.
  by_cases hempty : a.length.toNat = 0
  · omega
  · have hstart := hcover a.start.toNat (Nat.le_refl _) (by omega)
    have hlast := hcover (a.start.toNat + a.length.toNat - 1) (by omega) (by omega)
    omega

/-- There is no warning just if a program with a single record has no uncovered address. -/
theorem Command.layoutWarning_eq_nil_iff {file : Bytes} {p : Object.Program} :
    Command.layoutWarning file p = [] ↔ (p.text.length = 1 → p.uncovered = 0) := by
  unfold Command.layoutWarning Object.Program.misplaced?
  by_cases hleft : p.text.length = 1 ∧ p.uncovered ≠ 0
  · simp [hleft]
  · rw [if_neg hleft]
    simpa using hleft

/-- If there is no warning about a program that is assembled without a limit, with nothing before
the first START statement, opcodes of two digits and addresses of four, then all its code is in one
Text record, and the codes before the code of a line lead to the address of the line. -/
theorem atOffset_of_layoutWarning_eq_nil {name : Bytes} {source : Input} {table : Opcode.Table}
    {choices : List Choice} {settings : Settings} {a : Assembly}
    (hsettings : Settings.ofChoices choices = .ok settings) (hlimit : settings.textLimit = 0)
    (h : assemble name source (some table) choices = .ok a)
    (hfirst : hasStart a.statements = true → ∃ p ∈ a.statements.head?, p.isStart = true)
    (hopcodes : ∀ p ∈ a.statements, ∀ opcode, p.operation = .instruction opcode →
      opcode.length = 2 ∧ ∀ b ∈ opcode, Numeral.isHexDigit b = true)
    (hsymbols : ∀ symbol ∈ a.symbols, symbol.address.toNat ≤ 0xFFFF)
    (file : Bytes) (hwarning : Command.layoutWarning file a.program = []) :
    ∀ before l after, a.listing = before ++ l :: after → l.code ≠ [] →
      ∃ t, a.program.text = [t] ∧
        t.codes = (Listing.coded before).map Line.code ++
          l.code :: (Listing.coded after).map Line.code ∧
        l.AtOffset t (Listing.coded before) := by
  obtain ⟨used, hused, hmade⟩ := made_of_assemble h
  obtain rfl : used = settings := Except.ok.inj (hused.symm.trans hsettings)
  have hroom : ∀ l ∈ a.listing, l.HasRoom := by
    intro l hl size hsize
    obtain ⟨hmem, hcode⟩ := hmade.mem_statements hl
    exact Statement.codeSize_le hcode (hopcodes l.toPlaced hmem) hsymbols hsize
  intro before l after hsplit hcode
  have hcoded : Listing.coded a.listing = Listing.coded before ++ l :: Listing.coded after := by
    simp [hsplit, Listing.coded, hcode]
  have htext : a.program.text = [Listing.record (Listing.coded a.listing)] := by
    rw [hmade.program, hlimit]
    exact Listing.records_of_not_pos (by decide) (by simp [hcoded])
  have hcovered : a.program.uncovered = 0 :=
    Command.layoutWarning_eq_nil_iff.mp hwarning (by simp [htext])
  obtain ⟨hstart, hfull⟩ := hmade.filled_of_uncovered_eq_zero hfirst htext hcovered
  rw [Listing.size_record, Listing.codeBytes_coded] at hfull
  refine ⟨_, htext, by rw [Listing.codes_record, hcoded, List.map_append, List.map_cons], ?_⟩
  obtain ⟨lead, lines, rest, c, last, hlisting, hblank, hplaces, hsettled, hbegin, hend⟩ :=
    hmade.exists_settled hfirst
  have hlead : ∀ d ∈ lead, d.code = [] := fun d hd => (hblank d hd).1
  have hnone := Listing.codeBytes_eq_zero hlead
  obtain ⟨middle, rfl, hlines⟩ :=
    Listing.exists_eq_append_of_blank hlead hcode (hlisting.symm.trans hsplit)
  rw [hlisting, Listing.codeBytes_append] at hfull
  obtain ⟨address, haddress, hvalue⟩ := hplaces.address_of_filled hsettled
    (fun d hd => hroom d (by simp [hlisting, hd])) (by omega) hlines
  rw [Line.AtOffset, haddress, Option.map_some, hstart, Listing.codeBytes_coded,
    Listing.codeBytes_append]
  congr 1
  omega

/-- A source whose code leaves no gap. -/
def filledSource : Input := .ofBytes (utf8
  "P START 1000\nA LDA C\nB BYTE X''\nC WORD 1\nD RESB 0\nE BYTE C'zz'\nF LDA A\nEND\nG RESW 0")

theorem atOffset_of_layoutWarning_eq_nil_filledSource :
    ∃ settings a t before l after, Settings.ofChoices [] = .ok settings ∧ settings.textLimit = 0 ∧
      assemble [] filledSource (some loadTable) [] = .ok a ∧
      Command.layoutWarning (utf8 "p.obj") a.program = [] ∧ a.listing = before ++ l :: after ∧
      a.program.text = [t] ∧ t.codes = [utf8 "0a1003", utf8 "000001", utf8 "7A7A"] ++ l.code :: [] ∧
      l.address = some 0x1008 ∧ l.AtOffset t (Listing.coded before) := by
  have hsettings : Settings.ofChoices [] = .ok ⟨0, false⟩ := rfl
  have ha := eq_ok_of_isOk (default : Assembly)
    (x := assemble [] filledSource (some loadTable) []) (by decide +kernel)
  generalize hresult :
      (assemble [] filledSource (some loadTable) []).toOption.getD default = a at ha
  have hfacts : (hasStart a.statements = true → ∃ p ∈ a.statements.head?, p.isStart = true) ∧
      (∀ p ∈ a.statements, ∀ opcode, p.operation = .instruction opcode →
        opcode.length = 2 ∧ ∀ b ∈ opcode, Numeral.isHexDigit b = true) ∧
      (∀ symbol ∈ a.symbols, symbol.address.toNat ≤ 0xFFFF) ∧
      Command.layoutWarning (utf8 "p.obj") a.program = [] ∧
      a.listing = a.listing.take 6 ++ a.listing.getD 6 default :: a.listing.drop 7 ∧
      (a.listing.getD 6 default).code ≠ [] ∧ (a.listing.getD 6 default).address = some 0x1008 ∧
      (Listing.coded (a.listing.take 6)).map Line.code =
        [utf8 "0a1003", utf8 "000001", utf8 "7A7A"] ∧
      (Listing.coded (a.listing.drop 7)).map Line.code = [] := by
    rw [← hresult]
    decide +kernel
  obtain ⟨hfirst, hopcodes, hsymbols, hwarning, hsplit, hcode, haddress, hbefore, hafter⟩ := hfacts
  obtain ⟨t, htext, hcodes, hoffset⟩ :=
    atOffset_of_layoutWarning_eq_nil hsettings rfl ha hfirst hopcodes
    hsymbols _ hwarning _ _ _ hsplit hcode
  rw [hbefore, hafter] at hcodes
  exact ⟨_, a, t, _, _, _, hsettings, rfl, ha, hwarning, hsplit, htext, hcodes, haddress, hoffset⟩

end TwoPass
