import Mathlib.Algebra.Order.BigOperators.Group.List
import TwoPass.Proofs.Assembly.Code
import TwoPass.Proofs.Assembly.Groups

set_option autoImplicit false

/-!
# Addresses inside a Text record

A Text record has one address, that of its first code; the loader puts every further code behind the
bytes of those before it.  Under a limit a record holds no line that reserves storage, so the
statement of a code stands behind the bytes of the codes before it and their surplus.  The surplus
is what a literal of digits is given beyond its code: it moves every later code of the record away
from its statement.
-/

namespace TwoPass

open Object (Text codeSize)

namespace Listing

/-- The bytes of the codes of lines. -/
def codeBytes (lines : List Line) : Nat := (lines.map fun l => codeSize l.code).sum

@[simp] theorem codeBytes_cons (l : Line) (lines : List Line) :
    codeBytes (l :: lines) = codeSize l.code + codeBytes lines := List.sum_cons

@[simp] theorem codeBytes_append (front back : List Line) :
    codeBytes (front ++ back) = codeBytes front + codeBytes back := by
  simp [codeBytes]

/-- Lines without code have no bytes. -/
theorem codeBytes_eq_zero {lines : List Line} (h : ∀ l ∈ lines, l.code = []) :
    codeBytes lines = 0 := by
  rw [codeBytes, List.sum_eq_zero_iff]
  intro size hsize
  obtain ⟨l, hl, rfl⟩ := List.mem_map.mp hsize
  rw [h l hl]
  rfl

/-- So the lines with code have all of them. -/
@[simp] theorem codeBytes_coded (lines : List Line) :
    codeBytes (coded lines) = codeBytes lines := by
  induction lines with
  | nil => rfl
  | cons l lines ih =>
    by_cases hcode : l.code = []
    · have hskip : coded (l :: lines) = coded lines := by simp [coded, hcode]
      rw [hskip, ih, codeBytes_cons, hcode]
      exact (Nat.zero_add _).symm
    · have hkeep : coded (l :: lines) = l :: coded lines := by simp [coded, hcode]
      rw [hkeep, codeBytes_cons, ih, codeBytes_cons]

/-- The record of lines has the bytes of their codes. -/
theorem size_record (group : List Line) : (record group).size = codeBytes group := by
  rw [record, Text.size_ofRun, Object.runSize, List.map_map]
  rfl

/-- The surplus of lines. -/
def surplus (lines : List Line) : Nat := (lines.map fun l => l.surplus).sum

theorem surplus_eq_zero_iff {lines : List Line} :
    surplus lines = 0 ↔ ∀ l ∈ lines, l.surplus = 0 := by
  simp [surplus, List.sum_eq_zero_iff]

/-- Lines in front that have no code and reserve nothing make no difference to the records. -/
theorem records_append_of_blank (limit : Int) {lead : List Line} (lines : List Line)
    (hblank : ∀ l ∈ lead, l.code = [] ∧ l.operation.reserves = false) :
    records limit (lead ++ lines) = records limit lines := by
  induction lead with
  | nil => rfl
  | cons l lead ih =>
    obtain ⟨hcode, hreserves⟩ := hblank l List.mem_cons_self
    rw [← ih fun l' hl' => hblank l' (List.mem_cons_of_mem l hl')]
    simp [records, group, hcode, hreserves]

theorem coded_append_of_blank {lead : List Line} (lines : List Line)
    (hblank : ∀ l ∈ lead, l.code = [] ∧ l.operation.reserves = false) :
    coded (lead ++ lines) = coded lines := by
  have hnone : coded lead = [] := by
    rw [coded, List.filter_eq_nil_iff]
    intro l hl
    simp [(hblank l hl).1]
  rw [coded, List.filter_append]
  exact congrArg (· ++ coded lines) hnone

end Listing

/-! ## Codes of a stretch of lines -/

/-- The location counter gives to a line the bytes of its code and the surplus, unless it reserves
storage. -/
structure Line.Counted (l : Line) : Prop where
  /-- the bytes of the code, and the surplus -/
  size : l.operation.reserves = false → l.size = .ok (codeSize l.code + l.surplus)
  /-- reserved storage has no code -/
  reserved : l.operation.reserves = true → l.code = []
  /-- what has no code has no surplus -/
  blank : l.code = [] → l.surplus = 0

/-- Under a limit, none of the lines of a record reserves storage. -/
theorem Listing.Unbroken.reserves_eq_false {limit : Int} {lines : List Line}
    (h : Unbroken limit lines) (hlimit : 0 < limit) (hcounted : ∀ l ∈ lines, l.Counted) :
    ∀ l ∈ lines, l.operation.reserves = false := by
  intro l hl
  by_contra hne
  have hreserves : l.operation.reserves = true := Bool.of_not_eq_false hne
  exact hne (h hlimit l hl ((hcounted l hl).reserved hreserves))

namespace Counter.Places

variable {c last : Counter} {lines : List Line}

/-- Where no line reserves storage, the statement of a code stands behind the bytes of the codes
before it and their surplus. -/
theorem address_of_coded (h : Counter.Places c (lines.map Line.toPlaced) last)
    (hsettled : c.Settled (lines.map Line.toPlaced)) (hcounted : ∀ l ∈ lines, l.Counted)
    (hfree : ∀ l ∈ lines, l.operation.reserves = false) {before after : List Line} {l : Line}
    (hcoded : Listing.coded lines = before ++ l :: after) :
    ∃ address, l.address = some address ∧
      address.toNat = c.location.toNat + Listing.codeBytes before + Listing.surplus before := by
  induction lines generalizing c before with
  | nil => simp [Listing.coded] at hcoded
  | cons first lines ih =>
    rw [List.map_cons] at h hsettled
    cases h with
    | @cons _ next _ _ _ hstep haddress hrest =>
      obtain ⟨hplace, ⟨size, hsized, hlocation⟩, _, hnext⟩ := hsettled.step_cases hstep
      have hmoved : size = codeSize first.code + first.surplus :=
        Except.ok.inj (hsized.symm.trans
          ((hcounted first List.mem_cons_self).size (hfree first List.mem_cons_self)))
      have hlater := @ih next hrest hnext (fun l hl => hcounted l (List.mem_cons_of_mem first hl))
        fun l hl => hfree l (List.mem_cons_of_mem first hl)
      by_cases hcode : first.code = []
      · -- A line without code is given nothing, so the counter stays where it is.
        have hzero := (hcounted first List.mem_cons_self).blank hcode
        have hstays : next.location.toNat = c.location.toNat := by
          rw [hlocation, hmoved, hzero, hcode]
          rfl
        rw [← hstays]
        exact hlater (by simpa [Listing.coded, hcode] using hcoded)
      · have hcons : first :: Listing.coded lines = before ++ l :: after := by
          simpa [Listing.coded, hcode] using hcoded
        cases before with
        | nil =>
          obtain ⟨rfl, _⟩ := List.cons.inj hcons
          exact ⟨c.location, haddress.trans hplace, rfl⟩
        | cons head before =>
          obtain ⟨rfl, hbehind⟩ := List.cons.inj hcons
          obtain ⟨address, hsome, hvalue⟩ := hlater hbehind
          refine ⟨address, hsome, ?_⟩
          simp only [Listing.codeBytes, Listing.surplus, List.map_cons, List.sum_cons] at hvalue ⊢
          omega

/-- The record of such lines starts where the counter does. -/
theorem start_record (h : Counter.Places c (lines.map Line.toPlaced) last)
    (hsettled : c.Settled (lines.map Line.toPlaced)) (hcounted : ∀ l ∈ lines, l.Counted)
    (hfree : ∀ l ∈ lines, l.operation.reserves = false) (hne : Listing.coded lines ≠ []) :
    (Listing.record (Listing.coded lines)).start.toNat = c.location.toNat := by
  obtain ⟨l, after, hcoded⟩ := List.exists_cons_of_ne_nil hne
  have hfront : Listing.coded lines = [] ++ l :: after := hcoded
  obtain ⟨address, haddress, hvalue⟩ := h.address_of_coded hsettled hcounted hfree hfront
  rw [hcoded]
  simpa [Listing.record, Text.ofRun, Line.item, haddress, Listing.codeBytes,
    Listing.surplus] using hvalue

end Counter.Places

/-! ## Codes of a program -/

/-- The statement of a code in a record stands behind the record's start, the bytes of the codes
before it and their surplus. -/
theorem Assembly.Made.address_of_mem_deal {settings : Settings} {source : List Statement}
    {a : Assembly} (h : a.Made settings source) (hlimit : 0 < settings.textLimit.val)
    (hfirst : hasStart a.statements = true → ∃ p ∈ a.statements.head?, p.isStart = true)
    (hcounted : ∀ l ∈ a.listing, l.Counted) {t : Text} {dealt : List Line}
    (hmem : (t, dealt) ∈ Listing.deal a.program.text (Listing.coded a.listing))
    {before after : List Line} {l : Line} (hdealt : dealt = before ++ l :: after) :
    ∃ address, l.address = some address ∧
      address.toNat = t.start.toNat + Listing.codeBytes before + Listing.surplus before := by
  have htext : a.program.text = Listing.records settings.textLimit.val a.listing := by
    rw [h.program]
  obtain ⟨lead, lines, rest, c, last, hlisting, hblank, hplaces, hsettled, _⟩ :=
    h.exists_settled hfirst
  obtain ⟨groups, hgroups, hflatten, _, hstretches⟩ :=
    Listing.exists_groups settings.textLimit.val lines
  rw [htext, hlisting, Listing.records_append_of_blank _ lines hblank,
    Listing.coded_append_of_blank lines hblank, hgroups, ← hflatten,
    Listing.deal_map_record] at hmem
  obtain ⟨group, hgroup, hpair⟩ := List.mem_map.mp hmem
  obtain ⟨rfl, rfl⟩ := Prod.mk.inj hpair
  obtain ⟨front, stretch, back, rfl, rfl, hunbroken⟩ := hstretches group hgroup
  simp only [List.map_append, List.append_assoc] at hplaces hsettled
  obtain ⟨_, hfront, htail⟩ := hplaces.split
  obtain ⟨_, hstretch, _⟩ := htail.split
  have hsteady := (hstretch.settled (hfront.settled hsettled).2).1
  have hsizes : ∀ d ∈ stretch, d.Counted := fun d hd => hcounted d (by rw [hlisting]; simp [hd])
  have hfree := hunbroken.reserves_eq_false (by omega) hsizes
  rw [hstretch.start_record hsteady hsizes hfree (by simp [hdealt])]
  exact hstretch.address_of_coded hsteady hsizes hfree hdealt

/-- A line of a record has the address that the codes before it lead to. -/
def Line.AtOffset (l : Line) (t : Text) (before : List Line) : Prop :=
  l.address.map UInt32.toNat = some (t.start.toNat + Listing.codeBytes before)

instance (l : Line) (t : Text) (before : List Line) : Decidable (l.AtOffset t before) :=
  inferInstanceAs (Decidable (_ = _))

/-- In a program that is assembled under a limit, with nothing before the first START statement,
opcodes of two digits and addresses of four, a Text record holds the codes of its lines.  The codes
that come before one in its record lead to the address of its statement just if none of them is from
a literal of digits with a body; otherwise the statement stands farther on, by the surplus of these
literals. -/
theorem atOffset_iff_of_assemble {name : Bytes} {source : Input} {table : Opcode.Table}
    {choices : List Choice} {settings : Settings} {a : Assembly}
    (hsettings : Settings.ofChoices choices = .ok settings) (hlimit : 0 < settings.textLimit.val)
    (h : assemble name source (some table) choices = .ok a)
    (hfirst : hasStart a.statements = true → ∃ p ∈ a.statements.head?, p.isStart = true)
    (hopcodes : ∀ p ∈ a.statements, ∀ opcode, p.operation = .instruction opcode →
      opcode.length = 2 ∧ ∀ b ∈ opcode, Numeral.isHexDigit b = true)
    (hsymbols : ∀ symbol ∈ a.symbols, symbol.address.toNat ≤ 0xFFFF) :
    ∀ t lines, (t, lines) ∈ Listing.deal a.program.text (Listing.coded a.listing) →
      t.codes = lines.map Line.code ∧
      ∀ before l after, lines = before ++ l :: after →
        (∃ address, l.address = some address ∧
          address.toNat = t.start.toNat + Listing.codeBytes before + Listing.surplus before) ∧
        (l.AtOffset t before ↔ ∀ d ∈ before, d.operation = .byte →
          ∀ body, Literal.read d.operand = .ok (.digits body) → body = []) := by
  obtain ⟨used, hused, hmade⟩ := made_of_assemble h
  obtain rfl : used = settings := Except.ok.inj (hused.symm.trans hsettings)
  have hcounted : ∀ l ∈ a.listing, l.Counted := by
    intro l hl
    obtain ⟨hmem, hcode⟩ := hmade.mem_statements hl
    refine ⟨Statement.size_of_code hcode (hopcodes l.toPlaced hmem) hsymbols,
      Statement.code_eq_nil_of_reserves hcode, ?_⟩
    intro hblank
    rw [hblank] at hcode
    exact Statement.surplus_of_code_nil hcode
  intro t lines hmem
  refine ⟨(hmade.groupsListing.starts t lines hmem).1, ?_⟩
  intro before l after hlines
  obtain ⟨address, haddress, hvalue⟩ := hmade.address_of_mem_deal hlimit hfirst hcounted hmem hlines
  refine ⟨⟨address, haddress, hvalue⟩, ?_⟩
  have hexact : l.AtOffset t before ↔ Listing.surplus before = 0 := by
    rw [Line.AtOffset, haddress, Option.map_some, Option.some.injEq]
    omega
  rw [hexact, Listing.surplus_eq_zero_iff]
  exact forall₂_congr fun d _ => Statement.surplus_eq_zero_iff

/-- A source with a literal of digits in the first of its two records. -/
def digitsSource : Input := .ofBytes (utf8
  "P START 1000\nA LDA C\nB BYTE X'F1'\nC WORD 1\nD RESW 2\nE BYTE C'z'\nF LDA A\nEND")

/-- In the second record every code is where its statement is. -/
theorem atOffset_iff_of_assemble_digitsSource :
    ∃ settings a t before l, Settings.ofChoices [.textLimit 30] = .ok settings ∧
      0 < settings.textLimit.val ∧
      assemble [] digitsSource (some loadTable) [.textLimit 30] = .ok a ∧
      (t, before ++ [l]) ∈ Listing.deal a.program.text (Listing.coded a.listing) ∧
      t.codes = [utf8 "7A", utf8 "0a1000"] ∧ l.AtOffset t before := by
  have hsettings : Settings.ofChoices [.textLimit 30] = .ok ⟨30, false⟩ := rfl
  have ha := eq_ok_of_isOk (default : Assembly)
    (x := assemble [] digitsSource (some loadTable) [.textLimit 30]) (by decide +kernel)
  generalize hresult : (assemble [] digitsSource (some loadTable) [.textLimit 30]).toOption.getD
    default = a at ha
  -- One evaluation settles everything that can be decided about the result.
  have hfacts : (hasStart a.statements = true → ∃ p ∈ a.statements.head?, p.isStart = true) ∧
      (∀ p ∈ a.statements, ∀ opcode, p.operation = .instruction opcode →
        opcode.length = 2 ∧ ∀ b ∈ opcode, Numeral.isHexDigit b = true) ∧
      (∀ symbol ∈ a.symbols, symbol.address.toNat ≤ 0xFFFF) ∧
      (a.program.text.getD 1 default, [a.listing.getD 5 default] ++ [a.listing.getD 6 default]) ∈
        Listing.deal a.program.text (Listing.coded a.listing) ∧
      (a.program.text.getD 1 default).codes = [utf8 "7A", utf8 "0a1000"] ∧
      ∀ d ∈ [a.listing.getD 5 default], d.surplus = 0 := by
    rw [← hresult]
    decide +kernel
  obtain ⟨hfirst, hopcodes, hsymbols, hdealt, hcodes, hplain⟩ := hfacts
  have hoffsets :=
    atOffset_iff_of_assemble hsettings (by decide) ha hfirst hopcodes hsymbols _ _ hdealt
  exact ⟨_, a, _, _, _, hsettings, by decide, ha, hdealt, hcodes, (hoffsets.2 _ _ _ rfl).2.mpr
    fun d hd => Statement.surplus_eq_zero_iff.mp (hplain d hd)⟩

/-- In the first record the literal moves the code behind it away from its statement. -/
theorem not_atOffset_digitsSource :
    ∃ a t before l, assemble [] digitsSource (some loadTable) [.textLimit 30] = .ok a ∧
      (hasStart a.statements = true → ∃ p ∈ a.statements.head?, p.isStart = true) ∧
      (∀ p ∈ a.statements, ∀ opcode, p.operation = .instruction opcode →
        opcode.length = 2 ∧ ∀ b ∈ opcode, Numeral.isHexDigit b = true) ∧
      (∀ symbol ∈ a.symbols, symbol.address.toNat ≤ 0xFFFF) ∧
      (t, before ++ [l]) ∈ Listing.deal a.program.text (Listing.coded a.listing) ∧
      ¬ l.AtOffset t before := by
  have ha := eq_ok_of_isOk (default : Assembly)
    (x := assemble [] digitsSource (some loadTable) [.textLimit 30]) (by decide +kernel)
  generalize hresult : (assemble [] digitsSource (some loadTable) [.textLimit 30]).toOption.getD
    default = a at ha
  refine ⟨a, a.program.text.getD 0 default, [a.listing.getD 1 default, a.listing.getD 2 default],
    a.listing.getD 3 default, ha, ?_⟩
  rw [← hresult]
  decide +kernel

end TwoPass
