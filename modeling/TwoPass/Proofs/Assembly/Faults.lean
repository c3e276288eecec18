import TwoPass.Proofs.Assembly.LocationCounter
import TwoPass.Proofs.Assembly.Sessions
import TwoPass.Proofs.Source.Fields
import TwoPass.Proofs.Source.Operands

set_option autoImplicit false

/-!
# The first statement at fault

Each pass has a rule that a statement keeps or breaks, given the statements before it.  The first
pass asks for operands that can be measured and for room in the address space, of all statements;
the second one asks for numbers that fit their words, of the statements up to the first END
statement.  A pass succeeds just if all statements keep its rule, and fails at the first one that
breaks it.
-/

namespace TwoPass

/-! ## Rules along a list -/

/-- A rule holds of every element, given the elements before it. -/
def Throughout {α : Type} (rule : List α → α → Prop) (xs : List α) : Prop :=
  ∀ before x after, xs = before ++ x :: after → rule before x

/-- An element is the first one that breaks a rule. -/
def FirstBreach {α : Type} (rule : List α → α → Prop) (xs : List α) (x : α) : Prop :=
  ∃ before after, xs = before ++ x :: after ∧ Throughout rule before ∧ ¬ rule before x

section

variable {α : Type} {rule : List α → α → Prop} {x y : α} {xs : List α}

theorem Throughout.nil : Throughout rule [] := by
  intro before x after heq
  simp at heq

theorem Throughout.cons (hx : rule [] x) (hxs : Throughout (fun before => rule (x :: before)) xs) :
    Throughout rule (x :: xs) := by
  intro before y after heq
  cases before with
  | nil =>
    obtain ⟨rfl, _⟩ := List.cons.inj heq
    exact hx
  | cons first before =>
    obtain ⟨rfl, hrest⟩ := List.cons.inj heq
    exact hxs before y after hrest

theorem FirstBreach.here (hx : ¬ rule [] x) : FirstBreach rule (x :: xs) x :=
  ⟨[], xs, rfl, .nil, hx⟩

theorem FirstBreach.cons (hx : rule [] x)
    (hxs : FirstBreach (fun before => rule (x :: before)) xs y) :
    FirstBreach rule (x :: xs) y := by
  obtain ⟨before, after, rfl, hbefore, hy⟩ := hxs
  exact ⟨x :: before, after, rfl, hbefore.cons hx, hy⟩

theorem FirstBreach.not_throughout (h : FirstBreach rule xs x) : ¬ Throughout rule xs := by
  obtain ⟨before, after, heq, _, hx⟩ := h
  exact fun hall => hx (hall before x after heq)

theorem FirstBreach.mem (h : FirstBreach rule xs x) : x ∈ xs := by
  obtain ⟨before, after, rfl, _⟩ := h
  simp

end

/-- A pass enforces a rule: it succeeds if all statements keep it, and fails at the first one that
breaks it. -/
def Enforces {β : Type} (rule : List Statement → Statement → Prop) (statements : List Statement) :
    Except Diagnostic β → Prop
  | .ok _ => Throughout rule statements
  | .error d =>
    ∃ s, FirstBreach rule statements s ∧ d.position = s.position ∧ d.cause.kind = s.faultKind

namespace Enforces

variable {β γ : Type} {rule : List Statement → Statement → Prop} {s : Statement}
  {rest : List Statement} {outcome : Except Diagnostic β}

theorem here {cause : Cause} (hs : ¬ rule [] s) (hkind : cause.kind = s.faultKind) :
    Enforces rule (s :: rest) (.error ⟨s.position, cause⟩ : Except Diagnostic β) :=
  ⟨s, .here hs, rfl, hkind⟩

theorem cons (hs : rule [] s) (h : Enforces (fun before => rule (s :: before)) rest outcome) :
    Enforces rule (s :: rest) outcome := by
  cases outcome with
  | ok b => exact Throughout.cons hs h
  | error d =>
    obtain ⟨t, hbreach, hplace⟩ := h
    exact ⟨t, hbreach.cons hs, hplace⟩

theorem map (h : Enforces rule rest outcome) (f : β → γ) : Enforces rule rest (outcome.map f) := by
  cases outcome with
  | ok b => exact h
  | error d => exact h

end Enforces

/-! ## The rule of the first pass -/

/-- Where the location counter stands behind statements: at the address of the first START statement
and the bytes of the statements behind it, or at the bytes of all statements if there is none. -/
def locationAfter (statements : List Statement) : Nat :=
  match statements.dropWhile fun s => !s.isStart with
  | [] => (statements.map Statement.room).sum
  | start :: behind => Numeral.value 16 start.operand + (behind.map Statement.room).sum

/-- What the first pass asks of a statement behind others. -/
structure Statement.Placeable (before : List Statement) (s : Statement) : Prop extends s.Sized where
  /-- the first START statement has a hexadecimal number of 24 bits -/
  start : s.isStart = true → before.any Statement.isStart = false →
    Numeral.IsNumeral 16 s.operand ∧ Numeral.value 16 s.operand < 2 ^ 24
  /-- the location counter does not pass the end of the address space -/
  room : locationAfter (before ++ [s]) ≤ 2 ^ 24

/-- The first START statement sets the location. -/
theorem locationAfter_append_start {before : List Statement} {s : Statement}
    (hbefore : before.any Statement.isStart = false) (hs : s.isStart = true) :
    locationAfter (before ++ [s]) = Numeral.value 16 s.operand := by
  have hskip : ∀ t ∈ before, (!t.isStart) = true := by
    intro t ht
    simpa using List.any_eq_false.mp hbefore t ht
  rw [locationAfter, List.dropWhile_append_of_pos hskip, List.dropWhile_cons_of_neg (by simp [hs])]
  rfl

/-- Every other statement moves it on. -/
theorem locationAfter_append {before : List Statement} {s : Statement}
    (h : (s.isStart && !before.any Statement.isStart) = false) :
    locationAfter (before ++ [s]) = locationAfter before + s.room := by
  unfold locationAfter
  rw [List.dropWhile_append]
  cases hdrop : before.dropWhile fun t => !t.isStart with
  | nil =>
    have hbefore : before.any Statement.isStart = false := by
      rw [List.any_eq_false]
      intro t ht
      simpa using List.dropWhile_eq_nil_iff.mp hdrop t ht
    have hs : s.isStart = false := by simpa [hbefore] using h
    simp [hs]
  | cons start behind => simp [Nat.add_assoc]

/-! ## One step of the first pass -/

/-- The counter after it has gone over statements that keep the rule. -/
structure Counter.Stands (c : Counter) (before : List Statement) : Prop where
  /-- it knows whether the program has begun -/
  started : c.started = before.any Statement.isStart
  /-- it stands behind the statements -/
  location : c.location.toNat = locationAfter before

namespace Counter.Stands

variable {c next : Counter} {before : List Statement} {s : Statement}

theorem initial : Counter.Stands .initial [] := ⟨rfl, rfl⟩

theorem begins_eq (h : c.Stands before) (s : Statement) :
    c.begins s = (s.isStart && !before.any Statement.isStart) := by
  rw [Counter.begins, h.started, Statement.isStart]

/-- A step that succeeds takes a statement that keeps the rule. -/
theorem step_ok (h : c.Stands before) (hstep : c.step s = .ok next) :
    s.Placeable before ∧ next.Stands (before ++ [s]) := by
  rcases Counter.step_cases hstep with ⟨hbegins, address, haddress, rfl⟩ |
    ⟨hbegins, size, hsize, hfits, rfl⟩
  · rw [h.begins_eq, Bool.and_eq_true, Bool.not_eq_true'] at hbegins
    obtain ⟨hs, hbefore⟩ := hbegins
    have hoperation : s.operation = .start := by simpa [Statement.isStart] using hs
    obtain ⟨hdigits, hvalue, hlt⟩ := Statement.startAddress_eq_ok_iff.mp haddress
    have hlocation := locationAfter_append_start hbefore hs
    rw [hvalue] at hlocation
    refine ⟨⟨⟨?_, ?_⟩, ?_, ?_⟩, ?_, ?_⟩
    · simp [hoperation, Operation.reserves]
    · simp [hoperation]
    · intro _ _
      rw [hvalue]
      exact ⟨hdigits, hlt⟩
    · rw [hlocation]
      exact Nat.le_of_lt hlt
    · simp [hs]
    · exact hlocation.symm
  · rw [h.begins_eq] at hbegins
    obtain ⟨hsized, rfl⟩ := Statement.size_eq_ok_iff.mp hsize
    have hlocation := locationAfter_append hbegins
    rw [← h.location] at hlocation
    refine ⟨⟨hsized, ?_, ?_⟩, ?_, ?_⟩
    · intro hs hbefore
      simp [hs, hbefore] at hbegins
    · rw [hlocation]
      exact hfits
    · show c.started = _
      rw [h.started, List.any_append]
      cases hs : s.isStart with
      | false => simp [hs]
      | true =>
        have hbefore : before.any Statement.isStart = true := by simpa [hs] using hbegins
        simp [hbefore]
    · rw [hlocation]
      exact Counter.toNat_location_add hfits

/-- A step that fails is at a statement that breaks the rule. -/
theorem step_error (h : c.Stands before) {cause : Cause} (hstep : c.step s = .error cause) :
    ¬ s.Placeable before ∧ cause.kind = s.faultKind := by
  unfold Counter.step at hstep
  split at hstep
  · rename_i hbegins
    rw [h.begins_eq, Bool.and_eq_true, Bool.not_eq_true'] at hbegins
    obtain ⟨hs, hbefore⟩ := hbegins
    have hoperation : s.operation = .start := by simpa [Statement.isStart] using hs
    have hnumber := map_eq_error_iff.mp (map_eq_error_iff.mp hstep)
    constructor
    · intro hplaceable
      obtain ⟨hdigits, hlt⟩ := hplaceable.start hs hbefore
      rw [Statement.number_eq_ok_iff.mpr ⟨hdigits, rfl, hlt⟩] at hnumber
      simp at hnumber
    · rw [Statement.kind_of_number_eq_error hnumber, Statement.faultKind,
        if_neg (by simp [hoperation])]
  · rename_i hbegins
    rw [h.begins_eq, Bool.not_eq_true] at hbegins
    cases hsize : s.size with
    | error fault =>
      rw [hsize] at hstep
      obtain rfl := Except.error.inj hstep
      refine ⟨?_, Statement.kind_of_size_eq_error hsize⟩
      intro hplaceable
      rw [Statement.size_eq_ok_iff.mpr ⟨hplaceable.toSized, rfl⟩] at hsize
      simp at hsize
    | ok size =>
      rw [hsize] at hstep
      change c.advance size = _ at hstep
      obtain ⟨hsized, rfl⟩ := Statement.size_eq_ok_iff.mp hsize
      unfold Counter.advance at hstep
      split at hstep
      · rename_i hfull
        obtain rfl := Except.error.inj hstep
        constructor
        · intro hplaceable
          have hroom := hplaceable.room
          rw [locationAfter_append hbegins, ← h.location] at hroom
          rw [Counter.overflows_eq_false_iff.mpr hroom] at hfull
          simp at hfull
        · rw [Statement.faultKind, if_neg fun hbad => hbad.2 (hsized.literal hbad.1)]
          rfl
      · simp at hstep

end Counter.Stands

/-! ## Whole passes -/

/-- The first pass enforces its rule on all statements. -/
theorem Layout.enforces_extend {c : Counter} {before : List Statement} (h : c.Stands before)
    (placed : List Placed) (statements : List Statement) :
    Enforces (fun between => Statement.Placeable (before ++ between)) statements
      (Layout.extend c placed statements) := by
  induction statements generalizing c before placed with
  | nil => exact Throughout.nil
  | cons s rest ih =>
    unfold Layout.extend
    cases hstep : c.step s with
    | error cause =>
      obtain ⟨hbad, hkind⟩ := h.step_error hstep
      exact .here (by simpa using hbad) hkind
    | ok next =>
      obtain ⟨hgood, hnext⟩ := h.step_ok hstep
      have hrest := ih hnext ({ s with address := c.addressOf s } :: placed)
      simp only [List.append_assoc, List.singleton_append] at hrest
      exact .cons (by simpa using hgood) hrest

/-- What the second pass asks of a statement behind others. -/
def Statement.Codable (before : List Statement) (s : Statement) : Prop :=
  s.operation = .word → (∀ t ∈ before, t.operation ≠ .finish) → IsWord s.operand

/-- The second pass enforces its rule, if the first one has enforced its own. -/
theorem Listing.enforces_ofStatements (symbols : List Symbol) {ps : List Placed}
    (h : ∀ p ∈ ps, p.operation = .byte → IsLiteral p.operand) :
    Enforces Statement.Codable (ps.map Placed.toStatement) (Listing.ofStatements symbols ps) := by
  induction ps with
  | nil => exact Throughout.nil
  | cons p rest ih =>
    have hliteral := h p List.mem_cons_self
    have hrest := ih fun q hq => h q (List.mem_cons_of_mem p hq)
    rw [Listing.ofStatements_cons, Listing.line, List.map_cons]
    cases hcode : p.code symbols with
    | error cause =>
      refine .here ?_ (Statement.kind_of_code_eq_error hliteral hcode)
      intro hword
      have hexists : ∃ code, p.code symbols = .ok code :=
        (Statement.exists_code_iff hliteral).mpr fun hoperation => hword hoperation (by simp)
      simp [hcode] at hexists
    | ok code =>
      have hword := (Statement.exists_code_iff hliteral).mp ⟨code, hcode⟩
      refine .cons (fun hoperation _ => hword hoperation) ?_
      show Enforces _ _ (if p.operation = .finish then _ else _)
      by_cases hend : p.operation = .finish
      · rw [if_pos hend]
        -- Behind the END statement the rule asks for nothing.
        intro before s after _ _ hnone
        exact absurd hend (hnone p.toStatement List.mem_cons_self)
      · rw [if_neg hend]
        have hsame : (fun before => Statement.Codable (p.toStatement :: before)) =
            Statement.Codable := by
          funext before s
          simp [Statement.Codable, hend]
        rw [hsame]
        exact hrest.map _

/-- Assembly that only collects diagnostics is placing and listing. -/
theorem assemble_eq_of_not_strict {choices : List Choice} {settings : Settings} {source : Input}
    (hsettings : Settings.ofChoices choices = .ok settings) (hstrict : settings.strict = false)
    (hfault : source.read.fault = none) (name : Bytes) (table : Opcode.Table) :
    assemble name source (some table) choices =
      (Layout.ofStatements (Statement.ofLines table name source.read.lines)).mapError .fatal >>=
        fun layout =>
        let scope := Scope.ofStatements layout.statements
        ((Listing.ofStatements scope.symbols layout.statements).mapError .fatal).map fun lines =>
          Intermediate.complete settings.textLimit.val ⟨layout, scope⟩ lines
            (Listing.undefined scope.symbols layout.statements) := by
  have haccept : ∀ diagnostics, settings.accept diagnostics = .ok () := by
    intro diagnostics
    simp [Settings.accept, hstrict]
  rw [Session.assemble_eq_bind hsettings]
  simp only [firstPass, hfault, haccept]
  cases Layout.ofStatements (Statement.ofLines table name source.read.lines) with
  | error d => rfl
  | ok layout =>
    simp only [ok_bind, secondPass, haccept, Except.mapError]
    cases Listing.ofStatements (Scope.ofStatements layout.statements).symbols
      layout.statements <;> rfl

/-! ## Assembly -/

/-- How the assembly of a source ends, told from the statements on its lines. -/
structure EndsAtFirstFault (table : Opcode.Table) (name : Bytes) (lines : List Bytes)
    (outcome : Except Failure Assembly) : Prop where
  /-- it succeeds just if all statements keep the rules of both passes -/
  succeeds : (∃ a, outcome = .ok a) ↔
    Throughout Statement.Placeable (Statement.ofLines table name lines) ∧
      Throughout Statement.Codable (Statement.ofLines table name lines)
  /-- it fails at the line of the first statement that breaks the rule of the first pass, or, if
  there is none, that of the second; only a BYTE statement without a literal is a syntax error -/
  fails : ∀ failure, outcome = .error failure →
    ∃ (n : Nat) (line : Bytes) (s : Statement) (cause : Cause),
    lines[n]? = some line ∧ Statement.ofLine? table ⟨name, n + 1⟩ line = some s ∧
    (FirstBreach Statement.Placeable (Statement.ofLines table name lines) s ∨
      Throughout Statement.Placeable (Statement.ofLines table name lines) ∧
        FirstBreach Statement.Codable (Statement.ofLines table name lines) s) ∧
    failure = .fatal ⟨⟨name, n + 1⟩, cause⟩ ∧
    cause.kind.name =
      if s.operation = .byte ∧ ¬ IsLiteral s.operand then utf8 "syntax error"
      else utf8 "invalid number"

theorem Statement.name_faultKind (s : Statement) :
    s.faultKind.name =
      if s.operation = .byte ∧ ¬ IsLiteral s.operand then utf8 "syntax error"
      else utf8 "invalid number" := by
  unfold Statement.faultKind
  split <;> rfl

/-- The diagnostic of a pass that enforces a rule, by the line where it is. -/
theorem Enforces.exists_line {β : Type} {rule : List Statement → Statement → Prop}
    {table : Opcode.Table} {name : Bytes} {lines : List Bytes} {d : Diagnostic}
    (h : Enforces rule (Statement.ofLines table name lines) (.error d : Except Diagnostic β)) :
    ∃ (n : Nat) (line : Bytes) (s : Statement), lines[n]? = some line ∧
      Statement.ofLine? table ⟨name, n + 1⟩ line = some s ∧
      FirstBreach rule (Statement.ofLines table name lines) s ∧
      d = ⟨⟨name, n + 1⟩, d.cause⟩ ∧ d.cause.kind = s.faultKind := by
  obtain ⟨s, hbreach, hposition, hkind⟩ := h
  obtain ⟨n, line, hline, hs⟩ := Statement.exists_number_of_mem_ofLines hbreach.mem
  have hplace : s.position = ⟨name, n + 1⟩ := by
    rw [Statement.eq_of_ofLine?_eq_some hs, Statement.ofFields]
  refine ⟨n, line, s, hline, hs, hbreach, ?_, hkind⟩
  rw [← hplace, ← hposition]

/-- A fatal diagnostic at the first statement that breaks a rule is how assembly ends. -/
theorem EndsAtFirstFault.of_breach {table : Opcode.Table} {name : Bytes} {lines : List Bytes}
    {n : Nat} {line : Bytes} {s : Statement} {d : Diagnostic} (hline : lines[n]? = some line)
    (hs : Statement.ofLine? table ⟨name, n + 1⟩ line = some s)
    (hbreach : FirstBreach Statement.Placeable (Statement.ofLines table name lines) s ∨
      Throughout Statement.Placeable (Statement.ofLines table name lines) ∧
        FirstBreach Statement.Codable (Statement.ofLines table name lines) s)
    (hd : d = ⟨⟨name, n + 1⟩, d.cause⟩) (hkind : d.cause.kind = s.faultKind) :
    EndsAtFirstFault table name lines (.error (.fatal d)) := by
  constructor
  · constructor
    · rintro ⟨a, ha⟩
      simp at ha
    · rintro ⟨hplaced, hcoded⟩
      rcases hbreach with hbreach | ⟨_, hbreach⟩
      · exact absurd hplaced hbreach.not_throughout
      · exact absurd hcoded hbreach.not_throughout
  · intro failure hfailure
    obtain rfl := Except.error.inj hfailure
    exact ⟨n, line, s, d.cause, hline, hs, hbreach, by rw [← hd],
      by rw [hkind, Statement.name_faultKind]⟩

/-- The statements that the first pass has placed have literals where they need them. -/
theorem Layout.isLiteral_of_ofStatements {statements : List Statement} {layout : Layout}
    (h : Layout.ofStatements statements = .ok layout) :
    ∀ p ∈ layout.statements, p.operation = .byte → IsLiteral p.operand := by
  intro p hp
  have henforces := Layout.enforces_extend Counter.Stands.initial [] statements
  rw [show Layout.extend .initial [] statements = .ok layout from h] at henforces
  have hmem : p.toStatement ∈ statements := by
    rw [← (Layout.places_of_extend h).2]
    exact List.mem_map.mpr ⟨p, hp, rfl⟩
  obtain ⟨before, after, hsplit⟩ := List.append_of_mem hmem
  exact (henforces before p.toStatement after hsplit).literal

/-- Assembly that only collects diagnostics fails exactly at the first statement at fault, and the
second pass has code for every BYTE statement that the first one lets through. -/
theorem endsAtFirstFault_assemble {choices : List Choice} {settings : Settings} {source : Input}
    (hsettings : Settings.ofChoices choices = .ok settings) (hstrict : settings.strict = false)
    (hlines : ∀ line ∈ rawLines source.text, line.length < 65536) (hfault : source.fault = none)
    (name : Bytes) (table : Opcode.Table) :
    EndsAtFirstFault table name source.read.lines (assemble name source (some table) choices) ∧
      ∀ first, firstPass settings table name source = .ok first →
        ∀ p ∈ first.layout.statements, p.operation = .byte →
          ∀ symbols, ∃ code, p.code symbols = .ok code := by
  have hread : source.read.fault = none := by
    have hall : (rawLines source.text).all fitsBuffer = true := by
      rw [List.all_eq_true]
      intro line hline
      exact decide_eq_true (hlines line hline)
    simp [Input.read, hall, hfault]
  constructor
  · rw [assemble_eq_of_not_strict hsettings hstrict hread]
    have hplaces := Layout.enforces_extend Counter.Stands.initial []
      (Statement.ofLines table name source.read.lines)
    simp only [List.nil_append] at hplaces
    change Enforces _ _ (Layout.ofStatements _) at hplaces
    cases hlayout : Layout.ofStatements (Statement.ofLines table name source.read.lines) with
    | error d =>
      rw [hlayout] at hplaces
      obtain ⟨n, line, s, hline, hs, hbreach, hd, hkind⟩ := hplaces.exists_line
      exact .of_breach hline hs (.inl hbreach) hd hkind
    | ok layout =>
      rw [hlayout] at hplaces
      have hcodes := Listing.enforces_ofStatements (Scope.ofStatements layout.statements).symbols
        (Layout.isLiteral_of_ofStatements hlayout)
      rw [(Layout.places_of_extend hlayout).2] at hcodes
      simp only [Except.mapError, ok_bind]
      cases hlisting : Listing.ofStatements (Scope.ofStatements layout.statements).symbols
          layout.statements with
      | error d =>
        rw [hlisting] at hcodes
        obtain ⟨n, line, s, hline, hs, hbreach, hd, hkind⟩ := hcodes.exists_line
        exact .of_breach hline hs (.inr ⟨hplaces, hbreach⟩) hd hkind
      | ok lines =>
        rw [hlisting] at hcodes
        constructor
        · exact ⟨fun _ => ⟨hplaces, hcodes⟩, fun _ => ⟨_, rfl⟩⟩
        · intro failure hfailure
          simp [Except.map] at hfailure
  · intro first hfirst p hp hoperation symbols
    have hliteral := Layout.isLiteral_of_ofStatements (eq_of_firstPass_eq_ok hfirst).1 p hp
    exact (Statement.exists_code_iff hliteral).mpr (by simp [hoperation])

/-- A source with three statements at fault: a word that only the second pass looks at, and behind
it a literal and a count. -/
def threeFaults : Input := .ofBytes (utf8 "P START 0\nA WORD x\nB BYTE X'G'\nEND\nC RESW 1x")

/-- Its literal is reported, with the line where it stands. -/
theorem endsAtFirstFault_assemble_threeFaults :
    EndsAtFirstFault loadTable [] threeFaults.read.lines
        (assemble [] threeFaults (some loadTable) [.textLimit 9]) ∧
      assemble [] threeFaults (some loadTable) [.textLimit 9] =
        .error (.fatal ⟨⟨[], 3⟩, .badLiteral (.badDigit 0x47) (utf8 "X'G'")⟩) := by
  refine ⟨?_, by decide +kernel⟩
  have hsettings : Settings.ofChoices [.textLimit 9] = .ok ⟨9, false⟩ := by decide
  exact (endsAtFirstFault_assemble hsettings rfl (by decide +kernel) rfl [] loadTable).1

end TwoPass
