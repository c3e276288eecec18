import TwoPass.Proofs.Assembly.Records

set_option autoImplicit false

/-!
# Sessions leave nothing behind

The state of a session outlives its passes: a first pass that fails leaves statements and symbols, a
second pass leaves diagnostics, and the opcode table may change in between.  All that a later second
pass depends on is what the last first pass left for it, or that it failed.  Each operation is shown
to keep this; along any history, a second pass then yields what assembly from scratch yields.
-/

namespace TwoPass

namespace Session

/-! ## The first pass -/

/-- A session with another program in it. -/
def withProgram (session : Session) (counter : Counter) (statements : List Placed) (scope : Scope) :
    Session :=
  { session with
    counter := counter
    statements := statements.toArray
    symbols := scope.symbols
    diagnostics := scope.duplicates }

/-- A session that has placed statements. -/
def holding (session : Session) (counter : Counter) (statements : List Placed) : Session :=
  session.withProgram counter statements (Scope.ofStatements statements)

theorem define_withProgram (session : Session) (counter : Counter) (statements placed : List Placed)
    (p : Placed) :
    (session.withProgram counter statements (Scope.ofStatements placed)).define p =
      session.withProgram counter statements (Scope.ofStatements (placed ++ [p])) := by
  unfold define
  cases hsymbol : p.symbol? with
  | none => simp [Scope.ofStatements, hsymbol]
  | some symbol => simp [Scope.ofStatements, hsymbol, withProgram]

theorem place_of_step_ok {session : Session} {counter next : Counter} {placed : List Placed}
    {s : Statement} (h : counter.step s = .ok next) :
    (session.holding counter placed).place s =
      (session.holding next (placed ++ [{ s with address := counter.addressOf s }]), none) := by
  have hstep : (session.holding counter placed).counter.step s = .ok next := h
  simp only [place, hstep]
  rw [holding, define_withProgram]
  simp [holding, withProgram]

/-- A statement at fault leaves its label behind. -/
theorem place_of_step_error {session : Session} {counter : Counter} {placed : List Placed}
    {s : Statement} {cause : Cause} (h : counter.step s = .error cause) :
    (session.holding counter placed).place s =
      (session.withProgram counter placed
        (Scope.ofStatements (placed ++ [{ s with address := counter.addressOf s }])),
        some ⟨s.position, cause⟩) := by
  have hstep : (session.holding counter placed).counter.step s = .error cause := h
  simp only [place, hstep]
  rw [holding, define_withProgram]
  rfl

/-- Statements that can be laid out are placed. -/
theorem placeAll_of_extend_ok (session : Session) {source : List Statement} {counter : Counter}
    {placed : List Placed} {layout : Layout}
    (h : Layout.extend counter placed source = .ok layout) :
    (session.holding counter placed.reverse).placeAll source =
      (session.holding layout.counter layout.statements, none) := by
  -- A layout in the making keeps its statements latest first, a session keeps them in order.
  induction source generalizing counter placed with
  | nil =>
    obtain rfl := Except.ok.inj h
    rfl
  | cons s rest ih =>
    unfold Layout.extend at h
    split at h
    · simp at h
    · rename_i next hstep
      have hrest := ih h
      rw [List.reverse_cons] at hrest
      rw [placeAll, place_of_step_ok hstep]
      exact hrest

/-- The first statement that cannot be laid out ends placement. -/
theorem placeAll_of_extend_error (session : Session) {source : List Statement} {counter : Counter}
    {placed : List Placed} {diagnostic : Diagnostic}
    (h : Layout.extend counter placed source = .error diagnostic) :
    ∃ counter' statements scope, (session.holding counter placed.reverse).placeAll source =
      (session.withProgram counter' statements scope, some diagnostic) := by
  induction source generalizing counter placed with
  | nil => simp [Layout.extend] at h
  | cons s rest ih =>
    unfold Layout.extend at h
    split at h
    · rename_i cause hstep
      obtain rfl := Except.error.inj h
      exact ⟨_, _, _, by rw [placeAll, place_of_step_error hstep]⟩
    · rename_i next hstep
      obtain ⟨counter', statements, scope, hrest⟩ := ih h
      rw [List.reverse_cons] at hrest
      refine ⟨counter', statements, scope, ?_⟩
      rw [placeAll, place_of_step_ok hstep]
      exact hrest

/-- A session stands ready with what a first pass left. -/
structure Recalls (session : Session) (first : Intermediate) : Prop where
  ready : session.ready = true
  counter : session.counter = first.layout.counter
  statements : session.statements.toList = first.layout.statements
  symbols : session.symbols = first.scope.symbols
  length : session.length = first.layout.length
  duplicates : session.duplicates = first.scope.duplicates.size
  /-- the diagnostics of the first pass come before all others -/
  diagnostics : first.scope.duplicates.toList <+: session.diagnostics.toList

/-- The first pass depends on the settings and the table alone, and leaves what it should, or
fails. -/
theorem runFirst_cases (session : Session) (name : Bytes) (source : Input) :
    ∃ next, next.settings = session.settings ∧ next.table = session.table ∧
      ((∃ first, firstPass session.settings session.table name source = .ok first ∧
          session.runFirst name source = (next, none) ∧ next.Recalls first) ∨
        ∃ failure, firstPass session.settings session.table name source = .error failure ∧
          session.runFirst name source = (next, some failure) ∧ next.ready = false) := by
  have hreset : session.reset = session.reset.holding .initial ([] : List Placed).reverse := rfl
  simp only [firstPass, runFirst]
  -- Faults come in the order in which the pass meets them; none of them makes the session ready.
  cases hlayout : Layout.ofStatements (Statement.ofLines session.table name source.read.lines) with
  | error diagnostic =>
    obtain ⟨counter, statements, scope, hplace⟩ := placeAll_of_extend_error session.reset hlayout
    rw [← hreset] at hplace
    simp only [hplace]
    exact ⟨session.reset.withProgram counter statements scope, rfl, rfl, Or.inr ⟨_, rfl, rfl, rfl⟩⟩
  | ok layout =>
    have hplace := placeAll_of_extend_ok session.reset hlayout
    rw [← hreset] at hplace
    simp only [hplace]
    cases source.read.fault with
    | some fault =>
      exact ⟨session.reset.holding layout.counter layout.statements, rfl, rfl,
        Or.inr ⟨_, rfl, rfl, rfl⟩⟩
    | none =>
      have haccept : (session.reset.holding layout.counter layout.statements).settings.accept
          (session.reset.holding layout.counter layout.statements).diagnostics.toList =
          session.settings.accept (Scope.ofStatements layout.statements).duplicates.toList := rfl
      simp only [haccept]
      cases session.settings.accept (Scope.ofStatements layout.statements).duplicates.toList with
      | error failure =>
        exact ⟨{ session.reset.holding layout.counter layout.statements with
          length := layout.length }, rfl, rfl, Or.inr ⟨_, rfl, rfl, rfl⟩⟩
      | ok =>
        refine ⟨_, ?_, ?_, Or.inl ⟨_, rfl, rfl, ?_⟩⟩
        · rfl
        · rfl
        · exact ⟨rfl, rfl, rfl, rfl, rfl, rfl, List.prefix_rfl⟩

/-! ## The second pass -/

/-- A session with further diagnostics. -/
def adding (session : Session) (extra : List Diagnostic) : Session :=
  { session with diagnostics := session.diagnostics ++ extra.toArray }

@[simp] theorem symbols_adding (session : Session) (extra : List Diagnostic) :
    (session.adding extra).symbols = session.symbols := rfl

theorem check_eq (session : Session) (p : Placed) :
    session.check p = session.adding (p.undefined? session.symbols).toList := by
  unfold check
  cases p.undefined? session.symbols with
  | none => simp [adding]
  | some diagnostic => simp [adding]

theorem adding_nil (session : Session) : session.adding [] = session := by
  simp [adding]

theorem adding_adding (session : Session) (extra extra' : List Diagnostic) :
    (session.adding extra).adding extra' = session.adding (extra ++ extra') := by
  simp [adding, Array.append_assoc]

end Session

namespace Listing

theorem ofStatements_cons (symbols : List Symbol) (p : Placed) (rest : List Placed) :
    ofStatements symbols (p :: rest) = (line symbols p).bind fun l =>
      if p.operation = .finish then .ok [l] else (ofStatements symbols rest).map (l :: ·) := by
  unfold ofStatements
  rw [upToEnd_cons]
  split
  · rw [List.mapM_cons]
    cases line symbols p <;> rfl
  · rw [List.mapM_cons]
    cases line symbols p with
    | error diagnostic => rfl
    | ok l => cases (upToEnd rest).mapM (line symbols) <;> rfl

theorem undefined_cons (symbols : List Symbol) (p : Placed) (rest : List Placed) :
    undefined symbols (p :: rest) = (p.undefined? symbols).toList ++
      if p.operation = .finish then [] else undefined symbols rest := by
  unfold undefined
  rw [upToEnd_cons]
  split
  · cases hundefined : p.undefined? symbols <;> simp [hundefined]
  · cases hundefined : p.undefined? symbols <;> simp [hundefined]

end Listing

namespace Session

/-- Statements that all have code are listed and grouped; only diagnostics are added to the
session. -/
theorem list_of_ok (session : Session) (lines : Array Line) (g : Object.Grouping) {ps : List Placed}
    {listed : List Line} (h : Listing.ofStatements session.symbols ps = .ok listed) :
    session.list lines g ps = (session.adding (Listing.undefined session.symbols ps),
      .ok (lines ++ listed.toArray, listed.foldl Listing.group g)) := by
  induction ps generalizing session lines g listed with
  | nil =>
    obtain rfl : [] = listed := Except.ok.inj h
    simp [list, Listing.undefined, Listing.upToEnd, adding_nil]
  | cons p rest ih =>
    rw [Listing.ofStatements_cons] at h
    obtain ⟨l, hline, h⟩ := bind_eq_ok_iff.mp h
    simp only [list, check_eq, symbols_adding, hline, Listing.undefined_cons]
    by_cases hend : p.operation = .finish
    · rw [if_pos hend] at h
      obtain rfl := Except.ok.inj h
      simp [hend]
    · rw [if_neg hend] at h
      obtain ⟨later, hlater, rfl⟩ := map_eq_ok_iff.mp h
      have hrest := ih (session.adding (p.undefined? session.symbols).toList) (lines.push l)
        (Listing.group g l) hlater
      rw [if_neg hend, if_neg hend, hrest, adding_adding]
      simp

/-- A statement at fault ends the listing; it too leaves only diagnostics in the session. -/
theorem list_of_error (session : Session) (lines : Array Line) (g : Object.Grouping)
    {ps : List Placed}
    {diagnostic : Diagnostic} (h : Listing.ofStatements session.symbols ps = .error diagnostic) :
    ∃ extra, session.list lines g ps = (session.adding extra, .error diagnostic) := by
  induction ps generalizing session lines g with
  | nil => simp [Listing.ofStatements, Listing.upToEnd, pure, Except.pure] at h
  | cons p rest ih =>
    rw [Listing.ofStatements_cons] at h
    simp only [list, check_eq, symbols_adding]
    cases hline : Listing.line session.symbols p with
    | error fault =>
      rw [hline] at h
      obtain rfl := Except.error.inj h
      exact ⟨_, rfl⟩
    | ok l =>
      rw [hline] at h
      by_cases hend : p.operation = .finish
      · simp [hend, Except.bind] at h
      · simp only [Except.bind, if_neg hend] at h
        have hrest := map_eq_error_iff.mp h
        obtain ⟨extra, hlist⟩ := ih (session.adding (p.undefined? session.symbols).toList)
          (lines.push l) (Listing.group g l) hrest
        refine ⟨(p.undefined? session.symbols).toList ++ extra, ?_⟩
        simp only [if_neg hend, hlist, adding_adding]

/-- Without a first pass before it that succeeded, the second pass fails. -/
theorem second_of_not_ready {session : Session} (h : session.ready = false) :
    session.second = (session, .error .noFirstPass) := by
  simp [second, h]

namespace Recalls

variable {session : Session} {first : Intermediate}

/-- More diagnostics make no difference. -/
theorem adding (h : session.Recalls first) (extra : List Diagnostic) :
    (session.adding extra).Recalls first := by
  refine { h with diagnostics := ?_ }
  refine h.diagnostics.trans ?_
  simp [Session.adding]

/-- Only the diagnostics of the first pass are kept, whatever second passes have added. -/
theorem diagnostics_clear (h : session.Recalls first) :
    session.clear.diagnostics = first.scope.duplicates := by
  apply Array.ext'
  rw [clear, h.duplicates, List.prefix_iff_eq_take.mp h.diagnostics]
  simp

theorem clear (h : session.Recalls first) : session.clear.Recalls first :=
  { h with diagnostics := ⟨[], by rw [h.diagnostics_clear, List.append_nil]⟩ }

/-- Listing what the first pass left completes its result. -/
theorem complete_eq (h : session.Recalls first) {undefined : List Diagnostic}
    (hdiagnostics : session.diagnostics.toList = first.scope.duplicates.toList ++ undefined)
    (limit : Int) (lines : List Line) :
    session.complete lines (Listing.records limit lines) =
      first.complete limit lines undefined := by
  simp only [Session.complete, Intermediate.complete, h.statements, h.counter, h.length, h.symbols,
    hdiagnostics]
  rfl

/-- The second pass yields what it should and leaves what the first pass left, whether or not it
fails. -/
theorem second (h : session.Recalls first) :
    ∃ next, next.settings = session.settings ∧ next.table = session.table ∧ next.Recalls first ∧
      session.second = (next, secondPass session.settings first) := by
  simp only [Session.second, h.ready, if_true]
  generalize hg : Object.Grouping.new session.clear.settings.textLimit.val = g
  cases hlisting : Listing.ofStatements session.clear.symbols session.clear.statements.toList with
  | error diagnostic =>
    obtain ⟨extra, hlist⟩ := list_of_error session.clear #[] g hlisting
    rw [h.clear.symbols, h.clear.statements] at hlisting
    refine ⟨session.clear.adding extra, rfl, rfl, h.clear.adding extra, ?_⟩
    simp only [hlist, secondPass, hlisting]
  | ok lines =>
    have hlist := list_of_ok session.clear #[] g hlisting
    rw [h.clear.symbols, h.clear.statements] at hlist hlisting
    generalize hundefined : Listing.undefined first.scope.symbols first.layout.statements =
        undefined
      at hlist
    have hdiagnostics : (session.clear.adding undefined).diagnostics.toList =
        first.scope.duplicates.toList ++ undefined := by
      simp [Session.adding, h.diagnostics_clear]
    have hresult :=
      (h.clear.adding undefined).complete_eq hdiagnostics session.settings.textLimit.val lines
    have haccept : (session.clear.adding undefined).settings.accept
        (first.scope.duplicates.toList ++ undefined) = session.settings.accept
          (first.complete session.settings.textLimit.val lines undefined).diagnostics := rfl
    refine ⟨session.clear.adding undefined, rfl, rfl, h.clear.adding undefined, ?_⟩
    rw [h.clear.statements, hlist]
    simp only [secondPass, hlisting, hundefined, hdiagnostics, haccept]
    cases session.settings.accept
      (first.complete session.settings.textLimit.val lines undefined).diagnostics with
    | error failure => rfl
    | ok =>
      rw [← hresult, ← hg, Array.empty_append]
      rfl

end Recalls

/-! ## Histories -/

/-- An operation on a session. -/
inductive Action where
  /-- the first pass over a source -/
  | first (name : Bytes) (source : Input)
  /-- the second pass -/
  | second
  /-- a change of the opcode table -/
  | change (change : Opcode.Table.Change)
  deriving DecidableEq, Repr, Inhabited

/-- Whether the operation is a first pass. -/
def Action.isFirst : Action → Bool
  | .first _ _ => true
  | _ => false

/-- A session after an operation. -/
def act (session : Session) : Action → Session
  | .first name source => (session.runFirst name source).1
  | .second => session.second.1
  | .change change => session.changeTable change

/-- A session after operations in order, whether or not they succeed. -/
def after (session : Session) (history : List Action) : Session := history.foldl act session

/-- An opcode table after an operation. -/
def tableAct (table : Opcode.Table) : Action → Opcode.Table
  | .change change => table.change change
  | _ => table

/-- An opcode table after operations. -/
def tableAfter (table : Opcode.Table) (history : List Action) : Opcode.Table :=
  history.foldl tableAct table

/-- All that a session stands for: its settings, its table, and what the last first pass left, if it
succeeded. -/
structure StandsFor (session : Session) (settings : Settings) (table : Opcode.Table)
    (first : Option Intermediate) : Prop where
  settings : session.settings = settings
  table : session.table = table
  /-- without a first pass that succeeded, the session is not ready -/
  unready : first = none → session.ready = false
  /-- a first pass that succeeded is recalled -/
  recalls : ∀ left, first = some left → session.Recalls left

/-- What a second pass yields from what the last first pass left. -/
def outcome (settings : Settings) : Option Intermediate → Except Failure Assembly
  | none => .error .noFirstPass
  | some left => secondPass settings left

namespace StandsFor

variable {session : Session} {settings : Settings} {table : Opcode.Table}
  {first : Option Intermediate}

theorem of_new {choices : List Choice} (h : Session.new table choices = .ok session) :
    ∃ settings, Settings.ofChoices choices = .ok settings ∧
      session.StandsFor settings table none := by
  obtain ⟨settings, hsettings, hnew⟩ := bind_eq_ok_iff.mp h
  obtain rfl := Except.ok.inj hnew
  exact ⟨settings, hsettings, rfl, rfl, fun _ => rfl, by simp⟩

/-- A first pass replaces what the session stands for. -/
theorem runFirst (h : session.StandsFor settings table first) (name : Bytes) (source : Input) :
    (∃ left, firstPass settings table name source = .ok left ∧
      (session.runFirst name source).2 = none ∧
      (session.runFirst name source).1.StandsFor settings table (some left)) ∨
    ∃ failure, firstPass settings table name source = .error failure ∧
      (session.runFirst name source).2 = some failure ∧
      (session.runFirst name source).1.StandsFor settings table none := by
  obtain ⟨next, hsettings, htable, hcases⟩ := session.runFirst_cases name source
  rw [h.settings, h.table] at hcases
  rw [h.settings] at hsettings
  rw [h.table] at htable
  rcases hcases with ⟨left, hpass, hrun, hrecalls⟩ | ⟨failure, hpass, hrun, hready⟩
  · refine Or.inl ⟨left, hpass, by rw [hrun], ?_⟩
    rw [hrun]
    exact ⟨hsettings, htable, by simp, by rintro _ ⟨⟩; exact hrecalls⟩
  · refine Or.inr ⟨failure, hpass, by rw [hrun], ?_⟩
    rw [hrun]
    exact ⟨hsettings, htable, fun _ => hready, by simp⟩

/-- A second pass changes nothing that the session stands for. -/
theorem second (h : session.StandsFor settings table first) :
    session.second.1.StandsFor settings table first := by
  cases first with
  | none =>
    rw [second_of_not_ready (h.unready rfl)]
    exact h
  | some left =>
    obtain ⟨next, hsettings, htable, hrecalls, hsecond⟩ := (h.recalls left rfl).second
    rw [hsecond]
    exact ⟨hsettings.trans h.settings, htable.trans h.table, by simp,
      by rintro _ ⟨⟩; exact hrecalls⟩

theorem changeTable (h : session.StandsFor settings table first) (change : Opcode.Table.Change) :
    (session.changeTable change).StandsFor settings (table.change change) first := by
  refine ⟨h.settings, by rw [← h.table]; rfl, h.unready, fun left hleft => ?_⟩
  exact { h.recalls left hleft with }

/-- Only a first pass changes what the session stands for, its table apart. -/
theorem act (h : session.StandsFor settings table first) (action : Action) :
    ∃ first', (session.act action).StandsFor settings (tableAct table action) first' ∧
      (action.isFirst = false → first' = first) := by
  cases action with
  | first name source =>
    rcases h.runFirst name source with ⟨left, _, _, hnext⟩ | ⟨_, _, _, hnext⟩
    · exact ⟨_, hnext, by simp [Action.isFirst]⟩
    · exact ⟨_, hnext, by simp [Action.isFirst]⟩
  | second => exact ⟨_, h.second, fun _ => rfl⟩
  | change change => exact ⟨_, h.changeTable change, fun _ => rfl⟩

theorem after (h : session.StandsFor settings table first) (history : List Action) :
    ∃ first', (session.after history).StandsFor settings (tableAfter table history) first' ∧
      ((∀ action ∈ history, action.isFirst = false) → first' = first) := by
  induction history generalizing session table first with
  | nil => exact ⟨first, h, fun _ => rfl⟩
  | cons action history ih =>
    obtain ⟨next, hnext, hkept⟩ := h.act action
    obtain ⟨last, hlast, hkeeps⟩ := ih hnext
    refine ⟨last, hlast, fun hnone => ?_⟩
    rw [hkeeps fun a ha => hnone a (List.mem_cons_of_mem action ha)]
    exact hkept (hnone action List.mem_cons_self)

theorem runSecond_eq (h : session.StandsFor settings table first) :
    session.runSecond = outcome settings first := by
  cases first with
  | none =>
    rw [runSecond, second_of_not_ready (h.unready rfl)]
    rfl
  | some left =>
    obtain ⟨next, _, _, _, hsecond⟩ := (h.recalls left rfl).second
    rw [runSecond, hsecond, h.settings]
    rfl

end StandsFor

/-- After a history, a second pass depends on nothing but the last first pass. -/
structure StartsAfresh (session : Session) (table : Opcode.Table) (choices : List Choice)
    (history : List Action) : Prop where
  /-- without a first pass, the second one fails -/
  unprepared : (∀ action ∈ history, action.isFirst = false) →
    (session.after history).runSecond = .error .noFirstPass
  /-- after a first pass that succeeded, it yields what assembly from scratch yields -/
  prepared : ∀ before name source later, history = before ++ .first name source :: later →
    (∀ action ∈ later, action.isFirst = false) →
    ((session.after before).runFirst name source).2 = none →
    (session.after history).runSecond =
      assemble name source (some (tableAfter table before)) choices
  /-- a first pass fails like assembly from scratch, and the second one after it fails too -/
  failed : ∀ before name source later failure, history = before ++ .first name source :: later →
    (∀ action ∈ later, action.isFirst = false) →
    ((session.after before).runFirst name source).2 = some failure →
    assemble name source (some (tableAfter table before)) choices = .error failure ∧
      (session.after history).runSecond = .error .noFirstPass
  /-- another second pass yields the same -/
  again : (session.after (history ++ [.second])).runSecond = (session.after history).runSecond

theorem after_append_first (session : Session) (before later : List Action) (name : Bytes)
    (source : Input) :
    session.after (before ++ .first name source :: later) =
      ((session.after before).runFirst name source).1.after later := by
  simp only [after, List.foldl_append, List.foldl_cons]
  rfl

/-- Assembly from scratch, with the settings that were chosen. -/
theorem assemble_eq_bind {choices : List Choice} {settings : Settings}
    (h : Settings.ofChoices choices = .ok settings) (name : Bytes) (source : Input)
    (table : Opcode.Table) :
    assemble name source (some table) choices =
      firstPass settings table name source >>= secondPass settings := by
  simp only [assemble, h, ok_bind]

/-- Nothing of a session's history shows, but its last first pass. -/
theorem startsAfresh {table : Opcode.Table} {choices : List Choice} {session : Session}
    (h : Session.new table choices = .ok session) (history : List Action) :
    session.StartsAfresh table choices history ∧
      Failure.message .noFirstPass = utf8 "pass 2 requires a successful pass 1" := by
  obtain ⟨settings, hsettings, hnew⟩ := StandsFor.of_new h
  refine ⟨{ unprepared := ?_, prepared := ?_, failed := ?_, again := ?_ }, rfl⟩
  · intro hnone
    obtain ⟨first, hlast, hkept⟩ := hnew.after history
    obtain rfl := hkept hnone
    exact hlast.runSecond_eq
  · rintro before name source later rfl hlater hanswer
    obtain ⟨_, hbefore, _⟩ := hnew.after before
    rw [after_append_first, assemble_eq_bind hsettings]
    rcases hbefore.runFirst name source with ⟨left, hpass, _, hnext⟩ | ⟨_, _, hfails, _⟩
    · obtain ⟨first, hlast, hkept⟩ := hnext.after later
      obtain rfl := hkept hlater
      rw [hpass]
      exact hlast.runSecond_eq
    · simp [hfails] at hanswer
  · rintro before name source later failure rfl hlater hanswer
    obtain ⟨_, hbefore, _⟩ := hnew.after before
    rw [after_append_first, assemble_eq_bind hsettings]
    rcases hbefore.runFirst name source with ⟨_, _, hsucceeds, _⟩ | ⟨fault, hpass, hfails, hnext⟩
    · simp [hsucceeds] at hanswer
    · obtain ⟨first, hlast, hkept⟩ := hnext.after later
      obtain rfl := hkept hlater
      obtain rfl := Option.some.inj (hfails.symm.trans hanswer)
      rw [hpass]
      exact ⟨rfl, hlast.runSecond_eq⟩
  · obtain ⟨first, hlast, _⟩ := hnew.after history
    have hagain : session.after (history ++ [.second]) = (session.after history).second.1 := by
      simp [after, act]
    rw [hagain, hlast.second.runSecond_eq, hlast.runSecond_eq]

/-- Operations before a first pass: a second pass that comes too early, a first pass that fails
behind two labels, and an instruction that is added to the table. -/
def unevenStart : List Action :=
  [.second, .first (utf8 "x") (.ofBytes (utf8 "A WORD 1\nA RESW y")), .second,
    .change (.set (utf8 "ADD") (utf8 "18"))]

/-- Operations after it: two second passes, between which the table is lost. -/
def unevenRest : List Action := [.second, .change (.reload ⟨[], some .brokenOff⟩), .second]

/-- A source with a duplicate label and an operand that nothing defines. -/
def pairedSource : Input := .ofBytes (utf8 "P START 0\nA ADD B\nA LDA A\nEND")

theorem startsAfresh_unevenStart :
    ∃ session a, Session.new loadTable [.textLimit 3] = .ok session ∧
      (session.after (unevenStart ++ .first [] pairedSource :: unevenRest)).runSecond = .ok a ∧
      assemble [] pairedSource (some (tableAfter loadTable unevenStart)) [.textLimit 3] = .ok a ∧
      a.diagnostics.length = 2 ∧ a.program.text.length = 2 := by
  have hnew : Session.new loadTable [.textLimit 3] =
      .ok ⟨⟨3, false⟩, loadTable, .initial, #[], [], #[], 0, 0, false⟩ := rfl
  have ha := eq_ok_of_isOk (default : Assembly)
    (x := assemble [] pairedSource (some (tableAfter loadTable unevenStart)) [.textLimit 3])
    (by decide +kernel)
  have hfresh :=
    (startsAfresh hnew (unevenStart ++ .first [] pairedSource :: unevenRest)).1.prepared
    unevenStart [] pairedSource unevenRest rfl (by decide) (by decide +kernel)
  exact ⟨_, _, hnew, hfresh.trans ha, ha, by decide +kernel, by decide +kernel⟩

end Session

end TwoPass
