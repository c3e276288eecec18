import TwoPass.Proofs.Assembly.Sessions

set_option autoImplicit false

/-!
# Strict assembly

Strict settings end assembly where a pass leaves diagnostics behind.  Each strict pass is the pass
that only collects them, followed by a look at what it has collected.  A strict run is therefore
known from the passes that collect: whichever of them comes first decides, a failure or diagnostics,
so the diagnostics of the first pass hide a statement that the second one would fail on.
-/

namespace TwoPass

/-! ## Passes that look at their diagnostics -/

/-- Strict settings go on where nothing has been recorded, and fail with the first ten diagnostics
otherwise. -/
theorem Settings.accept_strict_bind (limit : Fin 256) (recorded : Array Diagnostic) {α : Type}
    (next : Except Failure α) :
    ((Settings.mk limit true).accept recorded.toList >>= fun _ => next) =
      if recorded.isEmpty then next else .error (.rejected (recorded.toList.take 10)) := by
  obtain ⟨diagnostics⟩ := recorded
  cases diagnostics <;> rfl

theorem Settings.accept_strict_eq_ok_iff {limit : Fin 256} {diagnostics : List Diagnostic} :
    (Settings.mk limit true).accept diagnostics = .ok () ↔ diagnostics = [] := by
  cases diagnostics <;> simp [Settings.accept]

/-- A strict first pass is one that collects, and looks at the duplicates. -/
theorem firstPass_strict (limit : Fin 256) (table : Opcode.Table) (name : Bytes) (source : Input) :
    firstPass ⟨limit, true⟩ table name source =
      firstPass ⟨limit, false⟩ table name source >>= fun first =>
        (Settings.mk limit true).accept first.scope.duplicates.toList >>= fun _ => .ok first := by
  simp only [firstPass]
  cases Layout.ofStatements (Statement.ofLines table name source.read.lines) with
  | error diagnostic => rfl
  | ok layout =>
    cases source.read.fault with
    | some fault => rfl
    | none =>
      have hcollects : (Settings.mk limit false).accept
          (Scope.ofStatements layout.statements).duplicates.toList = .ok () := rfl
      simp only [hcollects, ok_bind]
      cases (Settings.mk limit true).accept
        (Scope.ofStatements layout.statements).duplicates.toList <;> rfl

/-- A strict second pass is one that collects, and looks at all diagnostics. -/
theorem secondPass_strict (limit : Fin 256) (first : Intermediate) :
    secondPass ⟨limit, true⟩ first =
      secondPass ⟨limit, false⟩ first >>= fun a =>
        (Settings.mk limit true).accept a.diagnostics >>= fun _ => .ok a := by
  simp only [secondPass]
  cases Listing.ofStatements first.scope.symbols first.layout.statements with
  | error diagnostic => rfl
  | ok lines =>
    have hcollects : (Settings.mk limit false).accept
        (first.complete limit.val lines
          (Listing.undefined first.scope.symbols first.layout.statements)).diagnostics =
            .ok () := rfl
    simp only [hcollects, ok_bind]
    cases (Settings.mk limit true).accept (first.complete limit.val lines
      (Listing.undefined first.scope.symbols first.layout.statements)).diagnostics <;> rfl

/-- Both strict passes, from the passes that collect. -/
theorem strict_passes_eq (limit : Fin 256) (table : Opcode.Table) (name : Bytes) (source : Input) :
    firstPass ⟨limit, true⟩ table name source >>= secondPass ⟨limit, true⟩ =
      firstPass ⟨limit, false⟩ table name source >>= fun first =>
        (Settings.mk limit true).accept first.scope.duplicates.toList >>= fun _ =>
          secondPass ⟨limit, false⟩ first >>= fun a =>
            (Settings.mk limit true).accept a.diagnostics >>= fun _ => .ok a := by
  simp only [firstPass_strict, bind_assoc, ok_bind, secondPass_strict]

/-- Both strict passes succeed just if both passes succeed and nothing is collected. -/
theorem strict_passes_eq_ok_iff {limit : Fin 256} {table : Opcode.Table} {name : Bytes}
    {source : Input} {a : Assembly} :
    firstPass ⟨limit, true⟩ table name source >>= secondPass ⟨limit, true⟩ = .ok a ↔
      firstPass ⟨limit, false⟩ table name source >>= secondPass ⟨limit, false⟩ = .ok a ∧
        a.diagnostics = [] := by
  simp only [strict_passes_eq, bind_eq_ok_iff]
  constructor
  · rintro ⟨first, hfirst, _, _, _, hsecond, _, haccept, hresult⟩
    obtain rfl := Except.ok.inj hresult
    exact ⟨⟨first, hfirst, hsecond⟩, Settings.accept_strict_eq_ok_iff.mp haccept⟩
  · rintro ⟨⟨first, hfirst, hsecond⟩, hclean⟩
    -- The diagnostics of the result begin with the duplicates, so there are none of these either.
    obtain ⟨lines, _, rfl, _⟩ := eq_of_secondPass_eq_ok hsecond
    have hduplicates : first.scope.duplicates.toList = [] := (List.append_eq_nil_iff.mp hclean).1
    exact ⟨first, hfirst, (), Settings.accept_strict_eq_ok_iff.mpr hduplicates, _, hsecond, (),
      Settings.accept_strict_eq_ok_iff.mpr hclean, rfl⟩

/-! ## What sessions record -/

namespace Session

/-- A first pass that succeeds records its duplicates, and nothing else. -/
theorem diagnostics_of_runFirst {session ready : Session} {name : Bytes} {source : Input}
    {first : Intermediate} (hrun : session.runFirst name source = (ready, none))
    (hrecalls : ready.Recalls first) : ready.diagnostics = first.scope.duplicates := by
  have hcounted : ready.duplicates = ready.diagnostics.size := by
    simp only [runFirst] at hrun
    split at hrun
    · simp at hrun
    · split at hrun
      · simp at hrun
      · split at hrun
        · simp at hrun
        · rw [← (Prod.mk.inj hrun).1]
  have hsize : first.scope.duplicates.toList.length = ready.diagnostics.toList.length := by
    simpa using hrecalls.duplicates.symm.trans hcounted
  exact Array.ext' (hrecalls.diagnostics.eq_of_length hsize).symm

/-- A result lists what the session has recorded. -/
theorem diagnostics_of_second {ready listed : Session} {a : Assembly}
    (h : ready.second = (listed, .ok a)) :
    a.diagnostics = listed.diagnostics.toList := by
  simp only [second] at h
  split at h
  · split at h
    · simp at h
    · split at h
      · simp at h
      · obtain ⟨rfl, hresult⟩ := Prod.mk.inj h
        rw [← Except.ok.inj hresult]
        rfl
  · simp at h

/-- The outcome of a strict run, from the passes of a session that collects diagnostics: what comes
first decides, the failure of a pass or what it has recorded. -/
def strictOutcome (session : Session) (name : Bytes) (source : Input) : Except Failure Assembly :=
  match session.runFirst name source with
  | (_, some failure) => .error failure
  | (ready, none) =>
    if ready.diagnostics.isEmpty then
      match ready.second with
      | (_, .error failure) => .error failure
      | (listed, .ok a) =>
        if listed.diagnostics.isEmpty then .ok a
        else .error (.rejected (listed.diagnostics.toList.take 10))
    else .error (.rejected (ready.diagnostics.toList.take 10))

/-- The passes of a session that collects lead to the outcome of the strict passes. -/
theorem strictOutcome_eq {session : Session} {limit : Fin 256} {table : Opcode.Table}
    {left : Option Intermediate} (h : session.StandsFor ⟨limit, false⟩ table left) (name : Bytes)
    (source : Input) :
    session.strictOutcome name source =
      firstPass ⟨limit, true⟩ table name source >>= secondPass ⟨limit, true⟩ := by
  obtain ⟨ready, hready, _, hcases⟩ := session.runFirst_cases name source
  rw [h.settings, h.table] at hcases
  rw [strict_passes_eq]
  rcases hcases with ⟨first, hpass, hrun, hrecalls⟩ | ⟨failure, hpass, hrun, _⟩
  · obtain ⟨listed, _, _, _, hsecond⟩ := hrecalls.second
    rw [hready, h.settings] at hsecond
    simp only [strictOutcome, hrun, hsecond, hpass, ok_bind, Settings.accept_strict_bind,
      diagnostics_of_runFirst hrun hrecalls]
    cases hresult : secondPass ⟨limit, false⟩ first with
    | error failure => rfl
    | ok a =>
      rw [hresult] at hsecond
      simp only [ok_bind, diagnostics_of_second hsecond, Settings.accept_strict_bind]
  · simp only [strictOutcome, hrun, hpass]
    rfl

end Session

/-! ## Strict runs -/

/-- The outcome of strict assembly is decided by the passes of an assembler that has the same limit
and only collects diagnostics; it succeeds just if that assembler does and collects none. -/
theorem assemble_eq_strictOutcome {table : Opcode.Table} {choices choices' : List Choice}
    {lax : Session}
    (hlax : Session.new table choices = .ok lax) (hcollects : lax.settings.strict = false)
    (hstrict : Settings.ofChoices choices' = .ok ⟨lax.settings.textLimit, true⟩) (name : Bytes)
    (source : Input) :
    assemble name source (some table) choices' = lax.strictOutcome name source ∧
      ∀ a, assemble name source (some table) choices' = .ok a ↔
        assemble name source (some table) choices = .ok a ∧ a.diagnostics = [] := by
  obtain ⟨⟨limit, strict⟩, hsettings, hnew⟩ := Session.StandsFor.of_new hlax
  rw [hnew.settings] at hcollects hstrict
  obtain rfl : strict = false := hcollects
  rw [Session.assemble_eq_bind hstrict, Session.assemble_eq_bind hsettings]
  exact ⟨(Session.strictOutcome_eq hnew name source).symm, fun a => strict_passes_eq_ok_iff⟩

/-- A source with a label defined again, and behind it a word that is no number. -/
def hiddenFault : Input := .ofBytes (utf8 "P START 0\nA LDA Z\nA RESB 1\nB WORD x\nEND")

/-- The duplicate hides the word from a strict run. -/
theorem assemble_eq_strictOutcome_hiddenFault :
    ∃ lax, Session.new loadTable [.textLimit 9] = .ok lax ∧ lax.settings.strict = false ∧
      Settings.ofChoices [.strict true, .textLimit 9] = .ok ⟨lax.settings.textLimit, true⟩ ∧
      assemble [] hiddenFault (some loadTable) [.strict true, .textLimit 9] =
        lax.strictOutcome [] hiddenFault ∧
      lax.strictOutcome [] hiddenFault =
        .error (.rejected [⟨⟨[], 3⟩, .duplicateLabel (utf8 "A") ⟨[], 2⟩⟩]) ∧
      assemble [] hiddenFault (some loadTable) [.textLimit 9] =
        .error (.fatal ⟨⟨[], 4⟩, .badNumber .wordValue .malformed (utf8 "x")⟩) := by
  have hnew : Session.new loadTable [.textLimit 9] =
      .ok ⟨⟨9, false⟩, loadTable, .initial, #[], [], #[], 0, 0, false⟩ := rfl
  have hstrict : Settings.ofChoices [.strict true, .textLimit 9] = .ok ⟨9, true⟩ := rfl
  exact ⟨_, hnew, rfl, hstrict, (assemble_eq_strictOutcome hnew rfl hstrict [] hiddenFault).1,
    by decide +kernel, by decide +kernel⟩

end TwoPass
