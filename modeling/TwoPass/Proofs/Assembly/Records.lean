import Mathlib.Data.List.TakeDrop
import TwoPass.Proofs.Assembly.Passes
import TwoPass.Proofs.Object.Runs

set_option autoImplicit false

/-!
# The Text records of a listing

The listing is the statements up to the first END statement, each with its code.  Its Text records
are runs of its codes: every code that is not empty is in exactly one record, in order, and every
record has code.
-/

namespace TwoPass

open Object (Item Grouping Text allRuns)

/-! ## Lines -/

/-- The listing leaves out the statements behind the first END statement. -/
theorem Listing.exists_eq_upToEnd_append (statements : List Placed) :
    ∃ rest, statements = Listing.upToEnd statements ++ rest := by
  refine ⟨(statements.dropWhile fun p => p.operation != .finish).drop 1, ?_⟩
  rw [Listing.upToEnd, List.span_eq_takeWhile_dropWhile]
  simp only [List.append_assoc, List.take_append_drop, List.takeWhile_append_dropWhile]

theorem Listing.upToEnd_cons (p : Placed) (ps : List Placed) :
    Listing.upToEnd (p :: ps) = if p.operation = .finish then [p] else p :: Listing.upToEnd ps := by
  by_cases hend : p.operation = .finish
  · simp [Listing.upToEnd, List.span_eq_takeWhile_dropWhile, hend]
  · simp [Listing.upToEnd, List.span_eq_takeWhile_dropWhile, hend]

/-- A line of the listing is a statement with its code. -/
theorem Listing.eq_of_line_eq_ok {symbols : List Symbol} {p : Placed} {l : Line}
    (h : Listing.line symbols p = .ok l) : l.toPlaced = p ∧ p.code symbols = .ok l.code := by
  unfold Listing.line at h
  split at h
  · simp at h
  · rename_i code hcode
    rw [← Except.ok.inj h]
    exact ⟨rfl, hcode⟩

/-- The listing holds the statements that it lists, in order. -/
theorem Listing.map_toPlaced {symbols : List Symbol} {statements : List Placed} {lines : List Line}
    (h : Listing.ofStatements symbols statements = .ok lines) :
    lines.map Line.toPlaced = Listing.upToEnd statements ∧
      ∀ l ∈ lines, l.toPlaced.code symbols = .ok l.code := by
  unfold Listing.ofStatements at h
  rw [mapM_eq_ok_iff] at h
  generalize Listing.upToEnd statements = listed at h
  induction h with
  | nil => exact ⟨rfl, by simp⟩
  | cons hline _ ih =>
    obtain ⟨hplaced, hcode⟩ := Listing.eq_of_line_eq_ok hline
    refine ⟨by rw [List.map_cons, hplaced, ih.1], ?_⟩
    intro l hl
    rcases List.mem_cons.mp hl with rfl | hl
    · rw [hplaced]
      exact hcode
    · exact ih.2 l hl

/-- Every line of the listing is one of the statements, with its code. -/
theorem Assembly.Made.mem_statements {settings : Settings} {source : List Statement} {a : Assembly}
    (h : a.Made settings source) {l : Line} (hl : l ∈ a.listing) :
    l.toPlaced ∈ a.statements ∧ l.toPlaced.code a.symbols = .ok l.code := by
  obtain ⟨hmap, hcode⟩ := Listing.map_toPlaced h.listing
  obtain ⟨rest, hrest⟩ := Listing.exists_eq_upToEnd_append a.statements
  refine ⟨?_, hcode l hl⟩
  rw [hrest, ← hmap]
  exact List.mem_append_left rest (List.mem_map.mpr ⟨l, hl, rfl⟩)

/-! ## Records -/

/-- The code of a line with its address, if the line has code. -/
def Line.item? (l : Line) : Option Item :=
  if l.code = [] then none else some ⟨l.address.getD 0, l.code⟩

/-- The item of a line is its code at its address. -/
theorem Line.item?_eq_some_iff {l : Line} {item : Item} :
    l.item? = some item ↔ l.code ≠ [] ∧ item = ⟨l.address.getD 0, l.code⟩ := by
  unfold Line.item?
  split
  · simp_all
  · simp_all [eq_comm]

namespace Listing

/-- What a line does to the runs under a limit, given those that have ended and the open one. -/
inductive Regroups (limit : Int) (l : Line) :
    List (List Item) → List Item → List (List Item) → List Item → Prop where
  /-- its code goes behind the open run -/
  | extend {ended : List (List Item)} {current : List Item} {item : Item} :
      l.item? = some item → Regroups limit l ended current ended (current ++ [item])
  /-- its code opens a new run -/
  | begin {ended : List (List Item)} {current : List Item} {item : Item} :
      l.item? = some item → Regroups limit l ended current (allRuns ended current) [item]
  /-- without code it does nothing, unless it reserves storage under a limit -/
  | skip {ended : List (List Item)} {current : List Item} :
      l.item? = none → (l.operation.reserves = false ∨ ¬ 0 < limit) →
      Regroups limit l ended current ended current
  /-- reserved storage ends the open run -/
  | interrupt {ended : List (List Item)} {current : List Item} :
      l.item? = none → Regroups limit l ended current (allRuns ended current) []

/-- What lines do to the runs, one after the other. -/
inductive RegroupsAll (limit : Int) : List (List Item) → List Item → List Line →
    List (List Item) → List Item → Prop where
  | nil (ended : List (List Item)) (current : List Item) :
      RegroupsAll limit ended current [] ended current
  | cons {ended ended' ended'' : List (List Item)} {current current' current'' : List Item}
      {l : Line} {lines : List Line} :
      Regroups limit l ended current ended' current' →
      RegroupsAll limit ended' current' lines ended'' current'' →
      RegroupsAll limit ended current (l :: lines) ended'' current''

variable {limit : Int} {ended ended' : List (List Item)} {current current' : List Item}

@[simp] theorem limit_group (g : Grouping) (l : Line) : (group g l).limit = g.limit := by
  unfold group
  split
  · simp
  · split <;> simp

/-- Without a limit, no line ends the open record. -/
theorem closed_group {g : Grouping} (hlimit : ¬ 0 < g.limit) (l : Line) :
    (group g l).closed = g.closed := by
  unfold group
  split
  · exact Grouping.closed_add hlimit _ _
  · split
    · rw [Grouping.interrupt_of_not_pos hlimit]
    · rfl

theorem closed_foldl_group {g : Grouping} (hlimit : ¬ 0 < g.limit) (lines : List Line) :
    (lines.foldl group g).closed = g.closed := by
  induction lines generalizing g with
  | nil => rfl
  | cons l lines ih =>
    have hnext : ¬ 0 < (group g l).limit := by
      rw [limit_group]
      exact hlimit
    rw [List.foldl_cons, ih hnext, closed_group hlimit]

/-- Grouping a line regroups the runs. -/
theorem exists_regroups {g : Grouping} (h : g.Holds ended current) (l : Line) :
    ∃ ended' current', (group g l).Holds ended' current' ∧
      Regroups g.limit l ended current ended' current' := by
  by_cases hcode : l.code = []
  · have hitem : l.item? = none := by simp [Line.item?, hcode]
    cases hreserves : l.operation.reserves with
    | false =>
      have hgroup : group g l = g := by simp [group, hcode, hreserves]
      rw [hgroup]
      exact ⟨ended, current, h, .skip hitem (Or.inl hreserves)⟩
    | true =>
      have hgroup : group g l = g.interrupt := by simp [group, hcode, hreserves]
      rw [hgroup]
      by_cases hlimit : 0 < g.limit
      · exact ⟨_, _, h.interrupt hlimit, .interrupt hitem⟩
      · rw [Grouping.interrupt_of_not_pos hlimit]
        exact ⟨ended, current, h, .skip hitem (Or.inr hlimit)⟩
  · have hitem : l.item? = some ⟨l.address.getD 0, l.code⟩ := by simp [Line.item?, hcode]
    have hgroup : group g l = g.add (l.address.getD 0) l.code := by simp [group, hcode]
    have hadd := h.add (l.address.getD 0) hcode
    rw [hgroup]
    split at hadd
    · exact ⟨_, _, hadd, .begin hitem⟩
    · exact ⟨_, _, hadd, .extend hitem⟩

/-- Grouping lines regroups the runs, line by line. -/
theorem exists_regroupsAll {g : Grouping} (h : g.Holds ended current) (lines : List Line) :
    ∃ ended' current', (lines.foldl group g).Holds ended' current' ∧
      RegroupsAll g.limit ended current lines ended' current' := by
  induction lines generalizing g ended current with
  | nil => exact ⟨ended, current, h, .nil ended current⟩
  | cons l lines ih =>
    obtain ⟨_, _, hheld, hstep⟩ := exists_regroups h l
    obtain ⟨ended', current', hlast, hrun⟩ := ih hheld
    rw [limit_group] at hrun
    exact ⟨ended', current', hlast, .cons hstep hrun⟩

/-- A line adds its code to the codes in the runs. -/
theorem Regroups.flatten_eq {l : Line} (h : Regroups limit l ended current ended' current') :
    ended'.flatten ++ current' = ended.flatten ++ current ++ l.item?.toList := by
  cases h with
  | extend hitem => simp [hitem]
  | begin hitem => simp [hitem, Object.flatten_allRuns]
  | skip hnone _ => simp [hnone]
  | interrupt hnone => simp [hnone, Object.flatten_allRuns]

/-- The runs hold the codes of the lines, in order. -/
theorem RegroupsAll.flatten_eq {lines : List Line}
    (h : RegroupsAll limit ended current lines ended' current') :
    ended'.flatten ++ current' = ended.flatten ++ current ++ lines.filterMap Line.item? := by
  induction h with
  | nil => simp
  | @cons _ _ _ _ _ _ l _ hstep _ ih =>
    rw [ih, hstep.flatten_eq]
    cases hitem : l.item? with
    | none => simp [hitem]
    | some item => simp [hitem]

/-- The Text records of a listing are the runs of its codes. -/
theorem exists_runs (limit : Int) (lines : List Line) :
    ∃ ended current, RegroupsAll limit [] [] lines ended current ∧
      records limit lines = (allRuns ended current).map Text.ofRun ∧
      (∀ run ∈ allRuns ended current, run ≠ []) ∧
      (allRuns ended current).flatten = lines.filterMap Line.item? := by
  obtain ⟨ended, current, hheld, hrun⟩ := exists_regroupsAll (Grouping.Holds.new limit) lines
  refine ⟨ended, current, hrun, hheld.records, hheld.close.nonempty, ?_⟩
  rw [Object.flatten_allRuns, hrun.flatten_eq]
  simp

/-- The codes of the Text records are the codes of the listing that are not empty. -/
theorem mem_codes_records_iff {limit : Int} {lines : List Line} {code : Bytes} :
    (∃ t ∈ records limit lines, code ∈ t.codes) ↔ code ≠ [] ∧ ∃ l ∈ lines, l.code = code := by
  obtain ⟨ended, current, _, hrecords, _, hflatten⟩ := exists_runs limit lines
  have hitems : (∃ t ∈ records limit lines, code ∈ t.codes) ↔
      ∃ item ∈ (allRuns ended current).flatten, item.code = code := by
    rw [hrecords]
    simp only [List.mem_map, List.mem_flatten, Text.ofRun]
    constructor
    · rintro ⟨t, ⟨run, hrun, rfl⟩, hcode⟩
      obtain ⟨item, hitem, heq⟩ := List.mem_map.mp hcode
      exact ⟨item, ⟨run, hrun, hitem⟩, heq⟩
    · rintro ⟨item, ⟨run, hrun, hitem⟩, heq⟩
      exact ⟨_, ⟨run, hrun, rfl⟩, List.mem_map.mpr ⟨item, hitem, heq⟩⟩
  rw [hitems, hflatten]
  simp only [List.mem_filterMap, Line.item?]
  constructor
  · rintro ⟨item, ⟨l, hl, hitem⟩, rfl⟩
    split at hitem
    · simp at hitem
    · rename_i hcode
      rw [← Option.some.inj hitem]
      exact ⟨hcode, l, hl, rfl⟩
  · rintro ⟨hcode, l, hl, rfl⟩
    exact ⟨_, ⟨l, hl, if_neg hcode⟩, rfl⟩

/-- Every Text record of a listing has code. -/
theorem codes_ne_nil_of_mem_records {limit : Int} {lines : List Line} {t : Text}
    (h : t ∈ records limit lines) : t.codes ≠ [] := by
  obtain ⟨_, _, _, hrecords, hnonempty, _⟩ := exists_runs limit lines
  rw [hrecords] at h
  obtain ⟨run, hrun, rfl⟩ := List.mem_map.mp h
  simpa [Text.ofRun] using hnonempty run hrun

end Listing

/-- The codes of the object program are those of the listing that are not empty. -/
theorem Assembly.Made.mem_codes_iff {settings : Settings} {source : List Statement} {a : Assembly}
    (h : a.Made settings source) {code : Bytes} :
    (∃ t ∈ a.program.text, code ∈ t.codes) ↔ code ≠ [] ∧ ∃ l ∈ a.listing, l.code = code := by
  rw [h.program]
  exact Listing.mem_codes_records_iff

end TwoPass
