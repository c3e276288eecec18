import TwoPass.Proofs.Assembly.LocationCounter
import TwoPass.Proofs.Assembly.Records

set_option autoImplicit false

/-!
# Which lines a Text record holds

Codes carry no mark of the line that they come from, but records take them in the order of the
listing.  Dealing out the lines with code to the records, one line for each code, therefore gives
every record the lines that its codes come from.  These lines are a stretch of the listing; under a
limit, no line of the stretch reserves storage.  How the codes are grouped is all that depends on
the limit.
-/

namespace TwoPass

open Object (Item Text allRuns)

/-- The code of a line with its address. -/
def Line.item (l : Line) : Item := ⟨l.address.getD 0, l.code⟩

theorem Line.code_eq_nil_of_item? {l : Line} (h : l.item? = none) : l.code = [] := by
  simpa [Line.item?] using h

namespace Listing

/-- The lines that have code. -/
def coded (lines : List Line) : List Line := lines.filter fun l => l.code ≠ []

/-- The Text record of a group of lines. -/
def record (group : List Line) : Text := Text.ofRun (group.map Line.item)

/-- Text records with their lines: each takes one line for each of its codes. -/
def deal : List Text → List Line → List (Text × List Line)
  | [], _ => []
  | t :: ts, lines => (t, lines.take t.codes.length) :: deal ts (lines.drop t.codes.length)

theorem coded_append_singleton (lines : List Line) (l : Line) :
    coded (lines ++ [l]) = if l.code = [] then coded lines else coded lines ++ [l] := by
  by_cases hcode : l.code = [] <;> simp [coded, hcode]

@[simp] theorem length_codes_record (group : List Line) :
    (record group).codes.length = group.length := by
  simp [record, Text.ofRun]

/-- The records of groups get these groups back. -/
theorem deal_map_record (groups : List (List Line)) :
    deal (groups.map record) groups.flatten = groups.map fun group => (record group, group) := by
  induction groups with
  | nil => rfl
  | cons group groups ih => simp [deal, ih]

/-! ## Groups of lines -/

/-- Under a limit, no line reserves storage. -/
def Unbroken (limit : Int) (lines : List Line) : Prop :=
  0 < limit → ∀ l ∈ lines, l.code = [] → l.operation.reserves = false

/-- The lines seen so far are dealt out to groups that have ended and an open one. -/
structure Deals (limit : Int) (seen : List Line) (groups : List (List Line)) (current : List Line) :
    Prop where
  /-- every line with code is in one group, in order -/
  flatten : groups.flatten ++ current = coded seen
  /-- a group that has ended is not empty -/
  nonempty : ∀ group ∈ groups, group ≠ []
  /-- a group that has ended is a stretch of the lines -/
  ended : ∀ group ∈ groups, ∃ before stretch after, seen = before ++ stretch ++ after ∧
    group = coded stretch ∧ Unbroken limit stretch
  /-- the open group is the last stretch of the lines -/
  current : ∃ before stretch, seen = before ++ stretch ∧ current = coded stretch ∧
    Unbroken limit stretch

namespace Deals

variable {limit : Int} {seen : List Line} {groups : List (List Line)} {current : List Line}
  {l : Line}

theorem new (limit : Int) : Deals limit [] [] [] :=
  ⟨rfl, by simp, by simp, [], [], rfl, rfl, fun _ l hl => absurd hl List.not_mem_nil⟩

/-- The groups that have ended stay stretches when more lines are seen. -/
theorem ended_append (h : Deals limit seen groups current) (l : Line) :
    ∀ group ∈ groups, ∃ before stretch after, seen ++ [l] = before ++ stretch ++ after ∧
      group = coded stretch ∧ Unbroken limit stretch := by
  intro group hgroup
  obtain ⟨before, stretch, after, rfl, hcoded, hunbroken⟩ := h.ended group hgroup
  exact ⟨before, stretch, after ++ [l], by simp, hcoded, hunbroken⟩

/-- The open group ends; the next one starts with the next line. -/
theorem close (h : Deals limit seen groups current) :
    Deals limit seen (if current = [] then groups else groups ++ [current]) [] := by
  have hnext : ∃ before stretch, seen = before ++ stretch ∧ ([] : List Line) = coded stretch ∧
      Unbroken limit stretch :=
    ⟨seen, [], by simp, rfl, fun _ l hl => absurd hl List.not_mem_nil⟩
  split
  · rename_i hempty
    exact ⟨by simpa [hempty] using h.flatten, h.nonempty, h.ended, hnext⟩
  · rename_i hne
    refine ⟨by simpa using h.flatten, ?_, ?_, hnext⟩
    · intro group hgroup
      rcases List.mem_append.mp hgroup with hgroup | hgroup
      · exact h.nonempty group hgroup
      · rw [List.mem_singleton.mp hgroup]
        exact hne
    · intro group hgroup
      rcases List.mem_append.mp hgroup with hgroup | hgroup
      · exact h.ended group hgroup
      · obtain ⟨before, stretch, hseen, hcoded, hunbroken⟩ := h.current
        exact ⟨before, stretch, [], by simpa using hseen,
          (List.mem_singleton.mp hgroup).trans hcoded, hunbroken⟩

/-- A line with code goes into the open group. -/
theorem extend (h : Deals limit seen groups current) (hcode : l.code ≠ []) :
    Deals limit (seen ++ [l]) groups (current ++ [l]) := by
  refine ⟨?_, h.nonempty, h.ended_append l, ?_⟩
  · rw [coded_append_singleton, if_neg hcode, ← h.flatten, List.append_assoc]
  · obtain ⟨before, stretch, rfl, hcoded, hunbroken⟩ := h.current
    refine ⟨before, stretch ++ [l], by simp, ?_, ?_⟩
    · rw [coded_append_singleton, if_neg hcode, hcoded]
    · intro hlimit l' hl' hnone
      rcases List.mem_append.mp hl' with hl' | hl'
      · exact hunbroken hlimit l' hl' hnone
      · rw [List.mem_singleton.mp hl'] at hnone
        exact absurd hnone hcode

/-- A line without code leaves the open group as it is, unless it reserves storage under a limit. -/
theorem skip (h : Deals limit seen groups current) (hcode : l.code = [])
    (hkeeps : l.operation.reserves = false ∨ ¬ 0 < limit) :
    Deals limit (seen ++ [l]) groups current := by
  refine ⟨?_, h.nonempty, h.ended_append l, ?_⟩
  · rw [coded_append_singleton, if_pos hcode, h.flatten]
  · obtain ⟨before, stretch, rfl, hcoded, hunbroken⟩ := h.current
    refine ⟨before, stretch ++ [l], by simp, ?_, ?_⟩
    · rw [coded_append_singleton, if_pos hcode, hcoded]
    · intro hlimit l' hl' hnone
      rcases List.mem_append.mp hl' with hl' | hl'
      · exact hunbroken hlimit l' hl' hnone
      · rw [List.mem_singleton.mp hl']
        exact hkeeps.resolve_right (not_not_intro hlimit)

/-- Between two groups any line without code may stand. -/
theorem pass (h : Deals limit seen groups []) (hcode : l.code = []) :
    Deals limit (seen ++ [l]) groups [] := by
  refine ⟨?_, h.nonempty, h.ended_append l, seen ++ [l], [], by simp, rfl, ?_⟩
  · rw [coded_append_singleton, if_pos hcode, h.flatten]
  · exact fun _ l hl => absurd hl List.not_mem_nil

end Deals

/-- Closing the open run closes the open group. -/
theorem allRuns_map_item (groups : List (List Line)) (current : List Line) :
    allRuns (groups.map (List.map Line.item)) (current.map Line.item) =
      (if current = [] then groups else groups ++ [current]).map (List.map Line.item) :=
  Object.allRuns_map Line.item groups current

/-- A line that regroups the runs of items regroups the groups of lines behind them. -/
theorem Regroups.exists_deals {limit : Int} {l : Line} {seen : List Line}
    {groups : List (List Line)} {current : List Line} {ended' : List (List Item)} {run' : List Item}
    (h : Regroups limit l (groups.map (List.map Line.item)) (current.map Line.item) ended' run')
    (hdeals : Deals limit seen groups current) :
    ∃ groups' current', Deals limit (seen ++ [l]) groups' current' ∧
      ended' = groups'.map (List.map Line.item) ∧ run' = current'.map Line.item := by
  cases h with
  | extend hitem =>
    obtain ⟨hcode, rfl⟩ := Line.item?_eq_some_iff.mp hitem
    exact ⟨groups, current ++ [l], hdeals.extend hcode, rfl, by simp [Line.item]⟩
  | begin hitem =>
    obtain ⟨hcode, rfl⟩ := Line.item?_eq_some_iff.mp hitem
    exact ⟨_, [l], hdeals.close.extend hcode, allRuns_map_item groups current, rfl⟩
  | skip hnone hkeeps =>
    exact ⟨groups, current, hdeals.skip (Line.code_eq_nil_of_item? hnone) hkeeps, rfl, rfl⟩
  | interrupt hnone =>
    exact ⟨_, [], hdeals.close.pass (Line.code_eq_nil_of_item? hnone),
      allRuns_map_item groups current, rfl⟩

theorem RegroupsAll.exists_deals {limit : Int} {lines seen : List Line} {groups : List (List Line)}
    {current : List Line} {ended ended' : List (List Item)} {run run' : List Item}
    (h : RegroupsAll limit ended run lines ended' run') (hdeals : Deals limit seen groups current)
    (hended : ended = groups.map (List.map Line.item)) (hrun : run = current.map Line.item) :
    ∃ groups' current', Deals limit (seen ++ lines) groups' current' ∧
      ended' = groups'.map (List.map Line.item) ∧ run' = current'.map Line.item := by
  induction h generalizing seen groups current with
  | nil => exact ⟨groups, current, by simpa using hdeals, hended, hrun⟩
  | cons hstep _ ih =>
    subst hended hrun
    obtain ⟨groups', current', hnext, hended', hrun'⟩ := hstep.exists_deals hdeals
    simpa using ih hnext hended' hrun'

/-- The Text records of a listing are the records of groups of its lines, each group a stretch of
it. -/
theorem exists_groups (limit : Int) (lines : List Line) :
    ∃ groups : List (List Line), records limit lines = groups.map record ∧
      groups.flatten = coded lines ∧
      (∀ group ∈ groups, group ≠ []) ∧
      ∀ group ∈ groups, ∃ before stretch after, lines = before ++ stretch ++ after ∧
        group = coded stretch ∧ Unbroken limit stretch := by
  obtain ⟨ended, run, hall, hrecords, _⟩ := exists_runs limit lines
  obtain ⟨groups, current, hdeals, rfl, rfl⟩ := hall.exists_deals (Deals.new limit) rfl rfl
  have hclosed := hdeals.close
  refine ⟨_, ?_, by simpa using hclosed.flatten, hclosed.nonempty, hclosed.ended⟩
  rw [hrecords, allRuns_map_item, List.map_map]
  rfl

/-- Without a limit all lines with code are in one group. -/
theorem records_of_not_pos {limit : Int} (hlimit : ¬ 0 < limit) {lines : List Line}
    (hne : coded lines ≠ []) : records limit lines = [record (coded lines)] := by
  obtain ⟨ended, run, hheld, hall⟩ := exists_regroupsAll (Object.Grouping.Holds.new limit) lines
  obtain ⟨groups, current, hdeals, rfl, rfl⟩ := hall.exists_deals (Deals.new limit) rfl rfl
  have hclosed := hheld.closed
  rw [closed_foldl_group hlimit] at hclosed
  obtain rfl : groups = [] := by simpa [Object.Grouping.new] using hclosed.symm
  obtain rfl : current = coded lines := by simpa using hdeals.flatten
  rw [records, hheld.records, allRuns_map_item, if_neg hne]
  rfl

end Listing

/-! ## What the groups say about a result -/

/-- Only START statements are without an address. -/
theorem Counter.Places.isStart_of_address_eq_none {c last : Counter} {ps : List Placed}
    (h : Counter.Places c ps last) : ∀ p ∈ ps, p.address = none → p.isStart = true := by
  induction h with
  | nil c => simp
  | @cons c _ _ p _ _ haddress _ ih =>
    intro q hq hnone
    rcases List.mem_cons.mp hq with rfl | hq
    · rw [hnone, Counter.addressOf] at haddress
      split at haddress
      · rename_i hbegins
        exact (Bool.and_eq_true_iff.mp hbegins).1
      · simp at haddress
    · exact ih q hq hnone

theorem Statement.code_of_isStart {symbols : List Symbol} {s : Statement} (h : s.isStart = true) :
    s.code symbols = .ok [] := by
  have hoperation : s.operation = .start := by simpa [Statement.isStart] using h
  simp [Statement.code, hoperation]

/-- Every line with code has an address. -/
theorem Assembly.Made.exists_address {settings : Settings} {source : List Statement} {a : Assembly}
    (h : a.Made settings source) {l : Line} (hl : l ∈ a.listing) (hcode : l.code ≠ []) :
    ∃ address, l.address = some address := by
  obtain ⟨counter, hplaces, _⟩ := h.exists_places
  obtain ⟨hmem, hmade⟩ := h.mem_statements hl
  cases haddress : l.address with
  | some address => exact ⟨address, rfl⟩
  | none =>
    have hstart : l.isStart = true :=
      hplaces.isStart_of_address_eq_none l.toPlaced hmem haddress
    rw [Statement.code_of_isStart hstart] at hmade
    exact absurd (Except.ok.inj hmade).symm hcode

/-- A Text record starts at the address of a line with code. -/
theorem Assembly.Made.exists_line_of_mem_text {settings : Settings} {source : List Statement}
    {a : Assembly} (h : a.Made settings source) {t : Text} (ht : t ∈ a.program.text) :
    ∃ l ∈ a.listing, l.code ≠ [] ∧ l.address = some t.start := by
  obtain ⟨groups, hrecords, hflatten, hnonempty, _⟩ :=
    Listing.exists_groups settings.textLimit.val a.listing
  rw [h.program, hrecords] at ht
  obtain ⟨group, hgroup, rfl⟩ := List.mem_map.mp ht
  obtain ⟨l, rest, rfl⟩ := List.exists_cons_of_ne_nil (hnonempty group hgroup)
  have hcoded : l ∈ Listing.coded a.listing := by
    rw [← hflatten]
    exact List.mem_flatten.mpr ⟨_, hgroup, List.mem_cons_self⟩
  obtain ⟨hl, hcode⟩ := List.mem_filter.mp hcoded
  have hne : l.code ≠ [] := by simpa using hcode
  obtain ⟨address, haddress⟩ := h.exists_address hl hne
  refine ⟨l, hl, hne, ?_⟩
  simp [Listing.record, Text.ofRun, Line.item, haddress]

/-- Where nothing precedes the first START statement, the lines behind it are a run of a settled
counter from the start of the program on.  The run goes on behind the listing, to the end of the
program. -/
theorem Assembly.Made.exists_settled {settings : Settings} {source : List Statement} {a : Assembly}
    (h : a.Made settings source)
    (hfirst : hasStart a.statements = true → ∃ p ∈ a.statements.head?, p.isStart = true) :
    ∃ lead lines rest c last, a.listing = lead ++ lines ∧
      (∀ l ∈ lead, l.code = [] ∧ l.operation.reserves = false) ∧
      Counter.Places c (lines.map Line.toPlaced ++ rest) last ∧
      c.Settled (lines.map Line.toPlaced ++ rest) ∧ c.location.toNat = a.start.toNat ∧
      last.location.toNat = a.start.toNat + a.length.toNat := by
  obtain ⟨counter, hplaces, _, hstart, hlength⟩ := h.exists_places
  have hcounts := hplaces.counts Counter.Counts.initial
  have hend : counter.location.toNat = a.start.toNat + a.length.toNat := by
    have hle := hcounts.start_le
    have hle' := UInt32.le_iff_toNat_le.mp hle
    rw [hstart, hlength, UInt32.toNat_sub_of_le _ _ hle]
    omega
  obtain ⟨rest, hrest⟩ := Listing.exists_eq_upToEnd_append a.statements
  obtain ⟨hmap, hcode⟩ := Listing.map_toPlaced h.listing
  rw [← hmap] at hrest
  cases hsome : hasStart a.statements with
  | false =>
    have hzero : counter.start = 0 := hcounts.origin hsome
    have hsettled : Counter.initial.Settled a.statements := Or.inr hsome
    rw [hrest] at hplaces hsettled
    exact ⟨[], a.listing, rest, _, _, rfl, by simp, hplaces, hsettled,
      by rw [hstart, hzero]; rfl, hend⟩
  | true =>
    obtain ⟨p, hhead, hp⟩ := hfirst hsome
    cases hlisting : a.listing with
    | nil =>
      obtain ⟨ps, hps⟩ := List.head?_eq_some_iff.mp (Option.mem_def.mp hhead)
      rw [hlisting, hps, Listing.upToEnd_cons] at hmap
      split at hmap <;> simp at hmap
    | cons l lines =>
      rw [hlisting, List.map_cons, List.cons_append] at hrest
      rw [hrest] at hhead hplaces
      obtain rfl : l.toPlaced = p := Option.some.inj hhead
      have hblank : l.code = [] := by
        have hmade := hcode l (by rw [hlisting]; exact List.mem_cons_self)
        rw [Statement.code_of_isStart hp] at hmade
        exact (Except.ok.inj hmade).symm
      have hreserves : l.operation.reserves = false := by
        have hoperation : l.operation = .start := by simpa [Statement.isStart] using hp
        rw [hoperation]
        rfl
      cases hplaces with
      | cons hstep _ hafter =>
        rcases Counter.step_cases hstep with ⟨_, address, _, rfl⟩ | ⟨hbegins, _⟩
        · have hsettled :
              Counter.Settled ⟨address, address, true⟩ (lines.map Line.toPlaced ++ rest) :=
            Or.inl rfl
          refine ⟨[l], lines, rest, _, _, rfl, by simp [hblank, hreserves], hafter, hsettled,
            ?_, hend⟩
          rw [hstart, hafter.start_eq hsettled]
        · rw [Counter.Counts.initial.begins_eq, hp] at hbegins
          simp [hasStart] at hbegins

namespace Listing

/-- Nothing is listed behind an END statement. -/
theorem ne_finish_of_mem_dropLast_upToEnd (ps : List Placed) :
    ∀ p ∈ (upToEnd ps).dropLast, p.operation ≠ .finish := by
  induction ps with
  | nil => simp [upToEnd]
  | cons p ps ih =>
    rw [upToEnd_cons]
    split
    · simp
    · rename_i hend
      intro q hq
      cases hrest : upToEnd ps with
      | nil => simp [hrest] at hq
      | cons first rest =>
        rw [hrest, List.dropLast_cons_cons] at hq
        rcases List.mem_cons.mp hq with rfl | hq
        · exact hend
        · exact ih q (by rw [hrest]; exact hq)

/-- If anything is left out, the last line listed is an END statement. -/
theorem exists_finish_of_length_upToEnd_lt {ps : List Placed}
    (h : (upToEnd ps).length < ps.length) : ∃ p ∈ (upToEnd ps).getLast?, p.operation = .finish := by
  induction ps with
  | nil => simp at h
  | cons p ps ih =>
    by_cases hend : p.operation = .finish
    · rw [upToEnd_cons, if_pos hend]
      exact ⟨p, rfl, hend⟩
    · rw [upToEnd_cons, if_neg hend] at h ⊢
      obtain ⟨last, hlast, hfinish⟩ := ih (by simpa using h)
      refine ⟨last, ?_, hfinish⟩
      rw [List.getLast?_cons, Option.mem_def.mp hlast]
      rfl

end Listing

/-- The listing goes up to the first END statement, and the Text records hold its codes in order,
each record from the address of its first line on. -/
structure Assembly.GroupsListing (a : Assembly) : Prop where
  /-- the lines are the first statements -/
  listed : a.listing.map Line.toPlaced <+: a.statements
  /-- no END statement comes before the last line -/
  unended : ∀ l ∈ a.listing.dropLast, l.operation ≠ .finish
  /-- a listing that leaves statements out ends with an END statement -/
  ended : a.listing.length < a.statements.length → ∃ l ∈ a.listing.getLast?, l.operation = .finish
  /-- the records hold the codes that are not empty, in order -/
  codes : a.program.text.flatMap Text.codes = (a.listing.map Line.code).filter fun code => code ≠ []
  /-- a record holds the codes of its lines, and starts at the address of the first one -/
  starts : ∀ t lines, (t, lines) ∈ Listing.deal a.program.text (Listing.coded a.listing) →
    t.codes = lines.map Line.code ∧ ∃ l ∈ lines.head?, l.address = some t.start

theorem Listing.codes_record (group : List Line) : (record group).codes = group.map Line.code := by
  simp only [record, Text.ofRun, List.map_map]
  rfl

theorem Assembly.Made.groupsListing {settings : Settings} {source : List Statement} {a : Assembly}
    (h : a.Made settings source) : a.GroupsListing := by
  have hmap := (Listing.map_toPlaced h.listing).1
  have htext : a.program.text = Listing.records settings.textLimit.val a.listing := by
    rw [h.program]
  obtain ⟨groups, hgroups, hflatten, hnonempty, _⟩ :=
    Listing.exists_groups settings.textLimit.val a.listing
  rw [← htext] at hgroups
  refine { listed := ?_, unended := ?_, ended := ?_, codes := ?_, starts := ?_ }
  · obtain ⟨rest, hrest⟩ := Listing.exists_eq_upToEnd_append a.statements
    exact ⟨rest, by rw [hmap, ← hrest]⟩
  · intro l hl
    refine Listing.ne_finish_of_mem_dropLast_upToEnd a.statements l.toPlaced ?_
    rw [← hmap, ← List.map_dropLast]
    exact List.mem_map.mpr ⟨l, hl, rfl⟩
  · intro hlt
    have hshort : (Listing.upToEnd a.statements).length < a.statements.length := by
      rw [← hmap, List.length_map]
      exact hlt
    obtain ⟨p, hp, hfinish⟩ := Listing.exists_finish_of_length_upToEnd_lt hshort
    rw [← hmap, List.getLast?_map] at hp
    obtain ⟨l, hl, rfl⟩ := Option.map_eq_some_iff.mp (Option.mem_def.mp hp)
    exact ⟨l, hl, hfinish⟩
  · calc a.program.text.flatMap Text.codes
        = groups.flatMap fun group => group.map Line.code := by
          rw [hgroups, List.flatMap_map]
          simp only [Listing.codes_record]
      _ = (Listing.coded a.listing).map Line.code := by
          rw [← hflatten, List.map_flatten, List.flatMap_def]
      _ = (a.listing.map Line.code).filter fun code => code ≠ [] := by
          rw [Listing.coded, List.filter_map]
          rfl
  · intro t lines hmem
    rw [hgroups, ← hflatten, Listing.deal_map_record] at hmem
    obtain ⟨group, hgroup, heq⟩ := List.mem_map.mp hmem
    obtain ⟨rfl, rfl⟩ := Prod.mk.inj heq
    refine ⟨Listing.codes_record group, ?_⟩
    cases hlines : group with
    | nil => exact absurd hlines (hnonempty group hgroup)
    | cons l rest =>
      have hcoded : l ∈ Listing.coded a.listing := by
        rw [← hflatten]
        exact List.mem_flatten.mpr ⟨group, hgroup, by simp [hlines]⟩
      obtain ⟨hl, hcode⟩ := List.mem_filter.mp hcoded
      obtain ⟨address, haddress⟩ := h.exists_address hl (by simpa using hcode)
      refine ⟨l, rfl, ?_⟩
      simp [Listing.record, Text.ofRun, Line.item, haddress]

theorem groupsListing_of_assemble {name : Bytes} {source : Input} {table : Option Opcode.Table}
    {choices : List Choice} {a : Assembly} (h : assemble name source table choices = .ok a) :
    a.GroupsListing := by
  cases table with
  | none => simp [assemble] at h
  | some table =>
    obtain ⟨_, _, hmade⟩ := made_of_assemble h
    exact hmade.groupsListing

/-! ## The limit changes only the grouping -/

/-- A result with its codes grouped under another limit. -/
def Assembly.regroup (limit : Int) (a : Assembly) : Assembly :=
  { a with program := { a.program with text := Listing.records limit a.listing } }

/-- The first pass knows nothing of the limit. -/
theorem firstPass_limit (strict : Bool) (m n : Fin 256) (table : Opcode.Table) (name : Bytes)
    (source : Input) :
    firstPass ⟨m, strict⟩ table name source = firstPass ⟨n, strict⟩ table name source := rfl

/-- The second pass under another limit is the second pass with its codes grouped anew. -/
theorem secondPass_limit (strict : Bool) (m n : Fin 256) (first : Intermediate) :
    secondPass ⟨n, strict⟩ first =
      (secondPass ⟨m, strict⟩ first).map (Assembly.regroup n.val) := by
  simp only [secondPass]
  cases Listing.ofStatements first.scope.symbols first.layout.statements with
  | error diagnostic => rfl
  | ok lines =>
    have haccept : ∀ limit : Fin 256, (Settings.mk limit strict).accept
        (first.complete limit.val lines
          (Listing.undefined first.scope.symbols first.layout.statements)).diagnostics =
        (Settings.mk 0 strict).accept (first.scope.duplicates.toList ++
          Listing.undefined first.scope.symbols first.layout.statements) := fun _ => rfl
    simp only [haccept]
    cases (Settings.mk 0 strict).accept (first.scope.duplicates.toList ++
      Listing.undefined first.scope.symbols first.layout.statements) <;> rfl

/-- Assembly under another limit is assembly with its codes grouped anew. -/
theorem assemble_limit {choices choices' : List Choice} {strict : Bool} {m n : Fin 256}
    (hm : Settings.ofChoices choices = .ok ⟨m, strict⟩)
    (hn : Settings.ofChoices choices' = .ok ⟨n, strict⟩) (name : Bytes) (source : Input)
    (table : Option Opcode.Table) :
    assemble name source table choices' =
      (assemble name source table choices).map (Assembly.regroup n.val) := by
  cases table with
  | none => rfl
  | some table =>
    simp only [assemble, hm, hn, ok_bind, firstPass_limit strict n m]
    cases firstPass ⟨m, strict⟩ table name source with
    | error failure => rfl
    | ok first => exact secondPass_limit strict m n first

/-- Two results that differ at most in how codes are grouped into Text records. -/
structure Assembly.SameButGrouping (a b : Assembly) : Prop where
  name : a.name = b.name
  start : a.start = b.start
  length : a.length = b.length
  statements : a.statements = b.statements
  symbols : a.symbols = b.symbols
  listing : a.listing = b.listing
  diagnostics : a.diagnostics = b.diagnostics
  header : a.program.header = b.program.header
  entry : a.program.entry = b.program.entry

/-- Under two limits a source fails with one failure, or has results that differ at most in how the
codes of one listing are grouped. -/
theorem assemble_sameButGrouping {choices choices' : List Choice} {strict : Bool} {m n : Fin 256}
    (hm : Settings.ofChoices choices = .ok ⟨m, strict⟩)
    (hn : Settings.ofChoices choices' = .ok ⟨n, strict⟩) (name : Bytes) (source : Input)
    (table : Option Opcode.Table) :
    (∃ failure, assemble name source table choices = .error failure ∧
      assemble name source table choices' = .error failure) ∨
    ∃ a b, assemble name source table choices = .ok a ∧
      assemble name source table choices' = .ok b ∧
      a.SameButGrouping b ∧ a.GroupsListing ∧ b.GroupsListing := by
  have hlimit := assemble_limit hm hn name source table
  cases hresult : assemble name source table choices with
  | error failure =>
    rw [hresult] at hlimit
    exact Or.inl ⟨failure, rfl, hlimit⟩
  | ok a =>
    rw [hresult] at hlimit
    have hsame : a.SameButGrouping (a.regroup n.val) :=
      ⟨rfl, rfl, rfl, rfl, rfl, rfl, rfl, rfl, rfl⟩
    exact Or.inr ⟨a, _, rfl, hlimit, hsame, groupsListing_of_assemble hresult,
      groupsListing_of_assemble hlimit⟩

/-- A source with reserved storage between its codes, an operand that nothing defines, and a
statement with code behind its END statement. -/
def gappedSource : Input := .ofBytes (utf8
  "P START 10\nA LDA B\nB RESW 1\nC WORD 1\nD LDA Z\nEND\nE WORD 2")

theorem assemble_sameButGrouping_gappedSource :
    ∃ a b, assemble [] gappedSource (some loadTable) [.textLimit 0] = .ok a ∧
      assemble [] gappedSource (some loadTable) [.strict false, .textLimit 3] = .ok b ∧
      a.SameButGrouping b ∧ a.GroupsListing ∧ b.GroupsListing ∧
      a.program.text.map Text.start = [0x10] ∧
      b.program.text.map Text.start = [0x10, 0x16, 0x19] := by
  have hm : Settings.ofChoices [.textLimit 0] = .ok ⟨0, false⟩ := rfl
  have hn : Settings.ofChoices [.strict false, .textLimit 3] = .ok ⟨3, false⟩ := rfl
  have ha := eq_ok_of_isOk (default : Assembly)
    (x := assemble [] gappedSource (some loadTable) [.textLimit 0]) (by decide +kernel)
  have hb := eq_ok_of_isOk (default : Assembly)
    (x := assemble [] gappedSource (some loadTable) [.strict false, .textLimit 3])
      (by decide +kernel)
  rcases assemble_sameButGrouping hm hn [] gappedSource (some loadTable) with
    ⟨failure, hfails, _⟩ | ⟨a, b, ha', hb', hsame, hgroups, hgroups'⟩
  · cases ha.symm.trans hfails
  · refine ⟨a, b, ha', hb', hsame, hgroups, hgroups', ?_, ?_⟩
    · rw [← Except.ok.inj (ha.symm.trans ha')]
      decide +kernel
    · rw [← Except.ok.inj (hb.symm.trans hb')]
      decide +kernel

end TwoPass
