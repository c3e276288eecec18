import Mathlib.Data.List.Chain
import TwoPass.Proofs.Object.Runs

set_option autoImplicit false

/-!
# Text records after any calls

A grouping can be given code, interrupted and asked for its records in any order and any number of
times.  What it answers depends on the calls before: which codes were added, and where among them a
call stands that ends the open record.  The main result says how the codes are dealt out.  Nothing
is lost or put out of order, a record is not longer than the limit unless it is a single code, and a
record ends only where it has to.
-/

namespace TwoPass.Object

/-! ## Calls -/

/-- What can be asked of a grouping. -/
inductive Call where
  /-- to add the code of the statement at an address -/
  | add (address : Address) (code : Bytes)
  /-- to end the open record if there is a limit -/
  | interrupt
  /-- to give the records so far -/
  | request
  deriving DecidableEq, Repr, Inhabited

namespace Grouping

/-- A grouping after a call. -/
def perform (g : Grouping) : Call → Grouping
  | .add address code => g.add address code
  | .interrupt => g.interrupt
  | .request => g.close

/-- A grouping after calls, the first of which finds it new. -/
def after (limit : Int) (calls : List Call) : Grouping := calls.foldl perform (new limit)

/-- What a request for the records returns behind other calls. -/
def answer (limit : Int) (calls : List Call) : List Text := (after limit calls).records

end Grouping

/-! ## Codes and what stands between them -/

/-- How many calls that can end a record have been made. -/
structure Stage where
  /-- the interruptions -/
  interruptions : Nat
  /-- the requests for the records -/
  requests : Nat
  deriving DecidableEq, Repr, Inhabited

namespace Stage

/-- Before the first call. -/
def initial : Stage := ⟨0, 0⟩

/-- The stage after a call. -/
def next (s : Stage) : Call → Stage
  | .add _ _ => s
  | .interrupt => { s with interruptions := s.interruptions + 1 }
  | .request => { s with requests := s.requests + 1 }

/-- A call that ends the open record comes between an earlier stage and a later one: a request, or
under a limit an interruption. -/
def Parted (limit : Int) (earlier later : Stage) : Prop :=
  earlier.requests < later.requests ∨ 0 < limit ∧ earlier.interruptions < later.interruptions

instance (limit : Int) (s t : Stage) : Decidable (Parted limit s t) :=
  inferInstanceAs (Decidable (_ ∨ _))

theorem not_parted_self (limit : Int) (s : Stage) : ¬ Parted limit s s := by
  simp [Parted]

end Stage

/-- Code that was added, with the stage at which it was. -/
structure Entry extends Item where
  /-- the stage -/
  stage : Stage
  deriving DecidableEq, Repr, Inhabited

/-- The code that a call adds at a stage, if it is not empty. -/
def Call.entry? (s : Stage) : Call → Option Entry
  | .add address code => if code = [] then none else some ⟨⟨address, code⟩, s⟩
  | .interrupt => none
  | .request => none

/-- The codes that calls add, from a stage on. -/
def entriesFrom (s : Stage) : List Call → List Entry
  | [] => []
  | call :: rest => (call.entry? s).toList ++ entriesFrom (s.next call) rest

/-- The codes that calls add. -/
def entries (calls : List Call) : List Entry := entriesFrom .initial calls

/-- The code that a call adds, if it is not empty. -/
def Call.code? : Call → Option Bytes
  | .add _ code => if code = [] then none else some code
  | .interrupt => none
  | .request => none

/-- The entries hold the codes in the order of the calls. -/
theorem map_code_entriesFrom (s : Stage) (calls : List Call) :
    (entriesFrom s calls).map (fun e => e.code) = calls.filterMap Call.code? := by
  induction calls generalizing s with
  | nil => rfl
  | cons call rest ih =>
    rw [entriesFrom, List.map_append, ih]
    cases call with
    | add address code =>
      by_cases hcode : code = [] <;> simp [Call.entry?, Call.code?, hcode]
    | interrupt => rfl
    | request => rfl

/-- An entry is code that a call has added. -/
theorem mem_of_mem_entriesFrom {s : Stage} {calls : List Call} {e : Entry}
    (h : e ∈ entriesFrom s calls) :
    Call.add e.address e.code ∈ calls ∧ e.code ≠ [] := by
  induction calls generalizing s with
  | nil => simp [entriesFrom] at h
  | cons call rest ih =>
    rw [entriesFrom] at h
    rcases List.mem_append.mp h with h | h
    · cases call with
      | add address code =>
        by_cases hcode : code = []
        · simp [Call.entry?, hcode] at h
        · simp only [Call.entry?, hcode, if_false, Option.toList_some, List.mem_singleton] at h
          subst h
          exact ⟨List.mem_cons_self, hcode⟩
      | interrupt => simp [Call.entry?] at h
      | request => simp [Call.entry?] at h
    · obtain ⟨hmem, hne⟩ := ih h
      exact ⟨List.mem_cons_of_mem call hmem, hne⟩

/-! ## Dealing out codes -/

/-- The Text record of a group of entries. -/
def recordOf (group : List Entry) : Text := Text.ofRun (group.map Entry.toItem)

/-- A group ends in front of another one because a call parts them, or because the first code of the
other one does not fit any more. -/
def EndsBefore (limit : Int) (group other : List Entry) : Prop :=
  ∀ last ∈ group.getLast?, ∀ first ∈ other.head?, Stage.Parted limit last.stage first.stage ∨
    0 < limit ∧ limit < (((recordOf group).size + codeSize first.code : Nat) : Int)

/-- Entries are dealt out to groups, in order and greedily. -/
structure DealsOut (limit : Int) (entries : List Entry) (groups : List (List Entry)) : Prop where
  /-- every entry is in one group, in order -/
  complete : groups.flatten = entries
  /-- no group is empty -/
  nonempty : ∀ group ∈ groups, group ≠ []
  /-- under a limit, a group that is longer has a single entry -/
  fits : 0 < limit → ∀ group ∈ groups, ((recordOf group).size : Int) ≤ limit ∨ group.length = 1
  /-- a group ends only where it has to -/
  ends : groups.IsChain (EndsBefore limit)
  /-- no call parts the entries of a group -/
  together : ∀ group ∈ groups, group.Pairwise fun e f => ¬ Stage.Parted limit e.stage f.stage

/-- The groups when the open one is closed. -/
def closeGroup (groups : List (List Entry)) (current : List Entry) : List (List Entry) :=
  if current = [] then groups else groups ++ [current]

theorem closeGroup_nil (groups : List (List Entry)) : closeGroup groups [] = groups := if_pos rfl

theorem closeGroup_of_ne_nil (groups : List (List Entry)) {current : List Entry}
    (h : current ≠ []) :
    closeGroup groups current = groups ++ [current] := if_neg h

/-- The entries so far are dealt out to groups that have ended and an open one. -/
structure Dealing (limit : Int) (seen : List Entry) (s : Stage) (groups : List (List Entry))
    (current : List Entry) : Prop where
  /-- the groups and the open one are greedy -/
  dealt : DealsOut limit seen (closeGroup groups current)
  /-- no call has parted the open group from what may come -/
  joined : ∀ e ∈ current, ¬ Stage.Parted limit e.stage s
  /-- no entry is from a later stage -/
  earlier : ∀ e ∈ current, e.stage.interruptions ≤ s.interruptions ∧ e.stage.requests ≤ s.requests
  /-- if there is no open group, a call has parted the last one from what may come -/
  parted : current = [] → ∀ group ∈ groups.getLast?, ∀ last ∈ group.getLast?,
    Stage.Parted limit last.stage s

@[simp] theorem size_recordOf (group : List Entry) :
    (recordOf group).size = (group.map fun e => codeSize e.code).sum := by
  rw [recordOf, Text.size_ofRun, runSize, List.map_map]
  rfl

namespace DealsOut

variable {limit : Int} {seen : List Entry} {groups : List (List Entry)} {current : List Entry}
  {e : Entry}

theorem nil (limit : Int) : DealsOut limit [] [] :=
  ⟨rfl, by simp, by simp, .nil, by simp⟩

/-- An entry opens a group of its own where the last group has to end. -/
theorem begin (h : DealsOut limit seen groups)
    (hends : ∀ group ∈ groups.getLast?, EndsBefore limit group [e]) :
    DealsOut limit (seen ++ [e]) (groups ++ [[e]]) where
  complete := by simp [h.complete]
  nonempty := List.forall_mem_append.mpr ⟨h.nonempty, by simp⟩
  fits hlimit := List.forall_mem_append.mpr ⟨h.fits hlimit, by simp⟩
  ends := by
    refine List.isChain_append.mpr ⟨h.ends, .singleton _, ?_⟩
    intro group hgroup other hother
    obtain rfl : [e] = other := by simpa using hother
    exact hends group hgroup
  together := List.forall_mem_append.mpr ⟨h.together, by simp⟩

/-- An entry goes into the last group if it fits and no call parts it from the entries there. -/
theorem extend (h : DealsOut limit seen (groups ++ [current])) (hne : current ≠ [])
    (hfits : 0 < limit → (((recordOf current).size + codeSize e.code : Nat) : Int) ≤ limit)
    (hjoined : ∀ f ∈ current, ¬ Stage.Parted limit f.stage e.stage) :
    DealsOut limit (seen ++ [e]) (groups ++ [current ++ [e]]) where
  complete := by simp [← h.complete]
  nonempty := List.forall_mem_append.mpr ⟨(List.forall_mem_append.mp h.nonempty).1, by simp⟩
  fits hlimit := by
    refine List.forall_mem_append.mpr ⟨(List.forall_mem_append.mp (h.fits hlimit)).1, ?_⟩
    refine List.forall_mem_singleton.mpr (Or.inl ?_)
    simpa using hfits hlimit
  ends := by
    -- The longer group starts with the same entry, so it stands apart from the one before it as the
    -- shorter one did.
    obtain ⟨hgroups, _, hlast⟩ := List.isChain_append.mp h.ends
    refine List.isChain_append.mpr ⟨hgroups, .singleton _, ?_⟩
    intro group hgroup other hother last hlastmem first hfirst
    obtain rfl : current ++ [e] = other := by simpa using hother
    rw [List.head?_append_of_ne_nil _ hne] at hfirst
    exact hlast group hgroup current (by simp) last hlastmem first hfirst
  together := by
    obtain ⟨hbefore, hcurrent⟩ := List.forall_mem_append.mp h.together
    refine List.forall_mem_append.mpr ⟨hbefore, List.forall_mem_singleton.mpr ?_⟩
    refine List.pairwise_append.mpr ⟨List.forall_mem_singleton.mp hcurrent,
      List.pairwise_singleton _ e, ?_⟩
    intro f hf
    exact List.forall_mem_singleton.mpr (hjoined f hf)

end DealsOut

/-! ## One call -/

namespace Dealing

variable {limit : Int} {seen : List Entry} {s : Stage} {groups : List (List Entry)}
  {current : List Entry}

theorem new (limit : Int) : Dealing limit [] .initial [] [] :=
  ⟨.nil limit, by simp, by simp, by simp⟩

/-- A call that ends the open record ends the open group. -/
theorem close (h : Dealing limit seen s groups current) {t : Stage}
    (hparted : ∀ r : Stage, r.interruptions ≤ s.interruptions → r.requests ≤ s.requests →
      r.Parted limit t)
    (hlater : s.interruptions ≤ t.interruptions ∧ s.requests ≤ t.requests) :
    Dealing limit seen t (closeGroup groups current) [] := by
  refine ⟨h.dealt, by simp, by simp, ?_⟩
  intro _ group hgroup last hlast
  unfold closeGroup at hgroup
  split at hgroup
  · rename_i hempty
    have hbefore := h.parted hempty group hgroup last hlast
    unfold Stage.Parted at hbefore ⊢
    omega
  · obtain rfl : current = group := by simpa using hgroup
    have hmem := List.mem_of_getLast? hlast
    exact hparted last.stage (h.earlier last hmem).1 (h.earlier last hmem).2

/-- Without a limit, an interruption changes nothing. -/
theorem interrupt_of_not_pos (h : Dealing limit seen s groups current) (hlimit : ¬ 0 < limit) :
    Dealing limit seen (s.next .interrupt) groups current := by
  have hsame : ∀ r : Stage, r.Parted limit (s.next .interrupt) ↔ r.Parted limit s := by
    simp [Stage.Parted, Stage.next, hlimit]
  refine ⟨h.dealt, ?_, ?_, ?_⟩
  · intro e he
    rw [hsame]
    exact h.joined e he
  · intro e he
    have hle := h.earlier e he
    exact ⟨Nat.le_succ_of_le hle.1, hle.2⟩
  · intro hempty group hgroup last hlast
    rw [hsame]
    exact h.parted hempty group hgroup last hlast

/-- The open group after an entry of the present stage. -/
theorem openGroup (hdealt : DealsOut limit seen (closeGroup groups current)) (hne : current ≠ [])
    (hstage : ∀ e ∈ current, ¬ e.stage.Parted limit s ∧ e.stage.interruptions ≤ s.interruptions ∧
      e.stage.requests ≤ s.requests) : Dealing limit seen s groups current :=
  ⟨hdealt, fun e he => (hstage e he).1, fun e he => (hstage e he).2, fun hempty =>
    absurd hempty hne⟩

/-- Code goes into the open group if there is none yet or if it fits. -/
theorem extend (h : Dealing limit seen s groups current) (item : Item)
    (hfits : current ≠ [] → 0 < limit →
      (((recordOf current).size + codeSize item.code : Nat) : Int) ≤ limit) :
    Dealing limit (seen ++ [⟨item, s⟩]) s groups (current ++ [⟨item, s⟩]) := by
  have hstage : ∀ e ∈ current ++ [⟨item, s⟩], ¬ e.stage.Parted limit s ∧
      e.stage.interruptions ≤ s.interruptions ∧ e.stage.requests ≤ s.requests := by
    intro e he
    rcases List.mem_append.mp he with he | he
    · exact ⟨h.joined e he, h.earlier e he⟩
    · rw [List.mem_singleton.mp he]
      exact ⟨Stage.not_parted_self limit s, Nat.le_refl _, Nat.le_refl _⟩
  refine openGroup ?_ (by simp) hstage
  rw [closeGroup_of_ne_nil groups (by simp)]
  have hdealt := h.dealt
  by_cases hempty : current = []
  · rw [hempty, closeGroup_nil] at hdealt
    rw [hempty]
    refine hdealt.begin ?_
    intro group hgroup last hlast first hfirst
    obtain rfl : (⟨item, s⟩ : Entry) = first := by simpa using hfirst
    exact Or.inl (h.parted hempty group hgroup last hlast)
  · rw [closeGroup_of_ne_nil groups hempty] at hdealt
    exact hdealt.extend hempty (hfits hempty) fun f hf => h.joined f hf

/-- Code that does not fit opens a group of its own. -/
theorem begin (h : Dealing limit seen s groups current) (item : Item) (hne : current ≠ [])
    (hlimit : 0 < limit)
    (hfull : limit < (((recordOf current).size + codeSize item.code : Nat) : Int)) :
    Dealing limit (seen ++ [⟨item, s⟩]) s (closeGroup groups current) [⟨item, s⟩] := by
  refine openGroup ?_ (by simp) ?_
  · rw [closeGroup_of_ne_nil _ (by simp)]
    refine h.dealt.begin ?_
    intro group hgroup last _ first hfirst
    rw [closeGroup_of_ne_nil groups hne] at hgroup
    obtain rfl : current = group := by simpa using hgroup
    obtain rfl : (⟨item, s⟩ : Entry) = first := by simpa using hfirst
    exact Or.inr ⟨hlimit, hfull⟩
  · intro e he
    rw [List.mem_singleton.mp he]
    exact ⟨Stage.not_parted_self limit s, Nat.le_refl _, Nat.le_refl _⟩

end Dealing

/-- Closing the open run closes the open group. -/
theorem allRuns_map_toItem (groups : List (List Entry)) (current : List Entry) :
    allRuns (groups.map (List.map Entry.toItem)) (current.map Entry.toItem) =
      (closeGroup groups current).map (List.map Entry.toItem) :=
  allRuns_map Entry.toItem groups current

/-- A code is too long for the open record if it is for the open group. -/
theorem Grouping.Holds.overflows_iff {g : Grouping} {groups : List (List Entry)}
    {current : List Entry}
    (h : g.Holds (groups.map (List.map Entry.toItem)) (current.map Entry.toItem)) (code : Bytes) :
    g.overflows code = true ↔ 0 < g.limit ∧ current ≠ [] ∧
      g.limit < (((recordOf current).size + codeSize code : Nat) : Int) := by
  have hsize : g.size = (recordOf current).size := by rw [h.size, recordOf, Text.size_ofRun]
  simp [Grouping.overflows, h.isEmpty_codes, hsize, and_assoc]

variable {groups : List (List Entry)} {current : List Entry} {seen : List Entry} {s : Stage}

/-- Every call on a grouping deals out what it adds. -/
theorem exists_dealing_perform {g : Grouping}
    (hheld : g.Holds (groups.map (List.map Entry.toItem)) (current.map Entry.toItem))
    (h : Dealing g.limit seen s groups current) (call : Call) :
    ∃ groups' current',
      (g.perform call).Holds (groups'.map (List.map Entry.toItem)) (current'.map Entry.toItem) ∧
      Dealing g.limit (seen ++ (call.entry? s).toList) (s.next call) groups' current' := by
  have hclose := hheld.close
  rw [allRuns_map_toItem] at hclose
  cases call with
  | add address code =>
    by_cases hcode : code = []
    · refine ⟨groups, current, ?_, ?_⟩
      · simpa [Grouping.perform, Grouping.add, hcode] using hheld
      · simpa [Call.entry?, Stage.next, hcode] using h
    · have hadd := hheld.add address hcode
      have hentry : (Call.entry? s (.add address code)).toList = [⟨⟨address, code⟩, s⟩] := by
        simp [Call.entry?, hcode]
      rw [hentry]
      by_cases hfull : g.overflows code = true
      · obtain ⟨hlimit, hne, hlong⟩ := (hheld.overflows_iff code).mp hfull
        rw [if_pos hfull, allRuns_map_toItem] at hadd
        exact ⟨closeGroup groups current, [⟨⟨address, code⟩, s⟩], hadd, h.begin _ hne hlimit hlong⟩
      · rw [if_neg hfull] at hadd
        refine ⟨groups, current ++ [⟨⟨address, code⟩, s⟩], by simpa [Grouping.perform] using hadd,
          h.extend _ ?_⟩
        intro hne hlimit
        exact Int.not_lt.mp fun hlong => hfull ((hheld.overflows_iff code).mpr ⟨hlimit, hne, hlong⟩)
  | interrupt =>
    rw [Call.entry?, Option.toList_none, List.append_nil, Grouping.perform]
    by_cases hlimit : 0 < g.limit
    · rw [Grouping.interrupt, if_pos hlimit]
      refine ⟨closeGroup groups current, [], hclose, h.close ?_ ?_⟩
      · intro r hle _
        exact Or.inr ⟨hlimit, Nat.lt_succ_of_le hle⟩
      · exact ⟨Nat.le_succ _, Nat.le_refl _⟩
    · rw [Grouping.interrupt_of_not_pos hlimit]
      exact ⟨groups, current, hheld, h.interrupt_of_not_pos hlimit⟩
  | request =>
    rw [Call.entry?, Option.toList_none, List.append_nil, Grouping.perform]
    refine ⟨closeGroup groups current, [], hclose, h.close ?_ ?_⟩
    · intro r _ hle
      exact Or.inl (Nat.lt_succ_of_le hle)
    · exact ⟨Nat.le_refl _, Nat.le_succ _⟩

/-! ## All calls -/

@[simp] theorem Grouping.limit_perform (g : Grouping) (call : Call) :
    (g.perform call).limit = g.limit := by
  cases call <;> simp [Grouping.perform]

theorem exists_dealing_foldl {g : Grouping}
    (hheld : g.Holds (groups.map (List.map Entry.toItem)) (current.map Entry.toItem))
    (h : Dealing g.limit seen s groups current) (calls : List Call) :
    ∃ groups' current' s',
      (calls.foldl Grouping.perform g).Holds (groups'.map (List.map Entry.toItem))
        (current'.map Entry.toItem) ∧
      Dealing g.limit (seen ++ entriesFrom s calls) s' groups' current' := by
  induction calls generalizing g groups current seen s with
  | nil => exact ⟨groups, current, s, hheld, by simpa [entriesFrom] using h⟩
  | cons call rest ih =>
    obtain ⟨groups', current', hnext, hdealing⟩ := exists_dealing_perform hheld h call
    rw [← Grouping.limit_perform g call] at hdealing
    obtain ⟨groups'', current'', s', hlast, hall⟩ := ih hnext hdealing
    refine ⟨groups'', current'', s', hlast, ?_⟩
    simpa [entriesFrom] using hall

/-- The records that a grouping answers with are the records of groups that are dealt out
greedily. -/
theorem Grouping.exists_dealsOut_answer (limit : Int) (calls : List Call) :
    ∃ groups, DealsOut limit (entries calls) groups ∧ answer limit calls = groups.map recordOf := by
  have hstart : Dealing (new limit).limit [] .initial [] [] := Dealing.new limit
  obtain ⟨groups, current, s, hheld, hdealing⟩ :=
    exists_dealing_foldl (Holds.new limit) hstart calls
  refine ⟨closeGroup groups current, hdealing.dealt, ?_⟩
  have hrecords := hheld.records
  rw [allRuns_map_toItem, List.map_map] at hrecords
  exact hrecords

theorem codes_recordOf (group : List Entry) :
    (recordOf group).codes = group.map fun e => e.code := by
  rw [recordOf, Text.ofRun, List.map_map]
  rfl

/-- Behind any calls, a request for the records returns the codes that are not empty, in the order
in which they were added, dealt out to records greedily: a record is longer than the limit only if
it is a single code, and it ends just where a call parts two codes or the next code does not fit. -/
theorem Grouping.answer_greedy (limit : Int) (calls : List Call) :
    (answer limit calls).flatMap Text.codes = calls.filterMap Call.code? ∧
      ∃ groups, answer limit calls = groups.map recordOf ∧
        DealsOut limit (entries calls) groups := by
  obtain ⟨groups, hdealt, hanswer⟩ := exists_dealsOut_answer limit calls
  refine ⟨?_, groups, hanswer, hdealt⟩
  calc (answer limit calls).flatMap Text.codes
      = groups.flatMap fun group => group.map fun e => e.code := by
        rw [hanswer, List.flatMap_map]
        simp only [codes_recordOf]
    _ = (entries calls).map fun e => e.code := by
        rw [← hdealt.complete, List.map_flatten, List.flatMap_def]
    _ = calls.filterMap Call.code? := map_code_entriesFrom .initial calls

/-- Under a limit of three bytes the second code is too long for any record, two interruptions end
its record once, and a code of no bytes still goes into a record that is full. -/
example : Grouping.answer 3
      [.add 0 (utf8 "000000"), .add 3 (utf8 "11111111"), .interrupt, .interrupt, .request,
      .add 0x10 (utf8 "AB"), .add 0x11 [], .add 0x12 (utf8 "CDEF"), .add 0x14 (utf8 "F"),
      .add 0x15 (utf8 "01")] =
    [⟨0, [utf8 "000000"]⟩, ⟨3, [utf8 "11111111"]⟩, ⟨0x10, [utf8 "AB", utf8 "CDEF", utf8 "F"]⟩,
      ⟨0x15, [utf8 "01"]⟩] := by decide +kernel

end TwoPass.Object
