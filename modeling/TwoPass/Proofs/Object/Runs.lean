import Mathlib.Algebra.Order.Ring.Nat
import TwoPass.Object.Grouping

set_option autoImplicit false

/-!
# Text records are runs of object code

Grouping cuts the object code that it is given into runs, each of which becomes a Text record.  At
any time some runs have ended and one is open, possibly still empty.  Each operation on a grouping
is an operation on these runs, so nothing is lost, repeated or put out of order.
-/

namespace TwoPass.Object

/-- Object code and the address of its statement. -/
structure Item where
  /-- the address -/
  address : Address
  /-- the code -/
  code : Bytes
  deriving DecidableEq, Repr, Inhabited

/-- The Text record of a run: it starts where the first code of the run does. -/
def Text.ofRun (run : List Item) : Text := ⟨(run.head?.map Item.address).getD 0, run.map Item.code⟩

/-- The number of bytes of a run. -/
def runSize (run : List Item) : Nat := (run.map fun item => codeSize item.code).sum

/-- The size of a Text record is that of its codes put together. -/
theorem Text.size_eq_sum (t : Text) : t.size = (t.codes.map codeSize).sum := by
  rw [Text.size, List.sum, List.foldr_map]

theorem Text.size_ofRun (run : List Item) : (Text.ofRun run).size = runSize run := by
  rw [Text.size_eq_sum, Text.ofRun, List.map_map]
  rfl

/-- All runs, given those that have ended and the open one. -/
def allRuns (ended : List (List Item)) (current : List Item) : List (List Item) :=
  if current = [] then ended else ended ++ [current]

theorem flatten_allRuns (ended : List (List Item)) (current : List Item) :
    (allRuns ended current).flatten = ended.flatten ++ current := by
  unfold allRuns
  split
  · rename_i hempty
    simp [hempty]
  · simp

/-- Items that stand for something else are closed as what they stand for is. -/
theorem allRuns_map {α : Type} [DecidableEq α] (item : α → Item) (groups : List (List α))
    (current : List α) :
    allRuns (groups.map (List.map item)) (current.map item) =
      (if current = [] then groups else groups ++ [current]).map (List.map item) := by
  unfold allRuns
  split
  · rename_i hempty
    rw [if_pos (List.map_eq_nil_iff.mp hempty)]
  · rename_i hne
    rw [if_neg fun hempty => hne (List.map_eq_nil_iff.mpr hempty)]
    simp

namespace Grouping

/-- A grouping stands for the runs that have ended and the open one. -/
structure Holds (g : Grouping) (ended : List (List Item)) (current : List Item) : Prop where
  /-- the records that have ended are the runs that have ended -/
  closed : g.closed.toList = ended.map Text.ofRun
  /-- the open record holds the code of the open run -/
  codes : g.codes.toList = current.map Item.code
  /-- the open record starts where the open run does -/
  start : current ≠ [] → some g.start = current.head?.map Item.address
  /-- the open record counts the bytes of the open run -/
  size : g.size = runSize current
  /-- a run that has ended is not empty -/
  nonempty : ∀ run ∈ ended, run ≠ []

variable {g : Grouping} {ended : List (List Item)} {current : List Item}

theorem Holds.new (limit : Int) : (Grouping.new limit).Holds [] [] :=
  { closed := rfl, codes := rfl, start := fun h => absurd rfl h, size := rfl, nonempty := by simp }

/-- The open record is empty just if the open run is. -/
theorem Holds.isEmpty_codes (h : g.Holds ended current) : g.codes.isEmpty = current.isEmpty := by
  rw [Bool.eq_iff_iff, Array.isEmpty_iff, ← Array.toList_eq_nil_iff, h.codes, List.map_eq_nil_iff,
    List.isEmpty_iff]

/-- The open record is the record of the open run. -/
theorem Holds.ofRun_current (h : g.Holds ended current) (hne : current ≠ []) :
    (⟨g.start, g.codes.toList⟩ : Text) = Text.ofRun current := by
  rw [Text.ofRun, h.codes, ← h.start hne]
  rfl

/-- Ending the open record ends the open run. -/
theorem Holds.close (h : g.Holds ended current) : g.close.Holds (allRuns ended current) [] := by
  by_cases hempty : current = []
  · refine ⟨?_, rfl, fun hne => absurd rfl hne, rfl, ?_⟩
    · simpa [allRuns, Grouping.close, h.isEmpty_codes, hempty] using h.closed
    · simpa [allRuns, hempty] using h.nonempty
  · refine ⟨?_, rfl, fun hne => absurd rfl hne, rfl, ?_⟩
    · simp [allRuns, Grouping.close, h.isEmpty_codes, hempty, h.closed, h.ofRun_current hempty]
    · rw [allRuns, if_neg hempty]
      intro run hrun
      rcases List.mem_append.mp hrun with hrun | hrun
      · exact h.nonempty run hrun
      · rw [List.mem_singleton.mp hrun]
        exact hempty

/-- Putting a code into the open record puts it into the open run. -/
theorem Holds.append (h : g.Holds ended current) (address : Address) (code : Bytes) :
    (g.append address code).Holds ended (current ++ [⟨address, code⟩]) := by
  refine ⟨h.closed, ?_, ?_, ?_, h.nonempty⟩
  · simp [Grouping.append, h.codes]
  · intro _
    cases hcurrent : current with
    | nil => simp [Grouping.append, h.isEmpty_codes, hcurrent]
    | cons first rest =>
      have hstart := h.start (by simp [hcurrent])
      rw [hcurrent] at hstart
      simpa [Grouping.append, h.isEmpty_codes, hcurrent] using hstart
  · simp [Grouping.append, h.size, runSize]

/-- A code goes behind the open run, or opens a run of its own where it would overflow. -/
theorem Holds.add (h : g.Holds ended current) (address : Address) {code : Bytes}
    (hcode : code ≠ []) :
    if g.overflows code then (g.add address code).Holds (allRuns ended current) [⟨address, code⟩]
    else (g.add address code).Holds ended (current ++ [⟨address, code⟩]) := by
  have hempty : code.isEmpty = false := by simpa using hcode
  simp only [Grouping.add, hempty]
  split
  · exact h.close.append address code
  · exact h.append address code

/-- With a limit, an interruption ends the open run. -/
theorem Holds.interrupt (h : g.Holds ended current) (hlimit : 0 < g.limit) :
    g.interrupt.Holds (allRuns ended current) [] := by
  rw [Grouping.interrupt, if_pos hlimit]
  exact h.close

/-- The records are the runs. -/
theorem Holds.records (h : g.Holds ended current) :
    g.records = (allRuns ended current).map Text.ofRun := h.close.closed

@[simp] theorem limit_close (g : Grouping) : g.close.limit = g.limit := rfl

@[simp] theorem limit_append (g : Grouping) (address : Address) (code : Bytes) :
    (g.append address code).limit = g.limit := rfl

@[simp] theorem limit_add (g : Grouping) (address : Address) (code : Bytes) :
    (g.add address code).limit = g.limit := by
  unfold Grouping.add
  split
  · rfl
  · split <;> simp

@[simp] theorem limit_interrupt (g : Grouping) : g.interrupt.limit = g.limit := by
  unfold Grouping.interrupt
  split <;> simp

/-- Without a limit, no code ends the open record. -/
theorem closed_add {g : Grouping} (hlimit : ¬ 0 < g.limit) (address : Address) (code : Bytes) :
    (g.add address code).closed = g.closed := by
  have hfits : g.overflows code = false := by simp [overflows, hlimit]
  unfold Grouping.add
  rw [hfits]
  split <;> rfl

theorem interrupt_of_not_pos {g : Grouping} (hlimit : ¬ 0 < g.limit) : g.interrupt = g :=
  if_neg hlimit

end Grouping

end TwoPass.Object
