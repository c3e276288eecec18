import Mathlib.Data.List.TakeWhile
import TwoPass.Input

set_option autoImplicit false

/-!
# Written lines are the lines that are read

A text written line by line, each line with a line feed behind it, is cut into the same lines again.
Whether all of it is delivered depends on one thing only: that every line fits the line buffer.
-/

namespace TwoPass

/-! ## Trimming -/

/-- Only trailing bytes are dropped, so a text that ends in another byte stays as it is. -/
theorem dropTrailing_of_getLast?_ne {b : UInt8} {text : Bytes} (h : text.getLast? ≠ some b) :
    dropTrailing b text = text := by
  have hstop : text.reverse.dropWhile (· == b) = text.reverse := by
    cases hreverse : text.reverse with
    | nil => rfl
    | cons last front =>
      rw [List.getLast?_eq_head?_reverse, hreverse, List.head?_cons] at h
      have hlast : (last == b) = false := by simpa using h
      simp [hlast]
  rw [dropTrailing, hstop, List.reverse_reverse]

/-- Copies of the dropped byte at the end do not matter. -/
theorem dropTrailing_append_replicate (b : UInt8) (text : Bytes) (count : Nat) :
    dropTrailing b (text ++ List.replicate count b) = dropTrailing b text := by
  have hdrop : ∀ rest : Bytes, (List.replicate count b ++ rest).dropWhile (· == b) =
      rest.dropWhile (· == b) := by
    intro rest
    rw [List.dropWhile_append_of_pos]
    intro c hc
    simp [List.eq_of_mem_replicate hc]
  rw [dropTrailing, List.reverse_append, List.reverse_replicate, hdrop, dropTrailing]

theorem mem_of_mem_dropTrailing {b c : UInt8} {text : Bytes} (h : c ∈ dropTrailing b text) :
    c ∈ text := by
  rw [dropTrailing, List.mem_reverse] at h
  exact List.mem_reverse.mp ((List.dropWhile_sublist _).subset h)

/-- A text is what is left of it after trimming, and copies of the byte that was dropped. -/
theorem exists_eq_dropTrailing_append (b : UInt8) (text : Bytes) :
    ∃ count, text = dropTrailing b text ++ List.replicate count b := by
  have hdropped : text.reverse.takeWhile (· == b) =
      List.replicate (text.reverse.takeWhile (· == b)).length b := by
    rw [List.eq_replicate_iff]
    exact ⟨rfl, fun c hc => by simpa using List.mem_takeWhile_imp hc⟩
  refine ⟨(text.reverse.takeWhile (· == b)).length, ?_⟩
  rw [dropTrailing, ← List.reverse_replicate, ← hdropped, ← List.reverse_append,
    List.takeWhile_append_dropWhile, List.reverse_reverse]

/-- A line that does not end in a carriage return is delivered as it stands. -/
theorem dropReturn_of_getLast?_ne {line : Bytes}
    (h : line.getLast? ≠ some Ascii.carriageReturn) : dropReturn line = line := by
  simp [dropReturn, h]

/-- A carriage return that the line buffer drops is one of those at the end of the line. -/
theorem dropTrailing_dropReturn (line : Bytes) :
    dropTrailing Ascii.carriageReturn (dropReturn line) =
      dropTrailing Ascii.carriageReturn line := by
  unfold dropReturn
  split
  · rename_i hlast
    obtain ⟨front, rfl⟩ := List.getLast?_eq_some_iff.mp (eq_of_beq hlast)
    rw [List.dropLast_concat]
    exact (dropTrailing_append_replicate Ascii.carriageReturn front 1).symm
  · rfl

/-- What is left after trimming does not end in the byte that was dropped. -/
theorem getLast?_dropTrailing_ne (b : UInt8) (text : Bytes) :
    (dropTrailing b text).getLast? ≠ some b := by
  rw [dropTrailing, List.getLast?_reverse]
  intro h
  have hkept := List.head?_dropWhile_not (· == b) text.reverse
  rw [h] at hkept
  simp at hkept

/-! ## Lines -/

/-- The lines of a text are what stands between its line feeds, but for an empty rest. -/
theorem splitOn_eq_rawLines_or (text : Bytes) :
    text.splitOn Ascii.newline = rawLines text ∨
    text.splitOn Ascii.newline = rawLines text ++ [[]] := by
  by_cases hlast : (text.splitOn Ascii.newline).getLast? = some []
  · right
    obtain ⟨front, hfront⟩ := List.getLast?_eq_some_iff.mp hlast
    simp [rawLines, hfront]
  · left
    simp [rawLines, hlast]

/-- All of an input is read if it does not break off and all of its lines fit the line buffer. -/
theorem Input.fault_read_eq_none_iff {input : Input} :
    input.read.fault = none ↔
      input.fault = none ∧ ∀ line ∈ rawLines input.text, line.length < lineLimit := by
  by_cases hall : (rawLines input.text).all fitsBuffer = true
  · have hfits : ∀ line ∈ rawLines input.text, line.length < lineLimit := by
      simpa [fitsBuffer] using hall
    simp only [Input.read, hall, if_true]
    exact ⟨fun h => ⟨h, hfits⟩, fun h => h.1⟩
  · simp only [Input.read, hall, Bool.false_eq_true, if_false, reduceCtorEq, false_iff]
    rintro ⟨_, hfits⟩
    exact hall (by simpa [fitsBuffer] using hfits)

/-- Lines that all fit the line buffer are delivered, and the fault after them is that of the
input. -/
theorem Input.read_of_fits {input : Input}
    (h : ∀ line ∈ rawLines input.text, line.length < lineLimit) :
    input.read = ⟨(rawLines input.text).map dropReturn, input.fault⟩ := by
  have hfits : ∀ line ∈ rawLines input.text, fitsBuffer line = true := by simpa [fitsBuffer] using h
  have hall : (rawLines input.text).all fitsBuffer = true := List.all_eq_true.mpr hfits
  have htake : (rawLines input.text).takeWhile fitsBuffer = rawLines input.text :=
    List.takeWhile_eq_self_iff.mpr hfits
  simp only [Input.read, hall, htake, if_true]

theorem Input.lines_read {input : Input}
    (h : ∀ line ∈ rawLines input.text, line.length < lineLimit) :
    input.read.lines = (rawLines input.text).map dropReturn := by
  rw [Input.read_of_fits h]

/-- The text of lines, each with a line feed behind it. -/
def terminated (lines : List Bytes) : Bytes := (lines.map (· ++ [Ascii.newline])).flatten

theorem terminated_cons (line : Bytes) (lines : List Bytes) :
    terminated (line :: lines) = line ++ Ascii.newline :: terminated lines := by
  simp [terminated]

/-- A terminated text is cut into its lines and an empty rest. -/
theorem splitOn_terminated {lines : List Bytes} (h : ∀ line ∈ lines, Ascii.newline ∉ line) :
    (terminated lines).splitOn Ascii.newline = lines ++ [[]] := by
  induction lines with
  | nil => rfl
  | cons line lines ih =>
    have hline := h line List.mem_cons_self
    have hlines := ih (fun other hother => h other (List.mem_cons_of_mem line hother))
    rw [terminated_cons, List.splitOn_append_cons_self_of_not_mem hline, hlines]
    rfl

theorem rawLines_terminated {lines : List Bytes} (h : ∀ line ∈ lines, Ascii.newline ∉ line) :
    rawLines (terminated lines) = lines := by
  simp [rawLines, splitOn_terminated h]

/-- Lines that all fit are delivered, and nothing goes wrong. -/
theorem read_terminated {lines : List Bytes} (h : ∀ line ∈ lines, Ascii.newline ∉ line)
    (hfits : ∀ line ∈ lines, line.length < lineLimit) :
    (Input.ofBytes (terminated lines)).read = ⟨lines.map dropReturn, none⟩ := by
  have hraw : rawLines (Input.ofBytes (terminated lines)).text = lines := rawLines_terminated h
  rw [Input.read_of_fits (by rwa [hraw]), hraw]
  rfl

/-- Reading to the end without a fault means that every line fits. -/
theorem length_lt_of_read_terminated {lines : List Bytes}
    (h : ∀ line ∈ lines, Ascii.newline ∉ line)
    (hfault : (Input.ofBytes (terminated lines)).read.fault = none) :
    ∀ line ∈ lines, line.length < lineLimit := by
  intro line hline
  by_cases hall : lines.all fitsBuffer = true
  · simpa [fitsBuffer] using List.all_eq_true.mp hall line hline
  · simp [Input.read, Input.ofBytes, rawLines_terminated h, hall] at hfault

end TwoPass
