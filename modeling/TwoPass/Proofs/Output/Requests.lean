import Mathlib.Algebra.Order.Ring.Nat
import Mathlib.Data.List.Induction
import TwoPass.Proofs.Output.Prefix

set_option autoImplicit false

/-!
# A latch under any requests

Writes, rows and new room reach a latch in any order.  As long as everything that was asked has
fitted the room that there was at the time, the latch has taken all of it.  The first request that
does not fit leaves a part, and from then on nothing gets through, though there may be room again.
So the sink holds the front of what was asked, without a hole, and all of it just if there was no
failure.
-/

namespace TwoPass

/-! ## More room -/

section Room

variable {room : Option Nat} {text : Bytes}

/-- A text fits just if it is not longer than the room. -/
theorem exceeds_eq_false_iff : exceeds room text = false ↔ ∀ n ∈ room, text.length ≤ n := by
  cases room <;> simp [exceeds]

theorem fitting_eq_self (h : exceeds room text = false) : fitting room text = text := by
  cases room with
  | none => rfl
  | some n => exact List.take_of_length_le (exceeds_eq_false_iff.mp h n rfl)

theorem isPrefix_fitting (room : Option Nat) (text : Bytes) : fitting room text <+: text := by
  cases room with
  | none => exact List.prefix_rfl
  | some n => exact List.take_prefix n text

theorem length_fitting_lt (h : exceeds room text = true) :
    (fitting room text).length < text.length := by
  cases room with
  | none => simp [exceeds] at h
  | some n =>
    have hlt : n < text.length := by simpa [exceeds] using h
    exact Nat.lt_of_le_of_lt (List.length_take_le n text) hlt

theorem exceeds_more (h : exceeds room text = false) (extra : Nat) :
    exceeds (room.map (· + extra)) text = false := by
  rw [exceeds_eq_false_iff] at h ⊢
  cases room with
  | none => simp
  | some n => simpa using Nat.le_add_right_of_le (h n rfl)

/-- Room that is added is left behind a text that has fitted. -/
theorem roomAfter_more (h : exceeds room text = false) (extra : Nat) :
    roomAfter (room.map (· + extra)) text = (roomAfter room text).map (· + extra) := by
  cases room with
  | none => rfl
  | some n =>
    have hle := exceeds_eq_false_iff.mp h n rfl
    simp only [roomAfter, Option.map_some]
    congr 1
    omega

end Room

/-! ## Requests -/

/-- What a latch can be asked, or what can happen to the sink behind it. -/
inductive Request where
  /-- to write bytes, given as such or as a string -/
  | write (bytes : Bytes)
  /-- to write a row -/
  | row (fields : List Bytes)
  /-- the sink gets more room -/
  | grow (extra : Nat)
  deriving DecidableEq, Repr, Inhabited

namespace Request

/-- What is asked to be written.  A row is its fields with tabs between them and a line end. -/
def text : Request → Bytes
  | .write bytes => bytes
  | .row fields => [Ascii.tab].intercalate fields ++ [Ascii.newline]
  | .grow _ => []

/-- The room that is added. -/
def extra : Request → Nat
  | .write _ => 0
  | .row _ => 0
  | .grow extra => extra

end Request

/-- All that requests ask to be written. -/
def asked (requests : List Request) : Bytes := requests.flatMap Request.text

/-- The room that there is in all when requests have been made. -/
def roomFor (room : Option Nat) (requests : List Request) : Option Nat :=
  room.map (· + (requests.map Request.extra).sum)

theorem asked_append_singleton (requests : List Request) (r : Request) :
    asked (requests ++ [r]) = asked requests ++ r.text := by
  simp [asked]

theorem roomFor_append_singleton (room : Option Nat) (requests : List Request) (r : Request) :
    roomFor room (requests ++ [r]) = (roomFor room requests).map (· + r.extra) := by
  cases room <;> simp [roomFor, Nat.add_assoc]

theorem exceeds_roomFor_eq_false_iff {room : Option Nat} {requests : List Request} :
    exceeds (roomFor room requests) (asked requests) = false ↔
      ∀ n ∈ room, (asked requests).length ≤ n + (requests.map Request.extra).sum := by
  rw [exceeds_eq_false_iff]
  cases room <;> simp [roomFor]

theorem flatten_row (fields : List Bytes) : (row fields).flatten = (Request.row fields).text := by
  simp [row, Request.text, List.intercalate]

namespace Latch

variable {latch : Latch} {room : Option Nat} {text : Bytes}

/-- A latch after a request. -/
def perform (latch : Latch) : Request → Latch
  | .write bytes => (latch.write bytes).target
  | .row fields => (latch.writeAll (TwoPass.row fields)).target
  | .grow extra => latch.grow extra

/-- A latch after requests, the first of which finds the sink new. -/
def after (room : Option Nat) (requests : List Request) : Latch :=
  requests.foldl perform (.new (.new room))

theorem after_append_singleton (room : Option Nat) (requests : List Request) (r : Request) :
    after room (requests ++ [r]) = (after room requests).perform r := by
  simp [after]

/-! ## Before a failure -/

/-- More room for a text that has fitted. -/
theorem Took.grow (h : latch.Took room text) (hfits : exceeds room text = false) (extra : Nat) :
    (latch.grow extra).Took (room.map (· + extra)) text := by
  refine ⟨?_, ?_, ?_⟩
  · calc (latch.grow extra).sink.contents
        = text := h.contents.trans (fitting_eq_self hfits)
      _ = fitting (room.map (· + extra)) text := (fitting_eq_self (exceeds_more hfits extra)).symm
  · rw [roomAfter_more hfits, ← h.left]
    rfl
  · rw [exceeds_more hfits, ← hfits]
    exact h.fault

/-- One more request, behind text that has fitted. -/
theorem Took.perform (h : latch.Took room text) (hfits : exceeds room text = false) (r : Request) :
    (latch.perform r).Took (room.map (· + r.extra)) (text ++ r.text) := by
  cases r with
  | write bytes => simpa [Request.extra, Request.text, Latch.perform] using (h.write bytes).target
  | row fields =>
    have hrow := (h.writeAll (TwoPass.row fields)).target
    rw [flatten_row] at hrow
    simpa [Request.extra, Latch.perform] using hrow
  | grow extra => simpa [Request.extra, Request.text, Latch.perform] using h.grow hfits extra

/-! ## After a failure -/

/-- A latch that has failed answers every write with that failure, and does nothing. -/
theorem write_of_fault {fault : WriteFault} (h : latch.fault = some fault) (bytes : Bytes) :
    latch.write bytes = ⟨latch, 0, some fault⟩ := by
  simp only [write, h]

theorem writeAll_of_fault {fault : WriteFault} (h : latch.fault = some fault)
    (chunks : List Bytes) :
    latch.writeAll chunks = ⟨latch, 0, some fault⟩ := by
  rw [writeAll, h]
  induction chunks with
  | nil => rfl
  | cons chunk rest ih =>
    rw [List.foldl_cons]
    simp only [write_of_fault h]
    exact ih

/-- Only the room of a latch that has failed can change. -/
theorem perform_of_fault {fault : WriteFault} (h : latch.fault = some fault) (r : Request) :
    (latch.perform r).fault = some fault ∧
    (latch.perform r).sink.contents = latch.sink.contents := by
  cases r with
  | write bytes => simp only [perform, write_of_fault h, h, and_self]
  | row fields => simp only [perform, writeAll_of_fault h, h, and_self]
  | grow extra => exact ⟨h, rfl⟩

theorem after_of_fault {fault : WriteFault} {requests : List Request}
    (h : (after room requests).fault = some fault) (more : List Request) :
    (after room (requests ++ more)).fault = some fault ∧
      (after room (requests ++ more)).sink.contents = (after room requests).sink.contents := by
  induction more using List.reverseRecOn with
  | nil => simpa using h
  | append_singleton more r ih =>
    rw [← List.append_assoc, after_append_singleton]
    obtain ⟨hfault, hcontents⟩ := perform_of_fault ih.1 r
    exact ⟨hfault, hcontents.trans ih.2⟩

/-! ## All requests -/

/-- What requests have made of a latch. -/
structure Served (room : Option Nat) (requests : List Request) (latch : Latch) : Prop where
  /-- nothing has failed just if, up to each of them, what was asked has fitted -/
  fault_iff : latch.fault = none ↔
    ∀ before, before <+: requests → exceeds (roomFor room before) (asked before) = false
  /-- all of it has been taken then -/
  whole : latch.fault = none → latch.Took (roomFor room requests) (asked requests)
  /-- and not all of it else -/
  cut : ∀ fault, latch.fault = some fault →
    latch.sink.contents <+: asked requests ∧ latch.sink.contents.length < (asked requests).length

theorem Served.contents_eq {requests : List Request} (h : latch.Served room requests)
    (hfault : latch.fault = none) :
    latch.sink.contents = asked requests :=
  (h.whole hfault).contents.trans (fitting_eq_self (h.fault_iff.mp hfault requests List.prefix_rfl))

theorem forall_prefix_append_singleton {p : List Request → Prop} {requests : List Request}
    {r : Request} :
    (∀ before, before <+: requests ++ [r] → p before) ↔
      p (requests ++ [r]) ∧ ∀ before, before <+: requests → p before := by
  simp only [List.prefix_concat_iff, or_imp, forall_and, forall_eq]

theorem served_after (room : Option Nat) (requests : List Request) :
    (after room requests).Served room requests := by
  induction requests using List.reverseRecOn with
  | nil =>
    have htook : (after room []).Took (roomFor room []) (asked []) := by
      simpa [roomFor, asked, after] using took_new room
    refine ⟨?_, fun _ => htook, ?_⟩
    · simpa [List.prefix_nil] using htook.fault_eq_none_iff
    · intro fault hfault
      cases hfault
  | append_singleton requests r ih =>
    rw [after_append_singleton]
    cases hfault : (after room requests).fault with
    | none =>
      have hfits := ih.fault_iff.mp hfault
      have htook := (ih.whole hfault).perform (hfits requests List.prefix_rfl) r
      rw [← roomFor_append_singleton, ← asked_append_singleton] at htook
      refine ⟨?_, fun _ => htook, ?_⟩
      · rw [htook.fault_eq_none_iff, forall_prefix_append_singleton]
        exact (and_iff_left hfits).symm
      · intro fault hlatched
        have hexceeds : exceeds (roomFor room (requests ++ [r])) (asked (requests ++ [r])) =
            true := by
          rw [← Bool.not_eq_false, ← htook.fault_eq_none_iff, hlatched]
          simp
        rw [htook.contents]
        exact ⟨isPrefix_fitting _ _, length_fitting_lt hexceeds⟩
    | some fault =>
      -- The sink keeps what it held, while more may be asked: the part that is missing does not get
      -- smaller.
      obtain ⟨hlatched, hcontents⟩ := perform_of_fault hfault r
      refine ⟨?_, ?_, ?_⟩
      · rw [hlatched, forall_prefix_append_singleton, ← ih.fault_iff, hfault]
        simp
      · intro hnone
        rw [hlatched] at hnone
        cases hnone
      · intro _ _
        obtain ⟨hfront, hlt⟩ := ih.cut fault hfault
        rw [hcontents, asked_append_singleton, List.length_append]
        exact ⟨hfront.trans (List.prefix_append _ _), by omega⟩

/-- Behind any requests a sink holds the front of what was asked, and all of it just if the latch
has not failed.  It has failed just if at some time more had been asked than there was room for.
From then on every write is answered with the same failure and stores nothing, whatever room is
added. -/
theorem after_noHoles (room : Option Nat) (requests : List Request) :
    (after room requests).sink.contents <+: asked requests ∧
    ((after room requests).sink.contents = asked requests ↔ (after room requests).fault = none) ∧
    ((after room requests).fault = none ↔ ∀ before, before <+: requests → ∀ n ∈ room,
      (asked before).length ≤ n + (before.map Request.extra).sum) ∧
    ∀ fault, (after room requests).fault = some fault → ∀ more : List Request,
      (after room (requests ++ more)).fault = some fault ∧
      (after room (requests ++ more)).sink.contents = (after room requests).sink.contents ∧
      (∀ bytes, (after room (requests ++ more)).write bytes =
        ⟨after room (requests ++ more), 0, some fault⟩) ∧
      ∀ fields, (after room (requests ++ more)).writeAll (row fields) =
        ⟨after room (requests ++ more), 0, some fault⟩ := by
  have hserved := served_after room requests
  refine ⟨?_, ⟨?_, hserved.contents_eq⟩, ?_, ?_⟩
  · cases hfault : (after room requests).fault with
    | none => exact hserved.contents_eq hfault ▸ List.prefix_rfl
    | some fault => exact (hserved.cut fault hfault).1
  · intro hall
    cases hfault : (after room requests).fault with
    | none => rfl
    | some fault =>
      have hlt := (hserved.cut fault hfault).2
      rw [hall] at hlt
      exact absurd hlt (Nat.lt_irrefl _)
  · simpa only [exceeds_roomFor_eq_false_iff] using hserved.fault_iff
  · intro fault hfault more
    obtain ⟨hlater, hcontents⟩ := after_of_fault hfault more
    exact ⟨hlater, hcontents, write_of_fault hlater, fun fields =>
      writeAll_of_fault hlater (row fields)⟩

/-- A row that does not fit, and behind it more room. -/
def cutRow : List Request := [.write (utf8 "ab"), .write [], .row [utf8 "c", utf8 "def"]]

/-- The row is cut off in its second field, of which one byte is taken.  A write behind it would
fail with another fault if the sink were asked again, and would succeed with more room. -/
theorem after_noHoles_cutRow :
    (after (some 5) cutRow).sink.contents = utf8 "abc\td" ∧
      (after (some 5) cutRow).fault = some (.short 3 1) ∧
      ((after (some 5) cutRow).write (utf8 "gh")).fault = some (.short 3 1) ∧
      ((after (some 5) cutRow).sink.write (utf8 "gh")).fault = some (.short 2 0) ∧
      (after (some 5) (cutRow ++ [.grow 100, .write (utf8 "gh")])).sink.contents = utf8 "abc\td" ∧
      ((after (some 5) (cutRow ++ [.grow 100])).write (utf8 "gh")).count = 0 := by
  obtain ⟨_, _, _, hlater⟩ := after_noHoles (some 5) cutRow
  have hfault : (after (some 5) cutRow).fault = some (.short 3 1) := by decide +kernel
  have hcontents : (after (some 5) cutRow).sink.contents = utf8 "abc\td" := by decide +kernel
  refine ⟨hcontents, hfault, ?_, by decide +kernel, ?_, ?_⟩
  · have hnext := (hlater _ hfault []).2.2.1 (utf8 "gh")
    rw [List.append_nil] at hnext
    rw [hnext]
  · exact (hlater _ hfault _).2.1.trans hcontents
  · rw [(hlater _ hfault [.grow 100]).2.2.1]

end Latch

end TwoPass
