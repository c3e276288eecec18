import TwoPass.Assembly.Result
import TwoPass.Object.Dump

set_option autoImplicit false

/-!
# What a full sink holds of an output

An output is written in many small chunks, some of them empty, and a failure is looked for after
every row, or only at the end.  None of this can be seen in what is stored.  What a latch has taken
depends on the text that it was asked to write so far and on the room there was, not on how the text
came in chunks: as long as the text fits, all of it; after that, the part that fits, whatever else
is asked.  Each write keeps this up, so every run of writes does, whether it stops at a failure or
goes on.
-/

namespace TwoPass

/-! ## Room -/

/-- The part of a text that there is room for. -/
def fitting (room : Option Nat) (text : Bytes) : Bytes :=
  match room with
  | none => text
  | some n => text.take n

/-- Whether a text is longer than the room. -/
def exceeds (room : Option Nat) (text : Bytes) : Bool := room.any (· < text.length)

/-- The room that a text leaves. -/
def roomAfter (room : Option Nat) (text : Bytes) : Option Nat := room.map (· - text.length)

variable {room : Option Nat} {text : Bytes}

theorem fitting_nil (room : Option Nat) : fitting room [] = [] := by cases room <;> simp [fitting]

theorem roomAfter_append (room : Option Nat) (text more : Bytes) :
    roomAfter room (text ++ more) = roomAfter (roomAfter room text) more := by
  cases room <;> simp [roomAfter, Nat.sub_sub]

/-- What fits of two texts is what fits of the first, and of the second in the room that is left. -/
theorem fitting_append (room : Option Nat) (text more : Bytes) :
    fitting room (text ++ more) = fitting room text ++ fitting (roomAfter room text) more := by
  cases room with
  | none => rfl
  | some n => exact List.take_append

theorem exceeds_append (room : Option Nat) (text more : Bytes) :
    exceeds room (text ++ more) = (exceeds room text || exceeds (roomAfter room text) more) := by
  cases room with
  | none => rfl
  | some n =>
    simp only [exceeds, roomAfter, Option.map_some, Option.any_some, List.length_append]
    rw [Bool.eq_iff_iff]
    simp only [decide_eq_true_eq, Bool.or_eq_true]
    omega

/-- Behind a text that does not fit, nothing fits. -/
theorem fitting_append_of_exceeds (h : exceeds room text = true) (more : Bytes) :
    fitting room (text ++ more) = fitting room text := by
  cases room with
  | none => simp [exceeds] at h
  | some n =>
    have hlt : n < text.length := by simpa [exceeds] using h
    exact List.take_append_of_le_length (by omega)

theorem roomAfter_append_of_exceeds (h : exceeds room text = true) (more : Bytes) :
    roomAfter room (text ++ more) = roomAfter room text := by
  cases room with
  | none => simp [exceeds] at h
  | some n =>
    have hlt : n < text.length := by simpa [exceeds] using h
    simp only [roomAfter, Option.map_some, List.length_append]
    congr 1
    omega

/-! ## One write -/

/-- A write stores what fits, leaves the room behind it, and fails if something does not fit. -/
theorem Sink.write_eq (sink : Sink) (bytes : Bytes) :
    sink.write bytes =
      ⟨sink.store (fitting sink.room bytes) (roomAfter sink.room bytes),
        (fitting sink.room bytes).length,
        if exceeds sink.room bytes then some (.short bytes.length (fitting sink.room bytes).length)
        else none⟩ := by
  unfold Sink.write
  cases sink.room with
  | none => rfl
  | some n =>
    by_cases hfits : bytes.length ≤ n
    · have hexceeds : exceeds (some n) bytes = false := by simpa [exceeds] using hfits
      simp [hfits, hexceeds, fitting, roomAfter, List.take_of_length_le hfits]
    · have hexceeds : exceeds (some n) bytes = true := by simpa [exceeds] using hfits
      have hfull : n - bytes.length = 0 := by omega
      have hcut : min n bytes.length = n := by omega
      simp [hfits, hexceeds, fitting, roomAfter, hfull, hcut]

/-- What a latch over a new sink has done with the text that it was asked to write. -/
structure Latch.Took (room : Option Nat) (text : Bytes) (latch : Latch) : Prop where
  /-- it has stored the part that fits -/
  contents : latch.sink.contents = fitting room text
  /-- the rest of the room is left -/
  left : latch.sink.room = roomAfter room text
  /-- it has failed if the text does not fit -/
  fault : latch.fault.isSome = exceeds room text

/-- What a latch reports of a text that it was asked to write behind an earlier one. -/
structure Written.Took (room : Option Nat) (before text : Bytes) (w : Written Latch) : Prop where
  /-- the latch has taken both -/
  target : w.target.Took room (before ++ text)
  /-- the bytes that were stored are counted -/
  count : (fitting room before).length + w.count = (fitting room (before ++ text)).length
  /-- the failure that the latch keeps is reported -/
  fault : w.fault = w.target.fault

namespace Latch

variable {latch : Latch}

theorem took_new (room : Option Nat) : (Latch.new (.new room)).Took room [] :=
  ⟨(fitting_nil room).symm, by cases room <;> rfl, by cases room <;> rfl⟩

theorem Took.fault_eq_none_iff (h : latch.Took room text) :
    latch.fault = none ↔ exceeds room text = false := by
  rw [← h.fault]
  cases latch.fault <;> simp

/-- A latch that has failed goes on as if all that follows had been asked of it. -/
theorem Took.append_of_exceeds (h : latch.Took room text) (hexceeds : exceeds room text = true)
    (more : Bytes) :
    latch.Took room (text ++ more) := by
  refine ⟨?_, ?_, ?_⟩
  · rw [h.contents, fitting_append_of_exceeds hexceeds]
  · rw [h.left, roomAfter_append_of_exceeds hexceeds]
  · rw [h.fault, exceeds_append, hexceeds, Bool.true_or]

/-- One more write, whether all of it fits, a part, or nothing because of an earlier failure. -/
theorem Took.write (h : latch.Took room text) (bytes : Bytes) :
    (latch.write bytes).Took room text bytes := by
  cases hexceeds : exceeds room text with
  | true =>
    obtain ⟨fault, hfault⟩ := Option.isSome_iff_exists.mp (h.fault.trans hexceeds)
    have hskip : latch.write bytes = ⟨latch, 0, some fault⟩ := by simp only [Latch.write, hfault]
    rw [hskip]
    exact ⟨h.append_of_exceeds hexceeds bytes,
      by rw [fitting_append_of_exceeds hexceeds, Nat.add_zero], hfault.symm⟩
  | false =>
    have hfault := h.fault_eq_none_iff.mpr hexceeds
    have hwrite : latch.write bytes =
        ⟨⟨(latch.sink.write bytes).target, (latch.sink.write bytes).fault⟩,
          (latch.sink.write bytes).count, (latch.sink.write bytes).fault⟩ := by
      simp only [Latch.write, hfault]
    rw [hwrite, Sink.write_eq, h.left]
    refine ⟨⟨?_, ?_, ?_⟩, ?_, rfl⟩
    · rw [Sink.contents_store, h.contents, fitting_append]
    · rw [roomAfter_append]
      rfl
    · rw [exceeds_append, hexceeds, Bool.false_or]
      cases exceeds (roomAfter room text) bytes <;> rfl
    · rw [fitting_append, List.length_append]

/-! ## Runs of writes -/

theorem Took.start (h : latch.Took room text) :
    Written.Took room text [] ⟨latch, 0, latch.fault⟩ :=
  ⟨by rwa [List.append_nil], by rw [List.append_nil, Nat.add_zero], rfl⟩

end Latch

namespace Written.Took

variable {before more : Bytes} {w : Written Latch}

/-- A report of a text, and one of more text behind it, make a report of both with the counts
added. -/
theorem append {next : Written Latch} (h : w.Took room before text)
    (hnext : next.Took room (before ++ text) more) :
    Written.Took room before (text ++ more) ⟨next.target, w.count + next.count, next.fault⟩ := by
  refine ⟨?_, ?_, hnext.fault⟩
  · rw [← List.append_assoc]
    exact hnext.target
  · rw [← List.append_assoc, ← hnext.count, ← h.count, Nat.add_assoc]

/-- After a failure the report stands for any text that was still to come. -/
theorem append_of_fault (h : w.Took room before text) {fault : WriteFault}
    (hfault : w.fault = some fault) (more : Bytes) : w.Took room before (text ++ more) := by
  have hexceeds : exceeds room (before ++ text) = true := by
    rw [← h.target.fault, ← h.fault, hfault]
    rfl
  refine ⟨?_, ?_, h.fault⟩
  · rw [← List.append_assoc]
    exact h.target.append_of_exceeds hexceeds more
  · rw [h.count, ← List.append_assoc, fitting_append_of_exceeds hexceeds]

end Written.Took

namespace Latch

/-- Chunks that are written one by one are taken as one text. -/
theorem Took.writeAll {latch : Latch} (h : latch.Took room text) (chunks : List Bytes) :
    (latch.writeAll chunks).Took room text chunks.flatten := by
  -- the induction is on the chunks, from any report of what was written before them
  have hrun : ∀ (chunks : List Bytes) (done : Written Latch) (written : Bytes),
      done.Took room text written →
      Written.Took room text (written ++ chunks.flatten) (chunks.foldl (fun done chunk =>
        ⟨(done.target.write chunk).target, done.count + (done.target.write chunk).count,
          (done.target.write chunk).fault⟩) done) := by
    intro chunks
    induction chunks with
    | nil =>
      intro done written hdone
      rwa [List.flatten_nil, List.append_nil]
    | cons chunk rest ih =>
      intro done written hdone
      rw [List.foldl_cons, List.flatten_cons, ← List.append_assoc]
      exact ih _ _ (hdone.append (hdone.target.write chunk))
  exact hrun chunks _ [] h.start

/-- So are groups of chunks, though nothing is tried after a group that fails. -/
theorem Took.writeGroups (groups : List (List Bytes)) :
    ∀ {latch : Latch} {text : Bytes}, latch.Took room text →
    (latch.writeGroups groups).Took room text groups.flatten.flatten := by
  induction groups with
  | nil => exact fun h => h.start
  | cons group rest ih =>
    intro latch text h
    have hgroup := h.writeAll group
    rw [List.flatten_cons, List.flatten_append, Latch.writeGroups]
    cases hfault : (latch.writeAll group).fault with
    | some fault => simpa only [hfault] using hgroup.append_of_fault hfault _
    | none => simpa only [hfault] using hgroup.append (ih hgroup.target)

end Latch

/-! ## Outputs -/

/-- That a function writes a text, to a sink of any size. -/
structure Writes (write : Sink → Written Sink) (text : Bytes) : Prop where
  /-- without a limit the text is stored, and counted, and nothing fails -/
  unlimited : (write (.new none)).target.contents = text ∧ (write (.new none)).count = text.length ∧
    (write (.new none)).fault = none
  /-- a sink that takes some number of bytes holds that many of the text, or all of it -/
  contents : ∀ n, (write (.new (some n))).target.contents = text.take n
  /-- the bytes that it holds are counted -/
  count : ∀ n, (write (.new (some n))).count = (write (.new (some n))).target.contents.length
  /-- the write fails if the text is longer than that, and only then -/
  fault : ∀ n, (∃ fault, (write (.new (some n))).fault = some fault) ↔ n < text.length

/-- A function that writes through a latch of its own writes the text that the latch is asked to
take. -/
theorem Writes.of_took (run : Latch → Written Latch)
    (h : ∀ room, (run (.new (.new room))).Took room [] text) :
    Writes (fun sink =>
      ⟨(run (.new sink)).target.sink, (run (.new sink)).count, (run (.new sink)).fault⟩) text where
  unlimited := by
    have hrun := h none
    refine ⟨hrun.target.contents, ?_, hrun.fault.trans (hrun.target.fault_eq_none_iff.mpr rfl)⟩
    simpa [fitting] using hrun.count
  contents n := (h (some n)).target.contents
  count n := by
    have hrun := h (some n)
    rw [hrun.target.contents, ← hrun.count, fitting_nil, List.length_nil, Nat.zero_add]
  fault n := by
    rw [← Option.isSome_iff_exists, (h (some n)).fault, (h (some n)).target.fault]
    simp [exceeds]

theorem Writes.writeAll (chunks : List Bytes) : Writes (Sink.writeAll · chunks) chunks.flatten :=
  .of_took (Latch.writeAll · chunks) fun room => (Latch.took_new room).writeAll chunks

/-- Rows, each of them a group of chunks. -/
theorem Writes.writeGroups {α : Type} (rows : List α) (chunks : α → List Bytes) :
    Writes (Sink.writeGroups · (rows.map chunks)) (rows.flatMap chunks).flatten := by
  rw [List.flatMap_def]
  exact .of_took (Latch.writeGroups · (rows.map chunks)) fun room =>
    Latch.Took.writeGroups _ (Latch.took_new room)

theorem Assembly.writes_render (a : Assembly) (output : Output) :
    Writes (a.write output) (a.render output) := by
  cases output with
  | intermediate => exact Writes.writeGroups a.statements fun p => row p.columns
  | symbols => exact Writes.writeGroups a.symbols fun s => row s.columns
  | length => exact Writes.writeAll (a.chunks .length)
  | listing => exact Writes.writeGroups a.listing fun l => row l.columns
  | object => exact Writes.writeAll a.program.chunks

/-- Every output that is written to a sink of any size is cut off at that size and nowhere else: the
sink holds the first bytes of what it would hold without a limit, as many as it takes, the write
fails exactly if that is not all, and the bytes that are stored are counted. -/
theorem writes_outputs :
    (∀ (a : Assembly) (output : Output), Writes (a.write output) (a.render output)) ∧
    (∀ p : Object.Program, Writes p.write p.render) ∧
    ∀ (base : Address) (memory : Object.Memory),
      Writes (Object.writeDump base memory) (Object.dump base memory).flatten :=
  ⟨Assembly.writes_render, fun p => Writes.writeAll p.chunks, fun _ memory =>
    Writes.writeGroups (List.range (Object.dumpRows memory.size)) _⟩

end TwoPass
