import TwoPass.Output.Sink

set_option autoImplicit false

/-!
# Latches

A latch writes to a sink until a write fails.  From then on it writes nothing and keeps reporting
that first failure, even if the sink gets room again, so what the sink holds never has a hole.
-/

namespace TwoPass

/-- A sink behind a latch. -/
structure Latch where
  /-- the sink -/
  sink : Sink
  /-- the first failure, if there was one -/
  fault : Option WriteFault
  deriving DecidableEq, Repr, Inhabited

namespace Latch

/-- A latch that has seen no failure. -/
def new (sink : Sink) : Latch := ⟨sink, none⟩

/-- Writes bytes, unless a write has failed before. -/
def write (latch : Latch) (bytes : Bytes) : Written Latch :=
  match latch.fault with
  | some fault => ⟨latch, 0, some fault⟩
  | none =>
    let written := latch.sink.write bytes
    ⟨⟨written.target, written.fault⟩, written.count, written.fault⟩

/-- Writes one chunk after the other, and counts the bytes stored in all. -/
def writeAll (latch : Latch) (chunks : List Bytes) : Written Latch :=
  chunks.foldl
    (fun done chunk =>
      let written := done.target.write chunk
      ⟨written.target, done.count + written.count, written.fault⟩)
    ⟨latch, 0, latch.fault⟩

/-- Writes groups of chunks one after the other, and counts the bytes stored in all.  A group that
fails is the last one that is tried. -/
def writeGroups (latch : Latch) : List (List Bytes) → Written Latch
  | [] => ⟨latch, 0, latch.fault⟩
  | group :: rest =>
    let written := latch.writeAll group
    match written.fault with
    | some _ => written
    | none =>
      let after := written.target.writeGroups rest
      ⟨after.target, written.count + after.count, after.fault⟩

/-- Adds room to the sink. -/
def grow (latch : Latch) (extra : Nat) : Latch := { latch with sink := latch.sink.grow extra }

end Latch

/-- Writes chunks to a sink through a latch of their own. -/
def Sink.writeAll (sink : Sink) (chunks : List Bytes) : Written Sink :=
  let written := (Latch.new sink).writeAll chunks
  ⟨written.target.sink, written.count, written.fault⟩

/-- Writes groups of chunks to a sink through a latch of their own, up to the first group that
fails. -/
def Sink.writeGroups (sink : Sink) (groups : List (List Bytes)) : Written Sink :=
  let written := (Latch.new sink).writeGroups groups
  ⟨written.target.sink, written.count, written.fault⟩

/-! ## Rows -/

/-- A row as it is written: its fields divided by tabs, and a line end. -/
def row (fields : List Bytes) : List Bytes := fields.intersperse [Ascii.tab] ++ [[Ascii.newline]]

end TwoPass
