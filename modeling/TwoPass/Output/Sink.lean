import TwoPass.Text.Bytes

set_option autoImplicit false

/-!
# Sinks

A sink takes what is written to it.  It may have limited room: a write that is longer than the room
left stores what fits, uses up the room and fails.  An empty write always succeeds.
-/

namespace TwoPass

/-- Why a write failed. -/
inductive WriteFault where
  /-- there was not room for all of the bytes that were asked to be taken -/
  | short (asked taken : Nat)
  deriving DecidableEq, Repr, Inhabited

/-- The wording of a write fault. -/
def WriteFault.message : WriteFault → Bytes
  | .short _ _ => utf8 "write failed: short write"

/-- A sink. -/
structure Sink where
  /-- what it has taken -/
  stored : Array UInt8
  /-- the room left, if there is a limit -/
  room : Option Nat
  deriving DecidableEq, Repr, Inhabited

/-- What a write has done. -/
structure Written (α : Type) where
  /-- what was written to, after the write -/
  target : α
  /-- how many bytes were stored -/
  count : Nat
  /-- why not all of them, if so -/
  fault : Option WriteFault
  deriving DecidableEq, Repr, Inhabited

namespace Sink

/-- A sink that holds nothing yet. -/
def new (room : Option Nat) : Sink := ⟨#[], room⟩

/-- What a sink has taken. -/
def contents (sink : Sink) : Bytes := sink.stored.toList

/-- Stores bytes, whatever the room. -/
def store (sink : Sink) (bytes : Bytes) (room : Option Nat) : Sink :=
  ⟨bytes.foldl Array.push sink.stored, room⟩

/-- What is stored goes behind what the sink has taken. -/
@[simp] theorem contents_store (sink : Sink) (bytes : Bytes) (room : Option Nat) :
    (sink.store bytes room).contents = sink.contents ++ bytes := by
  simp [store, contents]

/-- Writes bytes. -/
def write (sink : Sink) (bytes : Bytes) : Written Sink :=
  match sink.room with
  | none => ⟨sink.store bytes none, bytes.length, none⟩
  | some room =>
    if bytes.length ≤ room then ⟨sink.store bytes (some (room - bytes.length)), bytes.length, none⟩
    else ⟨sink.store (bytes.take room) (some 0), room, some (.short bytes.length room)⟩

/-- Adds room.  A sink without a limit stays so. -/
def grow (sink : Sink) (extra : Nat) : Sink := { sink with room := sink.room.map (· + extra) }

end Sink

end TwoPass
