import TwoPass.Command.Path
import TwoPass.Input

set_option autoImplicit false

/-!
# File stores

What the commands need from a file system: telling files from directories, reading a file, making a
directory and creating a file.  Making a directory with those above it is the same for every store.
-/

namespace TwoPass

/-- Why a path could not be used. -/
inductive PathFault where
  /-- there is nothing there -/
  | missing
  /-- a file stands where a directory is needed -/
  | notDirectory
  /-- a directory stands where a file is needed -/
  | isDirectory
  /-- there is something there already -/
  | taken
  /-- a part of the path has too many bytes, or the whole path has -/
  | tooLong
  deriving DecidableEq, Repr, Inhabited

/-- The wording of a path's fault. -/
def PathFault.message : PathFault → Bytes
  | .missing => utf8 "no such file or directory"
  | .notDirectory => utf8 "not a directory"
  | .isDirectory => utf8 "is a directory"
  | .taken => utf8 "file exists"
  | .tooLong => utf8 "file name too long"

/-- A path and what is wrong with it. -/
structure BadPath where
  /-- the path -/
  path : Bytes
  /-- what is wrong with it -/
  fault : PathFault
  deriving DecidableEq, Repr, Inhabited

/-- The wording of a bad path, after what was tried with it. -/
def BadPath.message (bad : BadPath) (attempt : String) : Bytes :=
  utf8 attempt ++ Ascii.space :: bad.path ++ utf8 ": " ++ bad.fault.message

/-- What can be at a path. -/
inductive PathKind where
  /-- a file -/
  | file
  /-- a directory -/
  | directory
  deriving DecidableEq, Repr, Inhabited

/-- A place that holds files. -/
class FileStore (m : Type → Type) where
  /-- What is at a path. -/
  kind : Bytes → m (Except PathFault PathKind)
  /-- Opens a file for reading.  A directory can be opened, and fails to be read. -/
  openFile : Bytes → m (Except BadPath Input)
  /-- Makes a directory in one that is there. -/
  makeDirectory : Bytes → m (Except PathFault Unit)
  /-- Creates a file with some content, in place of an old one. -/
  createFile : Bytes → Bytes → m (Except BadPath Unit)

namespace FileStore

variable {m : Type → Type} [Monad m] [FileStore m]

/-- Makes a directory in one that is there.  Nothing is wrong if it is there already. -/
def ensureDirectory (path : Bytes) : m (Except BadPath Unit) := do
  match ← makeDirectory path with
  | .ok () => return .ok ()
  | .error fault =>
    match ← kind path with
    | .ok .directory => return .ok ()
    | _ => return .error ⟨path, fault⟩

/-- Makes the first of some directories, each of which is in the next one.  The first one that is
there ends the search. -/
def makeNested : List Bytes → m (Except BadPath Unit)
  | [] => return .ok ()
  | path :: above => do
    match ← kind path with
    | .ok .directory => return .ok ()
    | .ok .file => return .error ⟨path, .notDirectory⟩
    | .error _ =>
      match ← makeNested above with
      | .error bad => return .error bad
      | .ok () => ensureDirectory path

/-- Makes a directory and those above it, where they are missing. -/
def makeDirectories (path : Bytes) : m (Except BadPath Unit) := makeNested (Path.lineage path)

end FileStore

end TwoPass
