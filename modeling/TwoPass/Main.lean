import TwoPass.Command.Run

set_option autoImplicit false

/-!
# The program

The command line on the files of the machine.
-/

namespace TwoPass

/-- The file name of a path.  A path that is no text names no file. -/
def fileName? (path : Bytes) : Option String := String.fromUTF8? ⟨path.toArray⟩

/-- What an error of the machine says about a path.  The code of a file in place of a directory is
20, or its negative. -/
def pathFault : IO.Error → PathFault
  | .alreadyExists _ _ _ => .taken
  | .inappropriateType _ code _ => if code = 20 ∨ code = 0 - 20 then .notDirectory else .isDirectory
  | .invalidArgument _ _ _ => .tooLong
  | _ => .missing

/-- Does something with the file of a path. -/
def withFileName {α : Type} (path : Bytes) (act : String → IO α) : IO (Except PathFault α) := do
  match fileName? path with
  | none => return .error .missing
  | some name =>
    try return .ok (← act name)
    catch error => return .error (pathFault error)

/-- What is at a name. -/
def kindOfName (name : String) : IO PathKind := do
  let file ← IO.FS.realPath name
  let info ← file.metadata
  return if info.type == .dir then .directory else .file

/-- The files of the machine are a file store. -/
instance : FileStore IO where
  kind path := withFileName path kindOfName
  openFile path := do
    match ← withFileName path fun name => IO.FS.readBinFile name with
    | .ok content => return .ok (.ofBytes content.toList)
    | .error .isDirectory => return .ok ⟨[], some (.isDirectory path)⟩
    | .error fault => return .error ⟨path, fault⟩
  makeDirectory path := withFileName path fun name => IO.FS.createDir name
  createFile path content := do
    match ← withFileName path fun name => IO.FS.writeBinFile name ⟨content.toArray⟩ with
    | .ok () => return .ok ()
    | .error fault => return .error ⟨path, fault⟩

/-- The screen of the machine shows values as they are represented, has no traces and keeps no
log. -/
def machineScreen : Command.Screen where
  assembly a := utf8 (reprStr a) ++ [Ascii.newline]
  program p := utf8 (reprStr p) ++ [Ascii.newline]
  fault := Command.Fault.message
  log := []
  words _ := []

end TwoPass

/-- Runs the command line. -/
def main (arguments : List String) : IO UInt32 := do
  let outcome ← TwoPass.Command.run TwoPass.machineScreen (arguments.map TwoPass.utf8)
  (← IO.getStdout).write ⟨outcome.stdout.toArray⟩
  (← IO.getStderr).write ⟨outcome.stderr.toArray⟩
  return outcome.exit.toUInt32
