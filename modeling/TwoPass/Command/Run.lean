import TwoPass.Assembler
import TwoPass.Command.FileTree
import TwoPass.Command.Invocation
import TwoPass.Object.Coverage
import TwoPass.Object.Dump
import TwoPass.Object.Reader

set_option autoImplicit false

/-!
# Running commands

A command works on any file store.  Nothing is put out before all that can fail has been done,
except that files written one after the other stay if a later one cannot be created.

What a screen shows besides the wording of complaints is left open: dumps, traces, the lines of the
log and the words that explain the commands.
-/

namespace TwoPass.Command

/-! ## Outcomes -/

/-- Why a command failed. -/
inductive Fault where
  /-- the arguments make no sense -/
  | usage (fault : UsageFault)
  /-- a file cannot be opened -/
  | cannotOpen (bad : BadPath)
  /-- an opcode table cannot be read -/
  | table (file : Bytes) (fault : ReadFault)
  /-- a source cannot be assembled -/
  | assembly (failure : Failure)
  /-- a directory cannot be made -/
  | cannotMake (bad : BadPath)
  /-- a file cannot be created -/
  | cannotCreate (bad : BadPath)
  /-- an object program cannot be read -/
  | load (file : Bytes) (fault : Object.LoadFault)
  /-- an object program has no image -/
  | image (file : Bytes) (fault : Object.ImageFault)
  deriving DecidableEq, Repr, Inhabited

/-- The wording of a command's fault. -/
def Fault.message : Fault → Bytes
  | .usage fault => fault.message
  | .cannotOpen bad => utf8 "open failed: " ++ bad.message "open"
  | .table file fault => file ++ utf8 ": " ++ Opcode.Table.readFailure fault
  | .assembly failure => failure.message
  | .cannotMake bad => utf8 "mkdir failed: " ++ bad.message "mkdir"
  | .cannotCreate bad => utf8 "create failed: " ++ bad.message "open"
  | .load file fault => file ++ utf8 ": " ++ fault.message
  | .image file fault => file ++ utf8 ": " ++ fault.message

/-- What a machine can show besides what a command puts out. -/
structure Screen where
  /-- the dump of a result -/
  assembly : Assembly → Bytes
  /-- the dump of an object program -/
  program : Object.Program → Bytes
  /-- a fault -/
  fault : Fault → Bytes
  /-- the lines of the log -/
  log : Bytes
  /-- the words about the program that arguments ask for -/
  words : List Bytes → Bytes

namespace Screen

/-- The screen that shows faults in their wording, and nothing else. -/
def plain : Screen := ⟨fun _ => [], fun _ => [], Fault.message, [], fun _ => []⟩

/-- The screen that shows no more than extras ask for. -/
def only (screen : Screen) (extras : Extras) : Screen where
  assembly := if extras.dump then screen.assembly else plain.assembly
  program := if extras.dump then screen.program else plain.program
  fault := if extras.traces then screen.fault else plain.fault
  log := if extras.log then screen.log else plain.log
  words := screen.words

/-- A fault on a line of its own. -/
def complaint (screen : Screen) (fault : Fault) : Bytes := screen.fault fault ++ [Ascii.newline]

end Screen

/-- What a command leaves besides files. -/
structure Outcome where
  /-- the exit status -/
  exit : Nat
  /-- what it prints -/
  stdout : Bytes
  /-- what it complains about -/
  stderr : Bytes
  deriving DecidableEq, Repr, Inhabited

namespace Outcome

/-- Success that prints something. -/
def printed (text : Bytes) : Outcome := ⟨0, text, []⟩

/-- Failure. -/
def failed (screen : Screen) (fault : Fault) : Outcome := ⟨1, [], screen.complaint fault⟩

/-- An outcome with something shown before its complaints. -/
def after (shown : Bytes) (outcome : Outcome) : Outcome :=
  { outcome with stderr := shown ++ outcome.stderr }

end Outcome

variable {m : Type → Type} [Monad m] [FileStore m] (screen : Screen)

/-! ## Assembling -/

/-- Assembles a file with the opcode table of another file.  The table is read first. -/
def assembleFile (source table : Bytes) (choices : List Choice) : m (Except Fault Assembly) := do
  match ← FileStore.openFile table with
  | .error bad => return .error (.cannotOpen bad)
  | .ok tableInput =>
    match Opcode.Table.read tableInput with
    | .error fault => return .error (.table table fault)
    | .ok opcodes =>
      match ← FileStore.openFile source with
      | .error bad => return .error (.cannotOpen bad)
      | .ok sourceInput =>
        return (assemble source sourceInput (some opcodes) choices).mapError .assembly

/-- All outputs one after the other, each under a heading. -/
def sections (assembly : Assembly) : Bytes :=
  Output.all.flatMap fun output =>
    utf8 "== " ++ output.name ++ utf8 " ==\n" ++ assembly.render output

/-- The file of an output in a directory. -/
def outputFile (directory : Bytes) (output : Output) : Bytes :=
  Path.join directory (output.name ++ utf8 ".txt")

/-- Writes outputs to files of a directory, up to the first one that cannot be created. -/
def writeOutputs (directory : Bytes) (assembly : Assembly) : List Output → m Outcome
  | [] => return .printed []
  | output :: rest => do
    match ← FileStore.createFile (outputFile directory output) (assembly.render output) with
    | .error bad => return .failed screen (.cannotCreate bad)
    | .ok () => writeOutputs directory assembly rest

/-- Makes a directory and writes all outputs to files in it. -/
def writeFiles (directory : Bytes) (assembly : Assembly) : m Outcome := do
  match ← FileStore.makeDirectories directory with
  | .error bad => return .failed screen (.cannotMake bad)
  | .ok () => writeOutputs screen directory assembly Output.all

/-- Puts out a result: printed, or into the files of a directory. -/
def publish (directory : Bytes) (assembly : Assembly) : m Outcome :=
  if directory.isEmpty then return .printed (sections assembly)
  else writeFiles screen directory assembly

/-- The command that assembles. -/
def runAssemble (source table directory : Bytes) (split : Int) (strict : Bool) : m Outcome := do
  match ← assembleFile source table [.textLimit split, .strict strict] with
  | .error fault => return (Outcome.failed screen fault).after screen.log
  | .ok assembly =>
    return (← publish screen directory assembly).after (screen.log ++ screen.assembly assembly)

/-! ## Loading -/

/-- The complaint about an object program whose code may be out of place. -/
def layoutWarning (file : Bytes) (program : Object.Program) : Bytes :=
  match program.misplaced? with
  | none => []
  | some left =>
    utf8 "warning: " ++ file ++ utf8 ": " ++ program.misplacedWarning left ++ [Ascii.newline]

/-- Puts out the image of an object program: as a dump, or into a file. -/
def putImage (file out : Bytes) (program : Object.Program) : m Outcome := do
  match program.image with
  | .error fault => return .failed screen (.image file fault)
  | .ok memory =>
    if out.isEmpty then return .printed (Object.dump program.header.start memory).flatten
    else
      match ← FileStore.createFile out memory.toList with
      | .error bad => return .failed screen (.cannotCreate bad)
      | .ok () => return .printed []

/-- The command that loads. -/
def runLoad (file out : Bytes) : m Outcome := do
  match ← FileStore.openFile file with
  | .error bad => return .failed screen (.cannotOpen bad)
  | .ok input =>
    match Object.Program.read input with
    | .error fault => return .failed screen (.load file fault)
    | .ok program =>
      return (← putImage screen file out program).after
        (screen.program program ++ screen.log ++ layoutWarning file program)

/-! ## The command line -/

/-- Runs what the arguments ask for, and shows what they ask for of what the screen can show. -/
def run (arguments : List Bytes) : m Outcome :=
  match Invocation.read arguments with
  | .error fault => return .failed .plain (.usage fault)
  | .ok .help => return .printed (screen.words arguments)
  | .ok (.assemble source table directory split strict extras) =>
    runAssemble (screen.only extras) source table directory split strict
  | .ok (.load object out extras) => runLoad (screen.only extras) object out

end TwoPass.Command
