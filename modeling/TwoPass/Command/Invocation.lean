import TwoPass.Command.Flag
import TwoPass.Text.LowerCase

set_option autoImplicit false

/-!
# Invocations

The first argument that is neither a flag nor the value of one names the command; what is left is
for the command.  Before the command is known, a flag is taken to have a value in the next argument,
unless it holds an equals sign or is a toggle that every command knows.
-/

namespace TwoPass

/-! ## The flags -/

/-- The flags that every command knows.  They say what else is shown on the screen, and most of them
are about the log. -/
def sharedFlags : List Flag :=
  [⟨utf8 "debug", none, .toggle⟩, ⟨utf8 "v", some 0x76, .level⟩,
    ⟨utf8 "vmodule", none, .fileLevels⟩, ⟨utf8 "logtostderr", none, .looseToggle⟩,
    ⟨utf8 "alsologtostderr", none, .looseToggle⟩, ⟨utf8 "stderrthreshold", none, .severity⟩,
    ⟨utf8 "log_backtrace_at", none, .fileLines⟩, ⟨utf8 "log_dir", none, .text⟩,
    ⟨utf8 "log_link", none, .text⟩, ⟨utf8 "logbuflevel", none, .looseNumber⟩]

/-- The flag that asks for help. -/
def helpFlag : Flag := ⟨utf8 "help", some 0x68, .toggle⟩

/-- The flags of a command that has none of its own. -/
def plainFlags : List Flag := helpFlag :: sharedFlags

/-- The flags of the commands that write completion scripts. -/
def scriptFlags : List Flag := ⟨utf8 "no-descriptions", none, .toggle⟩ :: plainFlags

/-- The flags of the command that assembles. -/
def assembleFlags : List Flag :=
  [⟨utf8 "dir", some 0x64, .text⟩, ⟨utf8 "split", none, .number⟩, ⟨utf8 "strict", none, .toggle⟩,
    ⟨utf8 "dump", none, .toggle⟩] ++ plainFlags

/-- The flags of the command that loads. -/
def loadFlags : List Flag :=
  [⟨utf8 "out", some 0x6F, .text⟩, ⟨utf8 "dump", none, .toggle⟩] ++ plainFlags

/-! ## Finding the command -/

/-- The commands by name. -/
inductive CommandName where
  /-- assembles a source -/
  | assemble
  /-- loads an object program -/
  | load
  /-- explains the commands -/
  | help
  /-- writes completion scripts -/
  | completion
  /-- answers the requests of a completion script -/
  | completionRequest
  deriving DecidableEq, Repr, Inhabited

/-- The command of a name. -/
def CommandName.ofText? (text : Bytes) : Option CommandName :=
  if text = utf8 "asm" then some .assemble
  else if text = utf8 "load" then some .load
  else if text = utf8 "help" then some .help
  else if text = utf8 "completion" then some .completion
  else if text = utf8 "__complete" || text = utf8 "__completeNoDesc" then some .completionRequest
  else none

/-- The shells that have completion scripts. -/
def shells : List Bytes := [utf8 "bash", utf8 "zsh", utf8 "fish", utf8 "powershell"]

/-- Whether an argument is a flag that seems to have its value in the next one. -/
def takesNext (argument : Bytes) : Bool :=
  match argument with
  | first :: second :: rest =>
    first == Ascii.hyphen && !argument.contains Ascii.equals &&
      if second == Ascii.hyphen then !((Flag.named? sharedFlags rest).any Flag.isToggle)
      else rest.isEmpty && !((Flag.lettered? sharedFlags second).any Flag.isToggle)
  | _ => false

/-- Two hyphens, which end the flags. -/
def endOfFlags : Bytes := [Ascii.hyphen, Ascii.hyphen]

/-- The arguments that are neither flags nor values of flags, `pending` telling whether the first
one is a value.  A flag that seems to have a value with at most one argument behind it ends the
search. -/
def plainArguments : (pending : Bool) → List Bytes → List Bytes
  | _, [] => []
  | true, _ :: rest => plainArguments false rest
  | false, argument :: rest =>
    if argument = endOfFlags then []
    else if takesNext argument then if rest.length ≤ 1 then [] else plainArguments true rest
    else if argument.isEmpty || argument.head? == some Ascii.hyphen then plainArguments false rest
    else argument :: plainArguments false rest

/-- The arguments without the first plain one that equals a given text. -/
def withoutPlain (text : Bytes) : (pending : Bool) → List Bytes → List Bytes
  | _, [] => []
  | true, value :: rest => value :: withoutPlain text false rest
  | false, argument :: rest =>
    if argument = endOfFlags then argument :: rest
    else if takesNext argument then argument :: withoutPlain text true rest
    else if argument = text then rest
    else argument :: withoutPlain text false rest

/-! ## Suggestions -/

/-- One row of the table of edit distances from the row before it: the distances of a longer text to
each beginning of the target.  `corner` is the entry before the row's rest, `left` the entry just
made. -/
def editRow (b : UInt8) : (corner left : Nat) → Bytes → List Nat → List Nat
  | corner, left, t :: target, up :: row =>
    let entry := if b = t then corner else min up (min left corner) + 1
    entry :: editRow b up entry target row
  | _, _, _, _ => []

/-- The number of bytes to insert, delete or replace to turn one text into another. -/
def editDistance (text target : Bytes) : Nat :=
  let first := List.range (target.length + 1)
  let last := text.foldl
    (fun row b =>
      match row with
      | corner :: rest => (corner + 1) :: editRow b corner (corner + 1) target rest
      | [] => [])
    first
  last.getLastD 0

/-- The commands that a wrong name may have been meant for: those at most two edits away from it in
lower case, and those it begins. -/
def suggestions (text : Bytes) : List Bytes :=
  [utf8 "asm", utf8 "load", utf8 "completion"].filter fun name =>
    editDistance (lowerCase text) name ≤ 2 || (lowerCase text).isPrefixOf name

/-! ## Invocations -/

/-- Why arguments make no invocation. -/
inductive UsageFault where
  /-- no command has this name -/
  | unknownCommand (name : Bytes)
  /-- the command that writes a completion script for a shell takes no operand -/
  | scriptOperand (operand shell : Bytes)
  /-- the flags cannot be read -/
  | flags (fault : FlagFault)
  /-- the number of operands is not what the command takes -/
  | operands (expected received : Nat)
  /-- a request for completions says nothing -/
  | emptyRequest
  deriving DecidableEq, Repr, Inhabited

/-- The wording of a usage fault. -/
def UsageFault.message : UsageFault → Bytes
  | .unknownCommand name =>
    let hints := suggestions name
    utf8 "unknown command " ++ quoted name ++ utf8 " for \"sicasm\""
      ++ if hints.isEmpty then []
         else utf8 "\n\nDid you mean this?\n" ++
           hints.flatMap fun hint => utf8 "\t" ++ hint ++ utf8 "\n"
  | .scriptOperand operand shell =>
    utf8 "unknown command " ++ quoted operand ++ utf8 " for " ++
      quoted (utf8 "sicasm completion " ++ shell)
  | .flags fault => fault.message
  | .operands expected received =>
    utf8 "accepts " ++ decimal expected ++ utf8 " arg(s), received " ++ decimal received
  | .emptyRequest => utf8 "requires at least 1 arg(s), only received 0"

/-- What a command is asked to show on the screen besides its complaints. -/
structure Extras where
  /-- what it has made of its input -/
  dump : Bool
  /-- the traces of faults -/
  traces : Bool
  /-- the lines of its log -/
  log : Bool
  deriving DecidableEq, Repr, Inhabited

/-- What a user asks for. -/
inductive Invocation where
  /-- words about the program: help, or what a shell needs to complete its command lines -/
  | help
  /-- to assemble a source with a table, into files of a directory if its name is not empty -/
  | assemble (source table directory : Bytes) (split : Int) (strict : Bool) (extras : Extras)
  /-- to load an object program, into a file if its name is not empty -/
  | load (object out : Bytes) (extras : Extras)
  deriving DecidableEq, Repr, Inhabited

namespace Invocation

/-- Reads the arguments of a command: its flags, then its operands. -/
def readCommand (flags : List Flag) (expected : Nat) (make : Given → List Bytes → Invocation)
    (arguments : List Bytes) : Except UsageFault Invocation :=
  match Given.read flags arguments with
  | .error fault => .error (.flags fault)
  | .ok given =>
    if given.isOn helpFlag.name then .ok .help
    else if given.operands.length = expected then .ok (make given given.operands.reverse)
    else .error (.operands expected given.operands.length)

/-- The extras that are given.  Without a flag that sends it to the screen, the log stays in its
files. -/
def extrasGiven (given : Given) : Extras where
  dump := given.isOn (utf8 "dump")
  traces := given.isOn (utf8 "debug")
  log := given.isOn (utf8 "logtostderr") || given.isOn (utf8 "alsologtostderr")
    || (given.values.lookup (utf8 "stderrthreshold")).isSome

/-- To assemble what is given. -/
def assembleGiven (given : Given) (operands : List Bytes) : Invocation :=
  .assemble ((operands[0]?).getD []) ((operands[1]?).getD []) (given.text (utf8 "dir"))
    (given.number (utf8 "split")) (given.isOn (utf8 "strict")) (extrasGiven given)

/-- To load what is given. -/
def loadGiven (given : Given) (operands : List Bytes) : Invocation :=
  .load ((operands[0]?).getD []) (given.text (utf8 "out")) (extrasGiven given)

/-- Reads the arguments of a command that only explains: its flags have to be right. -/
def readHelp (arguments : List Bytes) : Except UsageFault Invocation :=
  match Given.read plainFlags arguments with
  | .error fault => .error (.flags fault)
  | .ok _ => .ok .help

/-- Reads the arguments of the command that writes the completion script for a shell. -/
def readScript (shell : Bytes) (arguments : List Bytes) : Except UsageFault Invocation :=
  match Given.read scriptFlags arguments with
  | .error fault => .error (.flags fault)
  | .ok given =>
    if given.isOn helpFlag.name then .ok .help
    else
      match given.operands.getLast? with
      | some operand => .error (.scriptOperand operand shell)
      | none => .ok .help

/-- Reads the arguments of the command for completion scripts, of which the first plain one may name
a shell. -/
def readCompletion (arguments : List Bytes) : Except UsageFault Invocation :=
  match (plainArguments false arguments).head? with
  | none => readHelp arguments
  | some shell =>
    if shells.contains shell then readScript shell (withoutPlain shell false arguments)
    else readHelp arguments

/-- Reads the arguments of an invocation. -/
def read (arguments : List Bytes) : Except UsageFault Invocation :=
  match (plainArguments false arguments).head? with
  | none => readHelp arguments
  | some name =>
    let rest := withoutPlain name false arguments
    match CommandName.ofText? name with
    | none => .error (.unknownCommand name)
    | some .assemble => readCommand assembleFlags 2 assembleGiven rest
    | some .load => readCommand loadFlags 1 loadGiven rest
    | some .help => readHelp rest
    | some .completion => readCompletion rest
    | some .completionRequest => if rest.isEmpty then .error .emptyRequest else .ok .help

end Invocation

end TwoPass
