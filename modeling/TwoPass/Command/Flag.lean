import TwoPass.Command.FlagValue

set_option autoImplicit false

/-!
# Flags

An argument that starts with a hyphen is a flag.  A long flag has a name after two hyphens, and its
value after an equals sign or in the next argument.  Letters after one hyphen are short flags; the
first of them that takes a value takes the rest of the argument, or the next argument.  A toggle
takes no value unless an equals sign gives one.  Two hyphens alone end the flags.
-/

namespace TwoPass

/-! ## Flags -/

/-- A flag. -/
structure Flag where
  /-- the long name -/
  name : Bytes
  /-- the short name, if it has one -/
  letter : Option UInt8
  /-- what it takes -/
  type : FlagType
  deriving DecidableEq, Repr, Inhabited

namespace Flag

/-- Whether a flag can do without a value. -/
def isToggle (flag : Flag) : Bool := flag.type == .toggle || flag.type == .looseToggle

/-- How messages name a flag: by letter and name, or by name alone. -/
def display (flag : Flag) : Bytes :=
  match flag.letter with
  | some letter => Ascii.hyphen :: letter :: utf8 ", --" ++ flag.name
  | none => utf8 "--" ++ flag.name

/-- The flag with a name. -/
def named? (flags : List Flag) (name : Bytes) : Option Flag := flags.find? (·.name == name)

/-- The flag with a letter. -/
def lettered? (flags : List Flag) (letter : UInt8) : Option Flag :=
  flags.find? (·.letter == some letter)

end Flag

/-! ## Faults -/

/-- Why flags cannot be read. -/
inductive FlagFault where
  /-- an argument starts like a long flag and goes on with a hyphen or an equals sign -/
  | badForm (argument : Bytes)
  /-- no flag has this name -/
  | unknownName (name : Bytes)
  /-- no flag has this letter, the first of the rest of an argument -/
  | unknownLetter (letter : UInt8) (rest : Bytes)
  /-- a long flag lacks its value -/
  | noValue (argument : Bytes)
  /-- a short flag lacks its value -/
  | noLetterValue (letter : UInt8)
  /-- a value is not what the flag takes -/
  | badValue (flag : Flag) (text : Bytes) (fault : ValueFault)
  deriving DecidableEq, Repr, Inhabited

/-- The wording of a flag's fault. -/
def FlagFault.message : FlagFault → Bytes
  | .badForm argument => utf8 "bad flag syntax: " ++ argument
  | .unknownName name => utf8 "unknown flag: --" ++ name
  | .unknownLetter letter rest =>
    utf8 "unknown shorthand flag: " ++ quotedChar (charOfByte letter) ++ utf8 " in -" ++ rest
  | .noValue argument => utf8 "flag needs an argument: " ++ argument
  | .noLetterValue letter =>
    utf8 "flag needs an argument: " ++ quotedChar (charOfByte letter) ++ utf8 " in -" ++ [letter]
  | .badValue flag text fault =>
    utf8 "invalid argument " ++ quoted text ++ utf8 " for " ++ quoted flag.display ++ utf8 " flag: "
      ++ fault.message

/-! ## Reading arguments -/

/-- What an argument says. -/
inductive Argument where
  /-- it is no flag -/
  | operand
  /-- it ends the flags -/
  | endOfFlags
  /-- it gives values to flags -/
  | gives (values : List (Flag × Bytes))
  /-- it gives values to flags, and the next argument is the value of one more flag; the fault
  applies if there is no next argument -/
  | wants (values : List (Flag × Bytes)) (flag : Flag) (otherwise : FlagFault)
  deriving DecidableEq, Repr, Inhabited

namespace Argument

/-- The value of a toggle that is given none. -/
def yes : Bytes := utf8 "true"

/-- Reads the name and value of a long flag, without the hyphens. -/
def ofLong (flags : List Flag) (text : Bytes) : Except FlagFault Argument :=
  let argument := Ascii.hyphen :: Ascii.hyphen :: text
  let name := text.takeWhile (· != Ascii.equals)
  if text.head? == some Ascii.hyphen || text.head? == some Ascii.equals then
    .error (.badForm argument)
  else
    match Flag.named? flags name with
    | none => .error (.unknownName name)
    | some flag =>
      match text.dropWhile (· != Ascii.equals) with
      | _ :: value => .ok (.gives [(flag, value)])
      | [] =>
        if flag.isToggle then .ok (.gives [(flag, yes)])
        else .ok (.wants [] flag (.noValue argument))

/-- Reads the letters of short flags, after those read before, latest first.  Letters that start
with `test.` are passed over. -/
def ofLetters (flags : List Flag) : List (Flag × Bytes) → Bytes → Except FlagFault Argument
  | given, [] => .ok (.gives given.reverse)
  | given, letter :: rest =>
    if (utf8 "test.").isPrefixOf (letter :: rest) then .ok (.gives given.reverse)
    else
      match Flag.lettered? flags letter with
      | none => .error (.unknownLetter letter (letter :: rest))
      | some flag =>
        if rest.head? == some Ascii.equals && 1 < rest.length then
          .ok (.gives ((flag, rest.drop 1) :: given).reverse)
        else if flag.isToggle then ofLetters flags ((flag, yes) :: given) rest
        else if rest.isEmpty then .ok (.wants given.reverse flag (.noLetterValue letter))
        else .ok (.gives ((flag, rest) :: given).reverse)

/-- Reads an argument. -/
def read (flags : List Flag) (argument : Bytes) : Except FlagFault Argument :=
  match argument with
  | first :: second :: rest =>
    if first != Ascii.hyphen then .ok .operand
    else if second != Ascii.hyphen then ofLetters flags [] (second :: rest)
    else if rest.isEmpty then .ok .endOfFlags
    else ofLong flags rest
  | _ => .ok .operand

end Argument

/-- What a command is given. -/
structure Given where
  /-- the values of flags, latest first -/
  values : List (Bytes × FlagValue)
  /-- the arguments that are no flags, latest first -/
  operands : List Bytes
  deriving DecidableEq, Repr, Inhabited

namespace Given

/-- Nothing. -/
def nothing : Given := ⟨[], []⟩

/-- Gives a flag a value. -/
def set (given : Given) (assignment : Flag × Bytes) : Except FlagFault Given :=
  match FlagValue.read assignment.1.type assignment.2 with
  | .error fault => .error (.badValue assignment.1 assignment.2 fault)
  | .ok value => .ok { given with values := (assignment.1.name, value) :: given.values }

/-- Reads arguments, after what was given before. -/
def readFrom (flags : List Flag) : Given → List Bytes → Except FlagFault Given
  | given, [] => .ok given
  | given, argument :: rest =>
    match Argument.read flags argument with
    | .error fault => .error fault
    | .ok .operand => readFrom flags { given with operands := argument :: given.operands } rest
    | .ok .endOfFlags => .ok { given with operands := rest.reverse ++ given.operands }
    | .ok (.gives values) =>
      match values.foldlM set given with
      | .error fault => .error fault
      | .ok next => readFrom flags next rest
    | .ok (.wants values flag otherwise) =>
      match values.foldlM set given with
      | .error fault => .error fault
      | .ok next =>
        match rest with
        | [] => .error otherwise
        | value :: more =>
          match next.set (flag, value) with
          | .error fault => .error fault
          | .ok set => readFrom flags set more

/-- Reads all arguments of a command. -/
def read (flags : List Flag) (arguments : List Bytes) : Except FlagFault Given :=
  readFrom flags nothing arguments

/-- The text given to a flag, empty if there is none. -/
def text (given : Given) (name : Bytes) : Bytes :=
  match given.values.lookup name with
  | some (.text value) => value
  | _ => []

/-- The number given to a flag, zero if there is none. -/
def number (given : Given) (name : Bytes) : Int :=
  match given.values.lookup name with
  | some (.number value) => value
  | _ => 0

/-- Whether a toggle is on. -/
def isOn (given : Given) (name : Bytes) : Bool := given.values.lookup name == some (.toggle true)

end Given

end TwoPass
