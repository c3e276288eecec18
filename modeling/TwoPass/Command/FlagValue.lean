import TwoPass.Numeral.Printed
import TwoPass.Numeral.Reader
import TwoPass.Text.Piece
import TwoPass.Text.Quoted

set_option autoImplicit false

/-!
# Values of flags

The text given to a flag is read by the type of the flag.  What is wrong with it is a cause of its
own, and types that read the same text alike may still word a fault differently.
-/

namespace TwoPass

/-! ## Types and faults -/

/-- What kind of value a flag takes. -/
inductive FlagType where
  /-- any text -/
  | text
  /-- a number whose base a prefix may name -/
  | number
  /-- a number whose base a prefix may name, with a shorter complaint -/
  | looseNumber
  /-- a decimal number -/
  | level
  /-- yes or no -/
  | toggle
  /-- yes or no, with a shorter complaint -/
  | looseToggle
  /-- how severe a message is -/
  | severity
  /-- levels of source files, divided by commas -/
  | fileLevels
  /-- lines of source files, divided by commas -/
  | fileLines
  deriving DecidableEq, Repr, Inhabited

/-- The value of a flag. -/
inductive FlagValue where
  /-- any text -/
  | text (value : Bytes)
  /-- a number -/
  | number (value : Int)
  /-- yes or no -/
  | toggle (on : Bool)
  deriving DecidableEq, Repr, Inhabited

/-- Why the text of a value is no such value. -/
inductive ValueFault where
  /-- the numeral of a number is at fault -/
  | number (fault : NumeralFault) (text : Bytes)
  /-- the numeral of a number is at fault, said shortly -/
  | looseNumber (fault : NumeralFault)
  /-- the numeral of a level is at fault -/
  | level (fault : NumeralFault) (text : Bytes)
  /-- it is neither yes nor no -/
  | toggle (text : Bytes)
  /-- it is neither yes nor no, said shortly -/
  | unclear
  /-- no severity has this number -/
  | severity (value : Int)
  /-- it is no list of files and levels -/
  | fileLevels
  /-- it is no list of files and lines -/
  | fileLines
  /-- a line has a number below zero -/
  | negativeLine
  deriving DecidableEq, Repr, Inhabited

/-- The wording of a numeral's fault. -/
def NumeralFault.message : NumeralFault → Bytes
  | .malformed => utf8 "invalid syntax"
  | .outOfRange => utf8 "value out of range"

/-- The short wording of a numeral's fault. -/
def NumeralFault.shortMessage : NumeralFault → Bytes
  | .malformed => utf8 "parse error"
  | .outOfRange => utf8 "value out of range"

/-- The wording of a value's fault. -/
def ValueFault.message : ValueFault → Bytes
  | .number fault text =>
    utf8 "strconv.ParseInt: parsing " ++ quoted text ++ utf8 ": " ++ fault.message
  | .looseNumber fault => fault.shortMessage
  | .level fault text => utf8 "strconv.Atoi: parsing " ++ quoted text ++ utf8 ": " ++ fault.message
  | .toggle text => utf8 "strconv.ParseBool: parsing " ++ quoted text ++ utf8 ": invalid syntax"
  | .unclear => utf8 "parse error"
  | .severity value =>
    utf8 "Severity " ++ signedDecimal value ++ utf8 " out of range (min 0, max 3)."
  | .fileLevels => utf8 "syntax error: expect comma-separated list of filename=N"
  | .fileLines => utf8 "syntax error: expect file.go:234"
  | .negativeLine => utf8 "negative value for line"

/-! ## Reading -/

namespace FlagValue

/-- Yes or no. -/
def readToggle? (text : Bytes) : Option Bool :=
  if [utf8 "1", utf8 "t", utf8 "T", utf8 "TRUE", utf8 "true", utf8 "True"].contains text then
    some true
  else if
      [utf8 "0", utf8 "f", utf8 "F", utf8 "FALSE", utf8 "false", utf8 "False"].contains text then
    some false
  else none

/-- A decimal number of 64 bits. -/
def readDecimal (text : Bytes) : Except NumeralFault Int := (Numeral.signed text).map Int64.toInt

/-! ### Severities -/

/-- The names of the severities. -/
def severityNames : List Bytes := [utf8 "INFO", utf8 "WARNING", utf8 "ERROR", utf8 "FATAL"]

/-- The number of severities. -/
def severityCount : Int := 4

/-- A piece in upper case, as far as the letters of ASCII go.  The dotless i is an i in lower
case. -/
def upperCase : Piece → Bytes
  | .char c spelling =>
    if c = Char.ofNat 0x131 then utf8 "I"
    else if c.toNat < 0x80 then String.utf8EncodeChar c.toUpper else spelling
  | .stray b => [b]

/-- A severity, by its name in either case or by its number, of which the lowest eight bits
count. -/
def readSeverity (text : Bytes) : Except ValueFault FlagValue :=
  if severityNames.contains ((pieces text).flatMap upperCase) then .ok (.text text)
  else
    match readDecimal text with
    | .error fault => .error (.level fault text)
    | .ok value =>
      if value % 256 < severityCount then .ok (.number value) else .error (.severity value)

/-! ### Lists about source files -/

/-- The comma. -/
def comma : UInt8 := 0x2C

/-- The colon. -/
def colon : UInt8 := 0x3A

/-- The items of a list that commas divide.  Empty ones count for nothing. -/
def items (text : Bytes) : List Bytes := (text.splitOn comma).filter (!·.isEmpty)

/-- Whether an item gives a file a level. -/
def isFileLevel (item : Bytes) : Bool :=
  match item.splitOn Ascii.equals with
  | [file, level] => !file.isEmpty && (readDecimal level).isOk
  | _ => false

/-- What is wrong with an item that has to name a line of a file with a full stop in its name. -/
def fileLineFault? (item : Bytes) : Option ValueFault :=
  match item.splitOn colon with
  | [file, line] =>
    if !file.contains Ascii.dot then some .fileLines
    else
      match readDecimal line with
      | .error _ => some .fileLines
      | .ok value => if value < 0 then some .negativeLine else none
  | _ => some .fileLines

/-! ### All types -/

/-- Reads a value of a type. -/
def read (type : FlagType) (text : Bytes) : Except ValueFault FlagValue :=
  match type with
  | .text => .ok (.text text)
  | .number => ((Numeral.signedPrefixed text).map (.number ·.toInt)).mapError (.number · text)
  | .looseNumber => ((Numeral.signedPrefixed text).map (.number ·.toInt)).mapError .looseNumber
  | .level => ((readDecimal text).map .number).mapError (.level · text)
  | .toggle =>
    match readToggle? text with
    | some on => .ok (.toggle on)
    | none => .error (.toggle text)
  | .looseToggle =>
    match readToggle? text with
    | some on => .ok (.toggle on)
    | none => .error .unclear
  | .severity => readSeverity text
  | .fileLevels => if (items text).all isFileLevel then .ok (.text text) else .error .fileLevels
  | .fileLines =>
    match (items text).findSome? fileLineFault? with
    | some fault => .error fault
    | none => .ok (.text text)

end FlagValue

end TwoPass
