import TwoPass.Input
import TwoPass.Numeral.Reader
import TwoPass.Object.Program
import TwoPass.Text.Blank
import TwoPass.Text.Quoted

set_option autoImplicit false

/-!
# Reading object programs

Lines are read in order.  Carriage returns at the end of a line and lines of white space are
ignored.  The first line must be a Header record and the last one an End record, with nothing but
Text records between them.
-/

namespace TwoPass.Object

/-! ## Faults -/

/-- The numbers in the fields of records. -/
inductive Field where
  /-- the start address of the program -/
  | startAddress
  /-- the length of the program -/
  | programLength
  /-- the address of a Text record -/
  | textAddress
  /-- the length of a Text record -/
  | textLength
  /-- the entry address -/
  | entryAddress
  deriving DecidableEq, Repr, Inhabited

/-- The name of a field. -/
def Field.name : Field → Bytes
  | .startAddress => utf8 "start address"
  | .programLength => utf8 "program length"
  | .textAddress => utf8 "text address"
  | .textLength => utf8 "text length"
  | .entryAddress => utf8 "entry address"

/-- What is wrong with a record. -/
inductive RecordFault where
  /-- it follows the End record -/
  | afterEnd
  /-- it is a second Header record -/
  | secondHeader
  /-- it is a Header record with this number of fields -/
  | headerFields (count : Nat)
  /-- it is a Text record without a Header record before it -/
  | textBeforeHeader
  /-- it is a Text record without object code -/
  | noCode
  /-- it is a Text record whose length is not that of its code -/
  | textLength (stated actual : Nat)
  /-- it is an End record without a Header record before it -/
  | endBeforeHeader
  /-- it is an End record with this number of fields -/
  | endFields (count : Nat)
  /-- a field of it is no hexadecimal number of 32 bits -/
  | badNumber (field : Field) (text : Bytes)
  /-- it is of no known type -/
  | unknownType (type : Bytes)
  deriving DecidableEq, Repr, Inhabited

/-- The wording of a record's fault. -/
def RecordFault.message : RecordFault → Bytes
  | .afterEnd => utf8 "record after End record"
  | .secondHeader => utf8 "duplicate Header record"
  | .headerFields count => utf8 "Header record has " ++ decimal count ++ utf8 " fields, expected 4"
  | .textBeforeHeader => utf8 "Text record before Header record"
  | .noCode => utf8 "Text record has no object code"
  | .textLength stated actual =>
    utf8 "Text record length is " ++ upperHex 1 stated ++ utf8 ", object code is " ++
      upperHex 1 actual
      ++ utf8 " bytes"
  | .endBeforeHeader => utf8 "End record before Header record"
  | .endFields count => utf8 "End record has " ++ decimal count ++ utf8 " fields, expected 2"
  | .badNumber field text => utf8 "invalid " ++ field.name ++ utf8 " " ++ quoted text
  | .unknownType type => utf8 "unknown record type " ++ quoted type

/-- Why a text is no object program. -/
inductive LoadFault where
  /-- the record on a line is at fault -/
  | record (line : Nat) (fault : RecordFault)
  /-- the text cannot be read to its end -/
  | unreadable (fault : ReadFault)
  /-- there is no Header record -/
  | noHeader
  /-- there is no End record -/
  | noEnd
  deriving DecidableEq, Repr, Inhabited

/-- The wording of a load fault. -/
def LoadFault.message : LoadFault → Bytes
  | .record line fault => utf8 "line " ++ decimal line ++ utf8 ": " ++ fault.message
  | .unreadable fault => utf8 "read failed: " ++ fault.message
  | .noHeader => utf8 "missing Header record"
  | .noEnd => utf8 "missing End record"

/-! ## Records -/

/-- Reads a number of a record. -/
def readNumber (field : Field) (text : Bytes) : Except RecordFault Address :=
  match Numeral.unsigned 16 (Numeral.maxOfBits 32) text with
  | .ok value => .ok (UInt32.ofNat value)
  | .error _ => .error (.badNumber field text)

/-- Reads the fields of a Header record. -/
def readHeader (fields : List Bytes) : Except RecordFault Header :=
  match fields with
  | [_, name, start, length] => do
    let start ← readNumber .startAddress start
    let length ← readNumber .programLength length
    return ⟨dropTrailing Ascii.space name, start, length⟩
  | _ => .error (.headerFields fields.length)

/-- Reads the fields of a Text record. -/
def readText (fields : List Bytes) : Except RecordFault Text :=
  match fields with
  | _ :: start :: size :: code :: codes => do
    let start ← readNumber .textAddress start
    let size ← readNumber .textLength size
    let text : Text := ⟨start, code :: codes⟩
    if size.toNat = text.size then return text else throw (.textLength size.toNat text.size)
  | _ => .error .noCode

/-- Reads the fields of an End record. -/
def readEnd (fields : List Bytes) : Except RecordFault Address :=
  match fields with
  | [_, entry] => readNumber .entryAddress entry
  | _ => .error (.endFields fields.length)

/-! ## Programs -/

/-- How much of a program has been read. -/
inductive Progress where
  /-- nothing -/
  | empty
  /-- the Header record and some Text records -/
  | begun (header : Header) (text : Array Text)
  /-- all of it -/
  | complete (program : Program)
  deriving DecidableEq, Repr, Inhabited

/-- Reads one more record. -/
def Progress.add (progress : Progress) (line : Bytes) : Except RecordFault Progress :=
  let fields := line.splitOn Ascii.circumflex
  let type := fields.headD []
  match progress with
  | .complete _ => .error .afterEnd
  | .empty =>
    if type == utf8 "H" then (readHeader fields).map (.begun · #[])
    else if type == utf8 "T" then .error .textBeforeHeader
    else if type == utf8 "E" then .error .endBeforeHeader
    else .error (.unknownType type)
  | .begun header text =>
    if type == utf8 "H" then .error .secondHeader
    else if type == utf8 "T" then
      (readText fields).map fun record => .begun header (text.push record)
    else if type == utf8 "E" then
      (readEnd fields).map fun entry => .complete ⟨header, text.toList, entry⟩
    else .error (.unknownType type)

/-- Reads one more line, given its number. -/
def Progress.addLine (progress : Progress) (numbered : Bytes × Nat) : Except LoadFault Progress :=
  let line := dropTrailing Ascii.carriageReturn numbered.1
  if isBlankText line then .ok progress
  else (progress.add line).mapError (.record numbered.2)

/-- The program, if all of it has been read. -/
def Progress.finish : Progress → Except LoadFault Program
  | .empty => .error .noHeader
  | .begun _ _ => .error .noEnd
  | .complete program => .ok program

/-- Reads an object program. -/
def Program.read (input : Input) : Except LoadFault Program :=
  let reading := input.read
  match (reading.lines.zipIdx 1).foldlM Progress.addLine .empty with
  | .error fault => .error fault
  | .ok progress =>
    match reading.fault with
    | some fault => .error (.unreadable fault)
    | none => progress.finish

end TwoPass.Object
