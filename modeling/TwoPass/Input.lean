import TwoPass.Text.Bytes

set_option autoImplicit false

/-!
# Reading lines

An input is read line by line.  Reading delivers lines up to the first one that is too long, or up
to the end of the input, where a fault of the medium may show.  The lines before a fault are
delivered all the same: what is wrong with one of them is reported first.
-/

namespace TwoPass

/-- Why reading stopped before the end. -/
inductive ReadFault where
  /-- a line does not fit the line buffer -/
  | lineTooLong
  /-- the input broke off -/
  | brokenOff
  /-- the input is a directory -/
  | isDirectory (name : Bytes)
  deriving DecidableEq, Repr, Inhabited

/-- The wording of a read fault. -/
def ReadFault.message : ReadFault → Bytes
  | .lineTooLong => utf8 "bufio.Scanner: token too long"
  | .brokenOff => utf8 "unexpected EOF"
  | .isDirectory name => utf8 "read " ++ name ++ utf8 ": is a directory"

/-- The text of an input, and the fault that ends it, if any. -/
structure Input where
  /-- what can be read -/
  text : Bytes
  /-- what happens after it -/
  fault : Option ReadFault
  deriving DecidableEq, Repr, Inhabited

/-- An input that ends without a fault. -/
def Input.ofBytes (text : Bytes) : Input := ⟨text, none⟩

/-- What reading an input line by line delivers. -/
structure Reading where
  /-- the lines, without their ends -/
  lines : List Bytes
  /-- the fault after them, if any -/
  fault : Option ReadFault
  deriving DecidableEq, Repr, Inhabited

/-- The least length of a line that does not fit the line buffer.  A carriage return at its end
counts. -/
def lineLimit : Nat := 65536

/-- A text cut at its line feeds.  What follows the last one is a line only if it is not empty. -/
def rawLines (text : Bytes) : List Bytes :=
  let segments := text.splitOn Ascii.newline
  if segments.getLast? == some [] then segments.dropLast else segments

/-- A line without one carriage return at its end. -/
def dropReturn (line : Bytes) : Bytes :=
  if line.getLast? == some Ascii.carriageReturn then line.dropLast else line

/-- Whether a line fits the line buffer. -/
def fitsBuffer (line : Bytes) : Bool := line.length < lineLimit

/-- Reads an input line by line. -/
def Input.read (input : Input) : Reading :=
  let raw := rawLines input.text
  { lines := (raw.takeWhile fitsBuffer).map dropReturn
    fault := if raw.all fitsBuffer then input.fault else some .lineTooLong }

end TwoPass
