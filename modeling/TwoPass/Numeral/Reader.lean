import TwoPass.Text.Bytes

set_option autoImplicit false

/-!
# Reading numbers

A numeral is read from left to right.  The first thing wrong with it decides the fault: a byte that
is no digit makes it malformed, a value that passes the limit puts it out of range, even if a bad
byte follows.
-/

namespace TwoPass

/-- Why a numeral could not be read. -/
inductive NumeralFault where
  /-- there is no digit, or a byte that is no digit -/
  | malformed
  /-- the value passes a limit -/
  | outOfRange
  deriving DecidableEq, Repr, Inhabited

namespace Numeral

/-- The value of a digit: decimal digits, then the letters of either case from ten on. -/
def digit? (b : UInt8) : Option Nat :=
  if 0x30 ≤ b && b ≤ 0x39 then some (b.toNat - 0x30)
  else if 0x41 ≤ b && b ≤ 0x5A then some (b.toNat - 0x41 + 10)
  else if 0x61 ≤ b && b ≤ 0x7A then some (b.toNat - 0x61 + 10)
  else none

/-- Whether a byte is a hexadecimal digit. -/
def isHexDigit (b : UInt8) : Bool := (digit? b).any (· < 16)

/-- Reads one more digit behind the value read so far. -/
def push (base limit value : Nat) (b : UInt8) : Except NumeralFault Nat :=
  match digit? b with
  | none => .error .malformed
  | some d =>
    if base ≤ d then .error .malformed
    else if limit < value * base + d then .error .outOfRange
    else .ok (value * base + d)

/-- Reads digits to a base, none for zero, with values up to a limit. -/
def digits (base limit : Nat) (text : Bytes) : Except NumeralFault Nat :=
  text.foldlM (push base limit) 0

/-- Reads an unsigned numeral: one digit at least, and a value up to a limit. -/
def unsigned (base limit : Nat) (text : Bytes) : Except NumeralFault Nat :=
  if text.isEmpty then .error .malformed else digits base limit text

/-- The largest value of `bits` bits. -/
def maxOfBits (bits : Nat) : Nat := (1 <<< bits) - 1

/-- Splits a numeral into its sign, `true` for minus, and the rest.  One sign at most is taken. -/
def splitSign : Bytes → Bool × Bytes
  | [] => (false, [])
  | b :: rest =>
    if b == 0x2B then (false, rest)
    else if b == Ascii.hyphen then (true, rest)
    else (false, b :: rest)

/-- The magnitude of the least signed number of 64 bits.  The greatest one is one smaller. -/
def signedCutoff : UInt64 := 0x8000000000000000

/-- The signed number of 64 bits that has a sign and a magnitude. -/
def signedOf (negative : Bool) (magnitude : UInt64) : Except NumeralFault Int64 :=
  if !negative && signedCutoff ≤ magnitude then .error .outOfRange
  else if negative && signedCutoff < magnitude then .error .outOfRange
  else .ok (if negative then -magnitude.toInt64 else magnitude.toInt64)

/-- Reads a signed decimal numeral of 64 bits.  The digits are read as an unsigned one. -/
def signed (text : Bytes) : Except NumeralFault Int64 :=
  let (negative, rest) := splitSign text
  match unsigned 10 (maxOfBits 64) rest with
  | .error fault => .error fault
  | .ok magnitude => signedOf negative (.ofNat magnitude)

/-! ## Numerals with a prefix

A numeral on the command line may name its base by a prefix, and may hold underscores between its
digits. -/

/-- The underscore. -/
def underscore : UInt8 := 0x5F

/-- The base that the letter after a leading zero names. -/
def baseOfLetter? (b : UInt8) : Option Nat :=
  if b == 0x62 || b == 0x42 then some 2
  else if b == 0x6F || b == 0x4F then some 8
  else if b == 0x78 || b == 0x58 then some 16
  else none

/-- The parts of an unsigned numeral that may have a prefix. -/
structure Prefixed where
  /-- the base that the prefix names, ten if there is none -/
  base : Nat
  /-- the digits, underscores among them -/
  digits : Bytes
  /-- whether an underscore may stand before the first of these digits -/
  joined : Bool
  deriving DecidableEq, Repr, Inhabited

/-- Splits an unsigned numeral: a zero and a letter with something behind it name a base, a zero
alone names base eight, and otherwise the base is ten. -/
def splitPrefix : Bytes → Prefixed
  | [] => ⟨10, [], false⟩
  | zero :: rest =>
    if zero == 0x30 then
      match rest with
      | letter :: digit :: more =>
        match baseOfLetter? letter with
        | some base => ⟨base, digit :: more, true⟩
        | none => ⟨8, rest, true⟩
      | _ => ⟨8, rest, true⟩
    else ⟨10, zero :: rest, false⟩

/-- Whether every underscore is followed by a digit and follows one.  `after` says whether the byte
before the text was a digit, or the end of a prefix. -/
def underscoresBetween : Bool → Bytes → Bool
  | after, [] => after
  | after, b :: rest =>
    if b == underscore then after && underscoresBetween false rest
    else underscoresBetween true rest

/-- Reads a signed 64 bit numeral whose base a prefix may name. -/
def signedPrefixed (text : Bytes) : Except NumeralFault Int64 :=
  let (negative, rest) := splitSign text
  if rest.isEmpty then .error .malformed
  else
    let parts := splitPrefix rest
    match digits parts.base (maxOfBits 64) (parts.digits.filter (· != underscore)) with
    | .error fault => .error fault
    | .ok magnitude =>
      if parts.digits.contains underscore && !underscoresBetween parts.joined parts.digits then
        .error .malformed
      else signedOf negative (.ofNat magnitude)

end Numeral

end TwoPass
