import TwoPass.Numeral.Reader
import TwoPass.Object.Program
import TwoPass.Text.Quoted

set_option autoImplicit false

/-!
# Memory images

The image of an object program has one byte for each address of the program, zero where no Text
record says otherwise.  The code of a Text record is laid out from its start address on without
gaps; where records overlap the later one stands.
-/

namespace TwoPass.Object

/-- The contents of memory from some address on. -/
abbrev Memory : Type := Array UInt8

/-! ## Bytes from digits -/

/-- Why digits stand for no bytes. -/
inductive HexFault where
  /-- one of them is no hexadecimal digit -/
  | badDigit (digit : UInt8)
  /-- they do not come in pairs -/
  | oddLength
  deriving DecidableEq, Repr, Inhabited

/-- The wording of a fault in digits. -/
def HexFault.message : HexFault → Bytes
  | .badDigit digit => utf8 "encoding/hex: invalid byte: " ++ codePoint (charOfByte digit)
  | .oddLength => utf8 "encoding/hex: odd length hex string"

/-- The byte of two digits. -/
def byteOfDigits (high low : UInt8) : UInt8 :=
  UInt8.ofNat (((Numeral.digit? high).getD 0) * 16 + (Numeral.digit? low).getD 0)

/-- The bytes of pairs of digits, behind those found before, latest first. -/
def joinDigits : Bytes → Bytes → Bytes
  | high :: low :: rest, found => joinDigits rest (byteOfDigits high low :: found)
  | _, found => found.reverse

/-- The bytes that digits stand for.  A byte that is no digit is the first thing to be reported. -/
def decodeHex (digits : Bytes) : Except HexFault Bytes :=
  match digits.find? (!Numeral.isHexDigit ·) with
  | some digit => .error (.badDigit digit)
  | none => if digits.length % 2 = 1 then .error .oddLength else .ok (joinDigits digits [])

/-! ## Images -/

/-- Why a program has no image: the Text record at an address is at fault. -/
inductive ImageFault where
  /-- its code is not made of bytes -/
  | badCode (start : Address) (fault : HexFault)
  /-- it lies outside the program -/
  | outOfBounds (start : Address)
  deriving DecidableEq, Repr, Inhabited

/-- The wording of an image's fault. -/
def ImageFault.message : ImageFault → Bytes
  | .badCode start fault =>
    utf8 "Text record at " ++ upperHex 6 start.toNat ++ utf8 ": " ++ fault.message
  | .outOfBounds start =>
    utf8 "Text record at " ++ upperHex 6 start.toNat ++ utf8 " out of program bounds"

/-- Bytes at an offset in the image. -/
structure Patch where
  /-- the offset of the first byte -/
  offset : Nat
  /-- the bytes -/
  bytes : Bytes
  deriving DecidableEq, Repr, Inhabited

/-- Whether bytes at an address do not lie inside the program.  Their offset in the program is a
word of 32 bits, and the offset of their end one of 64. -/
def Header.excludes (h : Header) (start : Address) (bytes : Bytes) : Bool :=
  start < h.start || h.length.toUInt64 < (start - h.start).toUInt64 + sizeWord bytes.length

/-- The bytes of a Text record and where they belong in the image. -/
def Text.patch (header : Header) (t : Text) : Except ImageFault Patch :=
  match decodeHex t.codes.flatten with
  | .error fault => .error (.badCode t.start fault)
  | .ok bytes =>
    if header.excludes t.start bytes then .error (.outOfBounds t.start)
    else .ok ⟨(t.start - header.start).toNat, bytes⟩

/-- Writes bytes into memory from an offset on. -/
def overwrite (memory : Memory) (offset : Nat) : Bytes → Memory
  | [] => memory
  | b :: rest => overwrite (memory.setIfInBounds offset b) (offset + 1) rest

/-- Writing does not move the end of memory. -/
@[simp] theorem size_overwrite (memory : Memory) (offset : Nat) (bytes : Bytes) :
    (overwrite memory offset bytes).size = memory.size := by
  induction bytes generalizing memory offset with
  | nil => rfl
  | cons b rest ih => simp [overwrite, ih]

/-- Memory holds what was written where it was written, and what it held elsewhere. -/
theorem getElem?_overwrite (memory : Memory) (offset : Nat) (bytes : Bytes) (i : Nat)
    (fits : offset + bytes.length ≤ memory.size) :
    (overwrite memory offset bytes)[i]? =
      if offset ≤ i ∧ i < offset + bytes.length then bytes[i - offset]? else memory[i]? := by
  induction bytes generalizing memory offset with
  | nil =>
    have nowhere : ¬(offset ≤ i ∧ i < offset) := by omega
    simp [overwrite, nowhere]
  | cons b rest ih =>
    simp only [List.length_cons] at fits
    rw [overwrite, ih _ _ (by simp; omega), Array.getElem?_setIfInBounds]
    grind

/-- Writes a patch into memory. -/
def Patch.apply (memory : Memory) (patch : Patch) : Memory :=
  overwrite memory patch.offset patch.bytes

/-- The memory image of a program. -/
def Program.image (p : Program) : Except ImageFault Memory :=
  match p.text.mapM (Text.patch p.header) with
  | .error fault => .error fault
  | .ok patches => .ok (patches.foldl Patch.apply (Array.replicate p.header.length.toNat 0))

end TwoPass.Object
