import TwoPass.Object.Image

set_option autoImplicit false

/-!
# Hex dumps

A dump shows sixteen bytes of memory on a line, after the address of the first of them.
-/

namespace TwoPass.Object

/-- The number of bytes on a line. -/
def dumpWidth : Nat := 16

/-- The number of lines that a number of bytes takes. -/
def dumpRows (size : Nat) : Nat := (size + (dumpWidth - 1)) / dumpWidth

/-- One line of a dump, as it is written: the address, the bytes one by one, the line end. -/
def dumpRow (address : Address) (bytes : Bytes) : List Bytes :=
  (upperHex 6 address.toNat ++ utf8 ":") :: bytes.map (fun b => Ascii.space :: upperHex 2 b.toNat)
    ++ [[Ascii.newline]]

/-- The dump of memory that starts at an address.  Addresses wrap around. -/
def dump (base : Address) (memory : Memory) : List Bytes :=
  (List.range (dumpRows memory.size)).flatMap fun row =>
    dumpRow (base + UInt32.ofNat (dumpWidth * row))
      (memory.extract (dumpWidth * row) (dumpWidth * row + dumpWidth)).toList

/-- Writes the dump of memory that starts at an address, up to the first line that fails. -/
def writeDump (base : Address) (memory : Memory) (sink : Sink) : Written Sink :=
  sink.writeGroups <| (List.range (dumpRows memory.size)).map fun row =>
    dumpRow (base + UInt32.ofNat (dumpWidth * row))
      (memory.extract (dumpWidth * row) (dumpWidth * row + dumpWidth)).toList

end TwoPass.Object
