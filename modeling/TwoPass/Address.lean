set_option autoImplicit false

/-!
# Addresses

The machine has 24 bit addresses, written as six hexadecimal digits.  Object programs can name
larger ones, so an address is a 32 bit word, and arithmetic on addresses is the arithmetic of such
words.
-/

namespace TwoPass

/-- An address, or a length in memory. -/
abbrev Address : Type := UInt32

/-- The number of addresses that six hexadecimal digits can name. -/
def addressSpace : Nat := 0x1000000

/-- A size as a word of 64 bits.  Nothing is larger than a signed word can say. -/
def sizeWord (size : Nat) : UInt64 := .ofNat (min size 0x7FFFFFFFFFFFFFFF)

/-- In 64 bits, adding a size to an address does not wrap around. -/
theorem toNat_add_sizeWord (address : Address) (size : Nat) :
    (address.toUInt64 + sizeWord size).toNat = address.toNat + min size 0x7FFFFFFFFFFFFFFF := by
  have hlt : min size 0x7FFFFFFFFFFFFFFF < 2 ^ 64 := by omega
  have haddress := address.toNat_lt
  rw [UInt64.toNat_add, UInt32.toNat_toUInt64, sizeWord, UInt64.toNat_ofNat_of_lt' hlt]
  exact Nat.mod_eq_of_lt (by omega)

end TwoPass
