import Mathlib

/-!
# Byte strings

The encodings hashed and stored records are made of: UTF-8 text and fixed-width big-endian integers.
-/

namespace TrustInfrastructure.Lib

abbrev Bytes := List UInt8

def utf8 (text : String) : Bytes := text.toByteArray.data.toList

/-- The `width` low bytes of a number, most significant first. -/
def bigEndian : (width : Nat) → Nat → Bytes
  | 0, _ => []
  | width + 1, n => bigEndian width (n / 256) ++ [UInt8.ofNat n]

end TrustInfrastructure.Lib
