import TieredStore.Bytes

/-!
# The cyclic redundancy check of 32 bits

The checksum that ends a gzip member: the remainder of the data, read as a polynomial with the
low bits first, with the customary complement before and after.
-/

namespace TieredStore

namespace Gzip

/-- One bit of the division by the polynomial. -/
def checksumBit (crc : UInt32) : UInt32 :=
  if crc &&& 1 = 1 then (crc >>> 1) ^^^ 0xEDB88320 else crc >>> 1

/-- One octet of the division. -/
def checksumByte (crc : UInt32) (b : UInt8) : UInt32 :=
  (List.range 8).foldl (fun crc _ => checksumBit crc) (crc ^^^ b.toUInt32)

/-- The checksum of a byte string. -/
def checksum (data : Bytes) : UInt32 := (data.foldl checksumByte 0xFFFFFFFF) ^^^ 0xFFFFFFFF

end Gzip

end TieredStore
