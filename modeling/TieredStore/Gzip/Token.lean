import TieredStore.Bytes

/-!
# Parts of compressed data

Data is put together from octets and from repetitions of earlier output. A repetition may reach into
what it adds itself.
-/

namespace TieredStore

namespace Gzip

/-- A part of the data. -/
inductive Token where
  /-- One octet. -/
  | literal (b : UInt8)
  /-- A repetition of what was `distance` octets earlier. -/
  | copy (length distance : Nat)

/-- The octet that was written `distance` octets ago; zeros stand in front of the output. -/
def octetAgo (distance : Nat) (output : Array UInt8) : UInt8 :=
  if output.size < distance then 0 else output.getD (output.size - distance) 0

/-- Repeats what was written `distance` octets ago, octet by octet. -/
def copyBack (distance : Nat) : Nat → Array UInt8 → Array UInt8
  | 0, output => output
  | length + 1, output => copyBack distance length (output.push (octetAgo distance output))

namespace Token

/-- The number of octets that a part stands for. -/
def span : Token → Nat
  | .literal _ => 1
  | .copy length _ => length

/-- The output with one more part. -/
def expand (output : Array UInt8) : Token → Array UInt8
  | .literal b => output.push b
  | .copy length distance => copyBack distance length output

end Token

end Gzip

end TieredStore
