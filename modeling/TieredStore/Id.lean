/-!
# Identities

Proxies and device allocations are told apart by numbers. A proxy keeps its number for as long as
anything refers to it, and no number is given out twice.
-/

namespace TieredStore

/-- A number in hexadecimal, with the customary mark in front. -/
def hexadecimal (n : Nat) : String := "0x" ++ String.ofList (Nat.toDigits 16 n)

/-- The identity of a proxy. -/
structure ProxyId where
  /-- The number behind the identity. -/
  raw : Nat
  deriving DecidableEq

/-- The identity of a device allocation, typically its base address. -/
structure BufferId where
  /-- The number behind the identity. -/
  raw : UInt64
  deriving DecidableEq

namespace ProxyId

/-- The identity as it stands in messages. -/
def display (id : ProxyId) : String := hexadecimal id.raw

/-- The identity with the name of its type, for debugging. -/
def describe (id : ProxyId) : String := "ProxyId(" ++ toString id.raw ++ ")"

end ProxyId

namespace BufferId

/-- The identity as it stands in messages. -/
def display (id : BufferId) : String := hexadecimal id.raw.toNat

/-- The identity with the name of its type, for debugging. -/
def describe (id : BufferId) : String := "BufferId(" ++ toString id.raw.toNat ++ ")"

end BufferId

/-- A device allocation that a proxy depends on. -/
structure DeviceBuffer where
  /-- Which allocation it is. -/
  id : BufferId
  /-- Its size in bytes. -/
  size : Nat
  deriving DecidableEq

end TieredStore
