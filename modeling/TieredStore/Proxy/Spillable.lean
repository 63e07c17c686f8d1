import TieredStore.Frame
import TieredStore.Id
import TieredStore.Registry
import TieredStore.Volume

/-!
# What can be spilled

The bookkeeping of the tiers sees proxies only through the operations here. It makes no assumption
about them: a proxy may report what it likes and may refuse to be serialized.
-/

namespace TieredStore

/-- The operations that a proxy offers to the bookkeeping. -/
class Spillable (P : Type) where
  /-- The family that holds the data, `none` while the object is live. -/
  serializer : P → Option Serializer
  /-- The device allocations that the proxy refers to. -/
  deviceBuffers : P → List DeviceBuffer
  /-- The size of the proxy in its current form. -/
  size : P → Nat
  /-- The time of the latest access. -/
  lastAccess : P → Int
  /-- Records an access. -/
  setLastAccess : Int → P → P
  /-- Tells the proxy that it is tracked. -/
  attach : P → P
  /-- Whether the proxy stops being tracked when it goes. -/
  isAttached : P → Bool
  /-- Turns the data into frames of the first family of the list that the proxy supports. Nothing
  is done if the data is held by one of the list already. -/
  serialize : List Serializer → EStateM Error (P × Volume) Unit
  /-- The serialized payload with its version, which changes with every replacement; `none` while
  the object is live. -/
  snapshot? : P → Option (Nat × Payload)
  /-- Installs a payload if the payload is still at the given version; says whether it was. -/
  replace : Nat → Payload → P → Bool × P
  /-- The spill file that goes with the proxy when the proxy goes. -/
  ownedFile? : P → Option Path
  /-- Whether the proxy is handed out as it is where others are unwrapped. -/
  isExplicit : P → Bool

namespace Spillable

variable {P : Type} [Spillable P]

/-- The serialized payload, `none` while the object is live. -/
def payload? (p : P) : Option Payload := (snapshot? p).map Prod.snd

/-- What a registry records of a proxy. -/
def report (p : P) : Report := ⟨size p, deviceBuffers p⟩

/-- The tier that goes with the form of a proxy. -/
def tier (p : P) : Tier := Tier.ofSerializer (serializer p)

/-- A proxy in a listing. -/
def describe (p : P) : String :=
  match serializer p with
  | some tag => "<Proxy serializer=" ++ tag.title ++ " size=" ++ toString (size p) ++ ">"
  | none => "<Proxy live size=" ++ toString (size p) ++ ">"

end Spillable

end TieredStore
