import TieredStore.Proxy.Spillable

/-!
# Scripted proxies

A proxy that follows a script: it reports fixed sizes and allocations, and serializes, refuses or
does nothing as it was told to. It shows what the bookkeeping does with proxies that do not keep
to what is expected of them.
-/

namespace TieredStore

/-- What a scripted proxy does when it is to be serialized. -/
inductive Compliance where
  /-- It takes on the first family of the list, without a payload. -/
  | adopts
  /-- It does nothing. -/
  | ignores
  /-- It fails. -/
  | refuses
  deriving DecidableEq

/-- A proxy that follows a script. -/
structure ScriptedProxy where
  /-- The family that it reports. -/
  serializer : Option Serializer
  /-- The size that it reports. -/
  size : Nat
  /-- The allocations that it reports. -/
  buffers : List DeviceBuffer
  /-- The payload that it shows. -/
  payload : Option Payload
  /-- What it does when it is to be serialized. -/
  compliance : Compliance
  /-- Whether it takes a new payload. -/
  acceptsPayload : Bool
  /-- The time of the latest access. -/
  lastAccess : Int

namespace ScriptedProxy

/-- The error of a proxy that refuses to be serialized. -/
def refusal : Error := .serialization "mock refuses"

/-- Serializes as the script says. -/
def serialize (tags : List Serializer) : EStateM Error (ScriptedProxy × Volume) Unit :=
  fun (p, v) =>
    match p.compliance with
    | .adopts => .ok () ({ p with serializer := tags.head? }, v)
    | .ignores => .ok () (p, v)
    | .refuses => .error refusal (p, v)

/-- Takes a new payload and its family, or refuses it, whatever the version. -/
def replace (payload : Payload) (p : ScriptedProxy) : Bool × ScriptedProxy :=
  if p.acceptsPayload then
    (true, { p with payload := some payload, serializer := some payload.serializer })
  else (false, p)

instance : Spillable ScriptedProxy where
  serializer := serializer
  deviceBuffers := buffers
  size := size
  lastAccess := lastAccess
  setLastAccess time p := { p with lastAccess := time }
  attach p := p
  isAttached _ := false
  serialize := serialize
  snapshot? p := p.payload.map (fun payload => (0, payload))
  replace _ := replace
  ownedFile? _ := none
  isExplicit _ := false

end ScriptedProxy

end TieredStore
