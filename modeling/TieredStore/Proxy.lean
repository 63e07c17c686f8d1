import TieredStore.Proxy.Object
import TieredStore.Proxy.Scripted

/-!
# Proxies

A proxy is the proxy of a device object or a scripted one. The bookkeeping treats both alike.
-/

namespace TieredStore

/-- A proxy, of a device object or scripted. -/
inductive Proxy (T : Type) where
  /-- The proxy of a device object. -/
  | object (p : ObjectProxy T)
  /-- A scripted proxy. -/
  | scripted (p : ScriptedProxy)

namespace Proxy

variable {T : Type}

/-- The proxy of a device object. -/
def object? : Proxy T → Option (ObjectProxy T)
  | object p => some p
  | scripted _ => none

/-- An action on one kind of proxy, as an action on proxies. -/
def lift {P α : Type} (inject : P → Proxy T) (p : P) (action : EStateM Error (P × Volume) α) :
    EStateM Error (Proxy T × Volume) α := fun (_, v) =>
  match action (p, v) with
  | .ok a (p, v) => .ok a (inject p, v)
  | .error e (p, v) => .error e (inject p, v)

variable [DeviceObject T]

/-- Serializes a proxy of either kind. -/
def serialize (tags : List Serializer) : EStateM Error (Proxy T × Volume) Unit := do
  match (← get).1 with
  | .object p => lift .object p (ObjectProxy.serialize tags)
  | .scripted p => lift .scripted p (ScriptedProxy.serialize tags)

/-- Installs a payload in a proxy of either kind. -/
def replace (version : Nat) (payload : Payload) : Proxy T → Bool × Proxy T
  | object p => let (done, p) := p.replace version payload; (done, object p)
  | scripted p => let (done, p) := p.replace payload; (done, scripted p)

/-- What holds of both kinds of proxies, taken from the proxy inside. -/
def elim {α : Type} (onObject : ObjectProxy T → α) (onScripted : ScriptedProxy → α) : Proxy T → α
  | object p => onObject p
  | scripted p => onScripted p

instance : Spillable (Proxy T) where
  serializer := elim Spillable.serializer Spillable.serializer
  deviceBuffers := elim Spillable.deviceBuffers Spillable.deviceBuffers
  size := elim Spillable.size Spillable.size
  lastAccess := elim Spillable.lastAccess Spillable.lastAccess
  setLastAccess time := elim (fun p => object (Spillable.setLastAccess time p))
    (fun p => scripted (Spillable.setLastAccess time p))
  attach := elim (fun p => object (Spillable.attach p)) (fun p => scripted (Spillable.attach p))
  isAttached := elim Spillable.isAttached Spillable.isAttached
  serialize := serialize
  snapshot? := elim Spillable.snapshot? Spillable.snapshot?
  replace := replace
  ownedFile? := elim Spillable.ownedFile? Spillable.ownedFile?
  isExplicit := elim Spillable.isExplicit Spillable.isExplicit

end Proxy

end TieredStore
