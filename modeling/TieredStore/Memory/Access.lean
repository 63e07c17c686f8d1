import TieredStore.Memory.Demotion
import TieredStore.Proxy

/-!
# Access to objects

Asking a proxy for its object makes the object live again. Before that the manager makes room for
it, and after that the proxy is tracked on the device.
-/

namespace TieredStore

namespace Memory

variable {T : Type} [DeviceObject T]

/-- The proxy of a device object. -/
def objectProxy (id : ProxyId) : Action (Proxy T) (ObjectProxy T) := do
  match (← proxy id).object? with
  | some p => return p
  | none => fail (.notFound "proxy" id.display)

/-- Makes the object of a proxy live, in whatever form it is. -/
def revive (id : ProxyId) : Action (Proxy T) T := do
  let p ← objectProxy id
  onProxy id (Proxy.lift .object p ObjectProxy.revive)

/-- The object that a proxy stands for. -/
def object (id : ProxyId) : Action (Proxy T) T := do
  touch id (← now)
  let p ← objectProxy id
  match p.form with
  | .live object => return object
  | .serialized payload =>
    let isManaged := p.isAttached && (← get).isManaged
    if isManaged then enforceLimits payload.nbytes
    let object ← revive id
    if isManaged then add id none
    return object

end Memory

end TieredStore
