import TieredStore.Failure
import TieredStore.Registry

/-!
# The manager of the three tiers

The manager knows in which tier each proxy is tracked, and moves proxies from one registry to
another. It works on identities and reports alone; the proxies themselves are elsewhere.
-/

namespace TieredStore

/-- The registries of the three tiers and the limits of the upper two. -/
structure Manager where
  /-- The bytes of device memory in use before proxies are moved to the host. -/
  deviceLimit : Nat
  /-- The bytes of host memory in use before proxies are moved to disk. -/
  hostLimit : Nat
  /-- The registry of the disk tier. -/
  disk : Registry
  /-- The registry of the host tier. -/
  host : Registry
  /-- The registry of the device tier. -/
  device : Registry

namespace Manager

/-- A manager that tracks nothing. -/
def empty (deviceLimit hostLimit : Nat) : Manager where
  deviceLimit
  hostLimit
  disk := .empty .disk
  host := .empty .host
  device := .empty .device

/-- The registry of a tier. -/
def registry (m : Manager) : Tier → Registry
  | .disk => m.disk
  | .host => m.host
  | .device => m.device

/-- The manager with another registry for one tier. -/
def setRegistry (m : Manager) (tier : Tier) (r : Registry) : Manager :=
  match tier with
  | .disk => { m with disk := r }
  | .host => { m with host := r }
  | .device => { m with device := r }

/-- The tally of a tier. -/
def usage (m : Manager) (tier : Tier) : Nat := (m.registry tier).usage

/-- The number of identities tracked in all tiers. -/
def size (m : Manager) : Nat := m.disk.size + m.host.size + m.device.size

/-- Whether nothing is tracked. -/
def isEmpty (m : Manager) : Bool := m.size == 0

/-- The tiers that track an identity, the slowest first. -/
def tiersOf (m : Manager) (id : ProxyId) : List Tier :=
  Tier.all.filter (fun tier => (m.registry tier).contains id)

/-- The tier that tracks an identity. -/
def locate (m : Manager) (id : ProxyId) : Except Failure (Option Tier) :=
  match m.tiersOf id with
  | [] => .ok none
  | [tier] => .ok (some tier)
  | first :: second :: _ => .error (.doubleTracking id first second)

/-- Whether some tier tracks an identity. -/
def contains (m : Manager) (id : ProxyId) : Except Failure Bool :=
  (m.locate id).map Option.isSome

/-- An operation on the registry of one tier. -/
def updateRegistry (m : Manager) (tier : Tier) (f : Registry → Except Error Registry) :
    Except Failure Manager :=
  match f (m.registry tier) with
  | .ok r => .ok (m.setRegistry tier r)
  | .error e => .error (.error e)

/-- Tracks a proxy in `target`. If it is tracked in another tier it moves, and if it is in
`target` already nothing changes. -/
def addToTier (m : Manager) (id : ProxyId) (report : Report) (target : Tier) :
    Except Failure Manager := do
  match ← m.locate id with
  | none => m.updateRegistry target (fun r => r.add id report)
  | some current =>
    if current = target then return m
    let m ← m.updateRegistry current (fun r => r.remove id)
    m.updateRegistry target (fun r => r.add id report)

/-- Tracks a proxy in the tier that goes with `serializer`. -/
def add (m : Manager) (id : ProxyId) (report : Report) (serializer : Option Serializer) :
    Except Failure Manager :=
  m.addToTier id report (Tier.ofSerializer serializer)

/-- Stops tracking a proxy that some tier tracks. -/
def remove (m : Manager) (id : ProxyId) : Except Failure Manager := do
  match ← m.locate id with
  | none => throw (.error (.notFound "proxy" id.display))
  | some tier => m.updateRegistry tier (fun r => r.remove id)

/-- Stops tracking a proxy, if it is tracked. -/
def forget (m : Manager) (id : ProxyId) : Except Failure Manager := do
  match ← m.locate id with
  | none => return m
  | some tier => m.updateRegistry tier (fun r => r.remove id)

/-- Strikes out the proxies that no longer exist, in every tier. Gives their number. -/
def prune (m : Manager) (alive : ProxyId → Bool) : Manager × Nat :=
  let (disk, fromDisk) := m.disk.prune alive
  let (host, fromHost) := m.host.prune alive
  let (device, fromDevice) := m.device.prune alive
  ({ m with disk, host, device }, fromDisk + fromHost + fromDevice)

/-- A tier in the summary: its tally and the number of its proxies. -/
def displayTier (m : Manager) (tier : Tier) : String :=
  tier.label ++ "=" ++ toString (m.usage tier) ++ "(" ++ toString (m.registry tier).size ++ ")"

/-- The summary of a manager in one line. -/
def display (m : Manager) : String :=
  "<ProxyManager dev_limit=" ++ toString m.deviceLimit ++ " host_limit=" ++ toString m.hostLimit
    ++ " " ++ " ".intercalate (Tier.all.map m.displayTier) ++ ">"

end Manager

end TieredStore
