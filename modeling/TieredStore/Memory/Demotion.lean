import TieredStore.Eviction
import TieredStore.Memory

/-!
# Demotion and eviction

Proxies leave the device by being serialized into host frames, and the host by being written to a
spill file. Which ones have to leave is planned from a snapshot of their tier.
-/

namespace TieredStore

namespace Memory

variable {P : Type} [Spillable P]

/-- The allocations that the proxies on the device refer to, each with the proxy. -/
def deviceReferences (m : Memory P) : List (DeviceBuffer × ProxyId) :=
  (m.residents .device).flatMap
    (fun (id, p) => (Spillable.deviceBuffers p).map (fun buffer => (buffer, id)))

/-- The time of the latest access to some of the given proxies. -/
def latestAccess (m : Memory P) (ids : List ProxyId) : Int :=
  ((ids.filterMap m.proxies.find?).map Spillable.lastAccess).max?.getD 0

/-- The units of the device: an allocation with the proxies that refer to it, and its size as the
first of them reports it. They are in the order of the allocations' identities. -/
def deviceUnits (m : Memory P) : List EvictionUnit :=
  let references := m.deviceReferences
  let buffers := (references.map (fun r => r.1.id)).eraseDups.mergeSort (fun a b => a.raw ≤ b.raw)
  buffers.map fun buffer =>
    let mine := references.filter (fun r => r.1.id = buffer)
    let proxies := mine.map Prod.snd
    { lastAccess := m.latestAccess proxies
      size := (mine.map (fun r => r.1.size)).headD 0
      proxies }

/-- The units of a tier whose proxies are evicted one by one. -/
def singleUnits (m : Memory P) (tier : Tier) : List EvictionUnit :=
  (m.residents tier).map fun (id, p) =>
    { lastAccess := Spillable.lastAccess p, size := Spillable.size p, proxies := [id] }

/-- The units that a tier can evict. -/
def units (m : Memory P) : Tier → List EvictionUnit
  | .device => m.deviceUnits
  | .host => m.singleUnits .host
  | .disk => m.singleUnits .disk

/-- Serializes a proxy into host frames and tracks it in the tier of its new form. -/
def demoteToHost (id : ProxyId) : Action P Unit := do
  serialize id Serializer.hostFamilies
  track id

/-- The error for a proxy that has no host frames after it was serialized. -/
def noHostFrames (id : ProxyId) : Error :=
  .invalidState ("proxy " ++ id.display ++ " did not serialize into host frames")

/-- Writes frames to a spill file and installs it in a proxy, which is then tracked on disk. If
the payload is not at the given version any more, the file is removed and the proxy left alone. -/
def spillFrames (id : ProxyId) (version : Nat) (header : FrameHeader) (frames : List Bytes)
    (compress : Bool) : Action P Unit := do
  let disk ← onSpill (SpillDirectory.dump header frames compress)
  if ← replace id version (.disk disk) then add id (some .disk)
  else onSpill (SpillDirectory.onVolume (Volume.remove disk.path))

/-- Writes a proxy to a spill file and tracks it on disk. Host frames are written as they are; a
proxy in another form is serialized first, and its fresh frames may be compressed. -/
def demoteToDisk (id : ProxyId) : Action P Unit := do
  let fresh : Action P Unit := do
    serialize id Serializer.hostFamilies
    match Spillable.snapshot? (← proxy id) with
    | some (version, .frames header content) => spillFrames id version header content true
    | _ => fail (noHostFrames id)
  match Spillable.snapshot? (← proxy id) with
  | some (_, .disk _) => addToTier id .disk
  | some (version, .frames header content) =>
    if header.serializer.isHost then spillFrames id version header content false else fresh
  | none => fresh

/-- Sums of bytes stop growing here. -/
def maxBytes : Nat := 2 ^ 64 - 1

/-- By how much a tier with `extra` more bytes in use is over its limit. -/
def excess (usage extra limit : Nat) : Nat := min (usage + extra) maxBytes - limit

/-- Evicts from the device until it has room for `extra` bytes. Gives the bytes counted as freed. -/
def enforceDeviceLimit (extra : Nat) : Action P Nat := do
  let m ← get
  match excess (m.manager.usage .device) extra m.manager.deviceLimit with
  | 0 => return 0
  | surplus => evict surplus (m.units .device) demoteToHost

/-- Evicts from the host until it has room for `extra` bytes. Gives the bytes counted as freed. -/
def enforceHostLimit (extra : Nat) : Action P Nat := do
  let m ← get
  match excess (m.manager.usage .host) extra m.manager.hostLimit with
  | 0 => return 0
  | surplus => evict surplus (m.units .host) demoteToDisk

/-- Makes room for `extra` bytes on the device. The host comes second, since what leaves the
device arrives there. -/
def enforceLimits (extra : Nat) : Action P Unit := do
  let _ ← enforceDeviceLimit extra
  let _ ← enforceHostLimit 0

end Memory

end TieredStore
