import TieredStore.Memory.Inspection
import TieredStore.Settings
import TieredStore.Value

/-!
# The store

A store of values whose device objects are spilled as memory runs short. Values are wrapped when
they are inserted. A proxy exists as long as a stored value or a caller holds it: the store
counts what callers hold, and ends the proxies that nobody holds any more.

The allocator of the device may take a callback, which makes room when an allocation failed.
-/

namespace TieredStore

/-- The allocator of the device, as far as the callback goes. -/
structure Allocator where
  /-- Whether it takes a callback. -/
  accepts : Bool
  /-- How often it was offered one. -/
  offers : Nat
  /-- Whether it has one. -/
  hasCallback : Bool

/-- A store of values whose device objects are spilled. -/
structure Store (T : Type) where
  /-- The proxies, the books and the files. -/
  memory : Memory (Proxy T)
  /-- The stored values. -/
  entries : Table String (Value T)
  /-- The proxies that callers hold, each as often as it is held. -/
  handles : List ProxyId
  /-- Whether values are unwrapped before they are handed out. -/
  compatibilityMode : Bool
  /-- Whether the allocator is offered a callback. -/
  spillOnDemand : Bool
  /-- The allocator, if there is one that could take a callback. -/
  allocator : Option Allocator
  /-- Whether a callback was installed, once that was tried. -/
  installed : Option Bool

namespace Store

/-- A step that may fail, and that leaves its traces even then. -/
abbrev Action (T α : Type) : Type := EStateM Failure (Store T) α

variable {T α : Type}

/-- A store without values. The allocator takes a callback or not, as `accepts` says; without
that there is no allocator. -/
def ofSettings (T : Type) (settings : Settings) (spill : SpillDirectory) (accepts : Option Bool) :
    Store T where
  memory := .empty (Proxy T) settings.deviceMemoryLimit settings.memoryLimit spill
  entries := .empty
  handles := []
  compatibilityMode := settings.compatibilityMode
  spillOnDemand := settings.spillOnDemand
  allocator := accepts.map (fun accepts => ⟨accepts, 0, false⟩)
  installed := none

/-- An action on the memory. -/
def onMemory (action : Memory.Action (Proxy T) α) : Action T α := fun h =>
  match action h.memory with
  | .ok a memory => .ok a { h with memory }
  | .error e memory => .error e { h with memory }

/-- The proxies that stored values or callers hold. -/
def owned (h : Store T) : List ProxyId :=
  h.entries.values.flatMap Value.proxies ++ h.handles

/-- Whether a callback was installed. -/
def isInstalled (h : Store T) : Bool := h.installed.getD false

/-- The keys of the stored values, in no order that matters. -/
def keys (h : Store T) : List String := h.entries.keys

/-- Whether there is a value under a key. -/
def contains (h : Store T) (key : String) : Bool := h.entries.contains key

/-- The store in a debugging listing. -/
def describe (h : Store T) : String :=
  "ProxifyHostFile \x7b manager: " ++ h.memory.manager.display ++ ", compatibility_mode: "
    ++ toString h.compatibilityMode ++ ", spill_on_demand: " ++ toString h.spillOnDemand
    ++ ", .. \x7d"

/-- Records that a caller holds some more proxies. -/
def hold (ids : List ProxyId) : Action T Unit :=
  modify (fun h => { h with handles := ids ++ h.handles })

variable [DeviceObject T]

/-- A new proxy of an object, held by the caller. -/
def wrapObject (object : T) (isExplicit : Bool) : Action T ProxyId := do
  let make (time : Int) : Proxy T := .object (.ofObject object isExplicit time)
  let id ← onMemory (modifyGet (Memory.create make))
  hold [id]
  return id

/-- Ends the proxies that nobody holds. Those in values on their way count as held. -/
def collect (inFlight : List ProxyId) : Action T Unit := do
  let h ← get
  let held := inFlight ++ h.owned
  onMemory (Memory.releaseAll (h.memory.proxies.keys.filter (fun id => !held.contains id)))

/-- Records that a caller no longer holds some proxies that it held. -/
def letGo (ids : List ProxyId) : Action T Unit := do
  modify (fun h => { h with handles := ids.foldl List.erase h.handles })
  collect []

/-- Offers the callback to the allocator, the first time this is called. -/
def installCallback : Action T Unit := do
  let h ← get
  if h.spillOnDemand && h.installed.isNone then
    match h.allocator with
    | none => set { h with installed := some false }
    | some a =>
      set { h with
        installed := some a.accepts
        allocator := some { a with offers := a.offers + 1, hasCallback := a.accepts } }

/-- Stores a value under a key, with its objects wrapped and tracked. The value that was there
goes first. If that fails, or room cannot be made, nothing is stored under the key and the new value
goes too. Gives the proxies found in the value. -/
def insert (key : String) (value : Value T) : Action T (List ProxyId) := do
  installCallback
  modify (fun h => { h with entries := h.entries.erase key })
  tryCatch
    (do
      collect value.proxies
      let (value, found) ← onMemory (Memory.adopt value)
      modify (fun h => { h with entries := h.entries.insert key value })
      return found)
    (fun failure => do
      collect []
      throw failure)

/-- Wraps a value and tracks its proxies, without storing it. The caller holds the result. Gives
the proxies found in the value, too. -/
def adopt (value : Value T) : Action T (Value T × List ProxyId) :=
  tryCatch
    (do
      let (value, found) ← onMemory (Memory.adopt value)
      hold value.proxies
      return (value, found))
    (fun failure => do
      collect []
      throw failure)

/-- The value under a key, held by the caller. In compatibility mode proxies are unwrapped, except
explicit ones, and what is over the limits after that is evicted. -/
def get? (key : String) : Action T (Option (Value T)) := do
  let h ← get
  match h.entries.find? key with
  | none => return none
  | some value =>
    let value ←
      if h.compatibilityMode then onMemory do
        let value ← Memory.unwrap true value
        Memory.enforceLimits 0
        return value
      else pure value
    hold value.proxies
    return some value

/-- Takes the value under a key out of the store. The caller holds it. -/
def remove (key : String) : Action T (Option (Value T)) := modifyGet fun h =>
  match h.entries.find? key with
  | none => (none, h)
  | some value =>
    (some value, { h with entries := h.entries.erase key, handles := value.proxies ++ h.handles })

/-- Moves proxies from the host to disk, enough for a hundredth of the host's limit. Gives the
bytes counted as freed, `none` if there are none. -/
def spillHundredth : Action T (Option Nat) := onMemory do
  let m ← get
  if m.manager.host.isEmpty then return none
  let freed ← evict (max (m.manager.hostLimit / 100) 1) (m.units .host) Memory.demoteToDisk
  Memory.enforceLimits 0
  return if freed = 0 then none else some freed

/-- Makes room on the device for an allocation of `nbytes` that failed; says whether it should be
tried again. -/
def makeRoom (nbytes : Nat) : Memory.Action (Proxy T) Bool := do
  let m ← get
  if !m.isManaged then return false
  tryCatch
    (do
      let freed ← evict nbytes (m.units .device) Memory.demoteToHost
      return freed != 0)
    (fun
      | .error _ => return false
      | failure => throw failure)

/-- A failed allocation of `nbytes`. Gives what the callback says, `none` if the allocator has
none. -/
def allocationFailed (nbytes : Nat) : Action T (Option Bool) := do
  match (← get).allocator with
  | some a => if a.hasCallback then return some (← onMemory (makeRoom nbytes)) else return none
  | none => return none

/-- The end of the store: its values go, and then the manager does. Proxies that callers hold
live on. -/
def close : Action T Unit := do
  let leave : Action T Unit :=
    modify (fun h => { h with memory := { h.memory with isManaged := false } })
  modify (fun h => { h with entries := .empty })
  tryCatch (collect []) (fun failure => do leave; throw failure)
  leave

end Store

end TieredStore
