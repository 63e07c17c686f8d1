import TieredStore.Manager
import TieredStore.Proxy.Spillable
import TieredStore.SpillDirectory

/-!
# Tiered memory

The proxies that exist, the manager that tracks them, and the spill directory that they are
written to. All that happens to proxies happens here, as an action that ends with a result or with
a failure, and that leaves its traces in either case.

A proxy exists as long as somebody holds it; who holds it is not decided here. Time is a counter,
and every look at the clock gives a later time.
-/

namespace TieredStore

/-- The proxies that exist and what is known about them. -/
structure Memory (P : Type) where
  /-- The time that was given out last. -/
  clock : Int
  /-- The number of the next proxy. -/
  nextId : Nat
  /-- The proxies that exist. -/
  proxies : Table ProxyId P
  /-- The books of the three tiers. -/
  manager : Manager
  /-- Whether the manager is still there; proxies may outlive it. -/
  isManaged : Bool
  /-- The spill directory. -/
  spill : SpillDirectory

namespace Memory

/-- A step that may fail, and that leaves its traces even then. -/
abbrev Action (P α : Type) : Type := EStateM Failure (Memory P) α

/-- A memory without proxies. -/
def empty (P : Type) (deviceLimit hostLimit : Nat) (spill : SpillDirectory) : Memory P where
  clock := 0
  nextId := 1
  proxies := .empty
  manager := .empty deviceLimit hostLimit
  isManaged := true
  spill

variable {P α : Type}

/-- Whether a proxy exists. -/
def isAlive (m : Memory P) (id : ProxyId) : Bool := m.proxies.contains id

/-- The proxies of a tier that exist, in the order of its registry. -/
def residents (m : Memory P) (tier : Tier) : List (ProxyId × P) :=
  (m.manager.registry tier).entries.filterMap
    (fun id => (m.proxies.find? id).map (fun p => (id, p)))

/-- An error as the failure of an action. -/
def fail (e : Error) : Action P α := throw (.error e)

/-- The current time, later than all times before. -/
def now : Action P Int := modifyGet (fun m => (m.clock + 1, { m with clock := m.clock + 1 }))

/-- A new proxy, made from the current time. -/
def create (make : Int → P) (m : Memory P) : ProxyId × Memory P :=
  let time := m.clock + 1
  let id : ProxyId := ⟨m.nextId⟩
  (id, { m with
    clock := time
    nextId := m.nextId + 1
    proxies := m.proxies.insert id (make time) })

/-- A proxy that exists. -/
def proxy (id : ProxyId) : Action P P := do
  match (← get).proxies.find? id with
  | some p => return p
  | none => fail (.notFound "proxy" id.display)

/-- Changes a proxy that exists. -/
def update (id : ProxyId) (f : P → P) : Action P Unit := do
  let p ← proxy id
  modify (fun m => { m with proxies := m.proxies.insert id (f p) })

/-- An action on one proxy and the files. -/
def onProxy (id : ProxyId) (action : EStateM Error (P × Volume) α) : Action P α := do
  let p ← proxy id
  fun m =>
    match action (p, m.spill.volume) with
    | .ok a (p, volume) =>
      .ok a { m with proxies := m.proxies.insert id p, spill := { m.spill with volume } }
    | .error e (p, volume) =>
      .error (.error e)
        { m with proxies := m.proxies.insert id p, spill := { m.spill with volume } }

/-- An action on the spill directory. -/
def onSpill (action : EStateM Error SpillDirectory α) : Action P α := fun m =>
  match action m.spill with
  | .ok a spill => .ok a { m with spill }
  | .error e spill => .error (.error e) { m with spill }

/-- An operation on the books. They stay as they are if it fails. -/
def onManager (f : Manager → Except Failure Manager) : Action P Unit := fun m =>
  match f m.manager with
  | .ok manager => .ok () { m with manager }
  | .error e => .error e m

/-- A question to the books. -/
def ask (f : Manager → Except Failure α) : Action P α := do
  match f (← get).manager with
  | .ok a => return a
  | .error e => throw e

variable [Spillable P]

/-- Tracks a proxy in a tier, moving it if it is tracked in another one. -/
def addToTier (id : ProxyId) (tier : Tier) : Action P Unit := do
  let p ← proxy id
  onManager (fun m => m.addToTier id (Spillable.report p) tier)

/-- Tracks a proxy in the tier that goes with `serializer`. -/
def add (id : ProxyId) (serializer : Option Serializer) : Action P Unit :=
  addToTier id (Tier.ofSerializer serializer)

/-- Tracks a proxy in the tier that goes with its form. -/
def track (id : ProxyId) : Action P Unit := do
  let p ← proxy id
  add id (Spillable.serializer p)

/-- Attaches a proxy to the manager. -/
def attach (id : ProxyId) : Action P Unit := update id Spillable.attach

/-- Records an access to a proxy. -/
def touch (id : ProxyId) (time : Int) : Action P Unit := update id (Spillable.setLastAccess time)

/-- Serializes a proxy. -/
def serialize (id : ProxyId) (tags : List Serializer) : Action P Unit :=
  onProxy id (Spillable.serialize tags)

/-- Installs a payload in a proxy, if it is still at the given version; says whether it was. -/
def replace (id : ProxyId) (version : Nat) (payload : Payload) : Action P Bool := do
  let p ← proxy id
  let (done, p) := Spillable.replace version payload p
  modify (fun m => { m with proxies := m.proxies.insert id p })
  return done

end Memory

end TieredStore
