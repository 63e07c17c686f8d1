import TieredStore.Memory.Access

/-!
# Nested values

Values hold integers, device objects, proxies and lists of values. Wrapping a value replaces the
objects in it by proxies; unwrapping puts the objects back.
-/

namespace TieredStore

/-- A nested value. -/
inductive Value (T : Type) where
  /-- An integer. -/
  | int (n : Int)
  /-- A device object. -/
  | object (o : T)
  /-- A reference to a proxy. -/
  | proxy (id : ProxyId)
  /-- A list of values. -/
  | list (items : List (Value T))

namespace Value

variable {T : Type}

mutual

/-- The proxies in a value, from left to right and as often as they occur. -/
def proxies : Value T → List ProxyId
  | int _ => []
  | object _ => []
  | proxy id => [id]
  | list items => proxiesOf items

/-- The proxies in several values. -/
def proxiesOf : List (Value T) → List ProxyId
  | [] => []
  | item :: items => proxies item ++ proxiesOf items

end

end Value

/-- What is known while a value is walked. -/
structure Walk (T : Type) where
  /-- The memory, with the proxies made so far. -/
  memory : Memory (Proxy T)
  /-- The proxies of the objects met so far, by the identity of the object. -/
  seen : Table UInt64 ProxyId
  /-- The proxies found so far, the last one in front. -/
  found : List ProxyId

namespace Walk

variable {T : Type} [DeviceObject T]

/-- A proxy for an object. An object that was met before has one already. -/
def proxyFor (object : T) : StateM (Walk T) ProxyId := fun w =>
  let key := DeviceObject.identity object
  match w.seen.find? key with
  | some id => (id, w)
  | none =>
    let (id, memory) := w.memory.create (fun time => .object (.ofObject object false time))
    (id, ⟨memory, w.seen.insert key id, id :: w.found⟩)

mutual

/-- The value with a proxy in the place of every object. -/
def wrap : Value T → StateM (Walk T) (Value T)
  | .int n => return .int n
  | .object o => return .proxy (← proxyFor o)
  | .proxy id => do
    modify (fun w => { w with found := id :: w.found })
    return .proxy id
  | .list items => return .list (← wrapItems items)

/-- The values with a proxy in the place of every object. -/
def wrapItems : List (Value T) → StateM (Walk T) (List (Value T))
  | [] => return []
  | item :: items => do
    let item ← wrap item
    let items ← wrapItems items
    return item :: items

end

end Walk

namespace Memory

variable {T : Type} [DeviceObject T]

/-- Wraps a value. Gives the wrapped value and the proxies found in it, new ones included. -/
def wrap (value : Value T) : Action (Proxy T) (Value T × List ProxyId) := modifyGet fun m =>
  let (value, w) := Walk.wrap value ⟨m, .empty, []⟩
  ((value, w.found.reverse), w.memory)

/-- Records an access to a proxy that was found in a value, and starts to track it unless it is
tracked already. -/
def trackFound (time : Int) (id : ProxyId) : Action (Proxy T) Unit := do
  touch id time
  if !(← ask (fun m => m.contains id)) then
    attach id
    track id

/-- Wraps a value, tracks the proxies in it, and evicts what is over the limits. Gives the wrapped
value and the proxies found in it. -/
def adopt (value : Value T) : Action (Proxy T) (Value T × List ProxyId) := do
  let (value, found) ← wrap value
  let time ← now
  found.forM (trackFound time)
  enforceLimits 0
  return (value, found)

mutual

/-- The value with the objects in the place of their proxies. Explicit proxies may be left. -/
def unwrap (skipExplicit : Bool) : Value T → Action (Proxy T) (Value T)
  | .int n => return .int n
  | .object o => return .object o
  | .proxy id => do
    if skipExplicit && Spillable.isExplicit (← proxy id) then return .proxy id
    return .object (← object id)
  | .list items => return .list (← unwrapItems skipExplicit items)

/-- The values with the objects in the place of their proxies. -/
def unwrapItems (skipExplicit : Bool) : List (Value T) → Action (Proxy T) (List (Value T))
  | [] => return []
  | item :: items => do
    let item ← unwrap skipExplicit item
    let items ← unwrapItems skipExplicit items
    return item :: items

end

end Memory

end TieredStore
