import TieredStore.DeviceObject
import TieredStore.Proxy.Spillable
import TieredStore.SpillDirectory

/-!
# Proxies of device objects

A proxy stands for a device object that is live, serialized into host frames, or spilled to a
file. Its version counts how often the form was replaced.

Main statement: serializing puts the content of a live object into frames (`serialize_live`).
-/

namespace TieredStore

/-- The form in which a proxy holds its object. -/
inductive Form (T : Type) where
  /-- The object itself. -/
  | live (object : T)
  /-- Frames, in memory or in a file. -/
  | serialized (payload : Payload)

/-- A proxy of a device object. -/
structure ObjectProxy (T : Type) where
  /-- Whether the proxy is handed out as it is where others are unwrapped. -/
  isExplicit : Bool
  /-- What holds the object. -/
  form : Form T
  /-- How often the form was replaced. -/
  version : Nat
  /-- The time of the latest access. -/
  lastAccess : Int
  /-- Whether the proxy is attached to the manager. -/
  isAttached : Bool

namespace ObjectProxy

variable {T : Type}

/-- A proxy of a live object, not attached to the manager. -/
def ofObject (object : T) (isExplicit : Bool) (now : Int) : ObjectProxy T :=
  ⟨isExplicit, .live object, 0, now, false⟩

/-- The proxy with another form, and a version of its own. -/
def setForm (p : ObjectProxy T) (form : Form T) : ObjectProxy T :=
  { p with form, version := p.version + 1 }

/-- The payload of a serialized proxy. -/
def payload? (p : ObjectProxy T) : Option Payload :=
  match p.form with
  | .live _ => none
  | .serialized payload => some payload

/-- Whether the object is in frames. -/
def isSerialized (p : ObjectProxy T) : Bool := p.payload?.isSome

/-- The family that holds the object, `none` if it is live. -/
def serializer (p : ObjectProxy T) : Option Serializer := p.payload?.map Payload.serializer

/-- The spill file that holds the object. -/
def ownedFile? (p : ObjectProxy T) : Option Path :=
  match p.form with
  | .serialized (.disk header) => some header.path
  | _ => none

/-- The payload, if the version is still the given one. -/
def replace (version : Nat) (payload : Payload) (p : ObjectProxy T) : Bool × ObjectProxy T :=
  if p.version = version then (true, p.setForm (.serialized payload)) else (false, p)

/-- A proxy in a debugging listing. -/
def describe (p : ObjectProxy T) (id : ProxyId) : String :=
  "ProxyObject \x7b id: " ++ id.describe ++ ", serializer: "
    ++ Serializer.describeOption p.serializer ++ ", explicit: " ++ toString p.isExplicit ++ " \x7d"

/-- The error for a list of families without one that keeps its data in memory. -/
def noHostFamily (tags : List Serializer) : Error :=
  .invalidState ("no in-memory serializer among " ++ Serializer.describeList tags)

/-- An action on a proxy and the files, where the files are read. -/
def onVolume {P α : Type} (action : EStateM Error Volume α) : EStateM Error (P × Volume) α :=
  fun (p, v) =>
    match action v with
    | .ok a v => .ok a (p, v)
    | .error e v => .error e (p, v)

/-- Replaces the form of a proxy. -/
def install (form : Form T) : EStateM Error (ObjectProxy T × Volume) Unit :=
  modify (fun (p, v) => (p.setForm form, v))

theorem get_apply (p : ObjectProxy T) (v : Volume) :
    (get : EStateM Error (ObjectProxy T × Volume) (ObjectProxy T × Volume)) (p, v) =
      .ok (p, v) (p, v) := rfl

theorem install_apply (form : Form T) (p : ObjectProxy T) (v : Volume) :
    install form (p, v) = .ok () (p.setForm form, v) := rfl

variable [DeviceObject T]

/-- The allocations of a live object; a serialized one has none. -/
def deviceBuffers (p : ObjectProxy T) : List DeviceBuffer :=
  match p.form with
  | .live object => DeviceObject.deviceBuffers object
  | .serialized _ => []

/-- The size of the object. -/
def nbytes (p : ObjectProxy T) : Nat :=
  match p.form with
  | .live object => DeviceObject.nbytes object
  | .serialized payload => payload.nbytes

/-- The bytes that the proxy occupies in its current form. -/
def size (p : ObjectProxy T) : Nat :=
  match p.form with
  | .live object => DeviceObject.nbytes object
  | .serialized payload => payload.footprint

/-- The frames and header for a form under the family `target`. A spill file is read, and gone
after that. -/
def framesFor (target : Serializer) : Form T → EStateM Error Volume (FrameHeader × List Bytes)
  | .live object => do
    match DeviceObject.toFrames object with
    | .error e => throw e
    | .ok frames => return (.ofFrames target (DeviceObject.nbytes object) frames, frames)
  | .serialized (.frames header content) => return ({ header with serializer := target }, content)
  | .serialized (.disk header) => do
    let (sub, frames) ← SpillDirectory.load header
    return ({ sub with serializer := target }, frames)

/-- Turns the object into frames of the first family of the list that keeps its data in host
memory. Nothing is done if a family of the list holds the object already. -/
def serialize (tags : List Serializer) : EStateM Error (ObjectProxy T × Volume) Unit := do
  match tags.find? Serializer.isHost with
  | none => throw (noHostFamily tags)
  | some target =>
    let (p, _) ← get
    if p.serializer.any (fun tag => tags.contains tag) then return
    let (header, frames) ← onVolume (framesFor target p.form)
    install (.serialized (.frames header frames))

/-- The object that a form holds. A spill file is read, and gone after that. -/
def objectOf : Form T → EStateM Error Volume T
  | .live object => return object
  | .serialized (.frames _ content) =>
    match DeviceObject.ofFrames content with
    | .error e => throw e
    | .ok object => return object
  | .serialized (.disk header) => do
    let (_, frames) ← SpillDirectory.load header
    match DeviceObject.ofFrames frames with
    | .error e => throw e
    | .ok object => return object

/-- Makes the object live. -/
def revive : EStateM Error (ObjectProxy T × Volume) T := do
  let (p, _) ← get
  let object ← onVolume (objectOf p.form)
  install (.live object)
  return object

instance : Spillable (ObjectProxy T) where
  serializer := serializer
  deviceBuffers := deviceBuffers
  size := size
  lastAccess := lastAccess
  setLastAccess time p := { p with lastAccess := time }
  attach p := { p with isAttached := true }
  isAttached := isAttached
  serialize := serialize
  snapshot? p := p.payload?.map (fun payload => (p.version, payload))
  replace := replace
  ownedFile? := ownedFile?
  isExplicit := isExplicit

/-- Serializing a live object puts its frames in its place. -/
theorem serialize_live {p : ObjectProxy T} {object : T} {frames : List Bytes} (v : Volume)
    (hp : p.form = .live object) (hf : DeviceObject.toFrames object = .ok frames) :
    (serialize Serializer.hostFamilies).run (p, v) = .ok ()
      (p.setForm (.serialized
        (.frames (.ofFrames .dask (DeviceObject.nbytes object) frames) frames)), v) := by
  have hs : p.serializer = none := by simp [serializer, payload?, hp]
  have ht : Serializer.hostFamilies.find? Serializer.isHost = some .dask := rfl
  simp [serialize, ht, EStateM.run, bind, EStateM.bind, get_apply, hs, onVolume, framesFor, hp, hf,
    pure, EStateM.pure, install_apply]

end ObjectProxy

end TieredStore
