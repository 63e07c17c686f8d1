import TieredStore.Bytes
import TieredStore.Error
import TieredStore.Id

/-!
# Device objects

What the store needs to know of an object that lives on the device: the allocations that back it,
its size, and how it is turned into frames and back. `DeviceArray` is an array over named
allocations; arrays over the same allocations alias each other.

Main statement: an array is read back from its own frames (`DeviceArray.ofFrames_frames`).
-/

namespace TieredStore

/-- An object whose memory is on the device and that can be turned into frames and back. -/
class DeviceObject (T : Type) where
  /-- The allocations that back the object. -/
  deviceBuffers : T → List DeviceBuffer
  /-- The size of the object in bytes. -/
  nbytes : T → Nat
  /-- The object as frames. -/
  toFrames : T → Except Error (List Bytes)
  /-- The object that the frames describe. -/
  ofFrames : List Bytes → Except Error T
  /-- Tells objects apart when a value is walked. -/
  identity : T → UInt64

/-- An array over one or more device allocations. -/
structure DeviceArray where
  /-- The identity of the array itself; an alias has another one. -/
  objectId : UInt64
  /-- The allocations with their contents. The same allocation may occur more than once. -/
  buffers : List (BufferId × Bytes)
  deriving DecidableEq

namespace DeviceArray

/-- The content of a fresh allocation: octets that count up from its identity. -/
def fill (id : BufferId) (size : Nat) : Bytes :=
  (List.range size).map (fun i => UInt8.ofNat ((id.raw.toNat + i) % 251))

/-- An array over fresh allocations of the given identities and sizes. -/
def ofBuffers (objectId : UInt64) (buffers : List DeviceBuffer) : DeviceArray :=
  ⟨objectId, buffers.map (fun b => (b.id, fill b.id b.size))⟩

/-- Another array over the same allocations. -/
def withId (a : DeviceArray) (objectId : UInt64) : DeviceArray := { a with objectId }

/-- The allocations of an array, in order. -/
def deviceBuffers (a : DeviceArray) : List DeviceBuffer :=
  a.buffers.map (fun b => ⟨b.1, b.2.length⟩)

/-- The bytes of all allocations of an array. -/
def nbytes (a : DeviceArray) : Nat := (a.buffers.map (fun b => b.2.length)).sum

/-- A frame of metadata, which holds the identity of the array and of its allocations as words,
followed by the content of each allocation. -/
def frames (a : DeviceArray) : List Bytes :=
  Bytes.ofWords (a.objectId.toNat :: a.buffers.map (fun b => b.1.raw.toNat))
    :: a.buffers.map Prod.snd

/-- The error for a list without frames. -/
def missingMetadata : Error := .deserialization "missing metadata frame"

/-- The error for metadata of `size` bytes, which are not one or more words. -/
def badMetadata (size : Nat) : Error :=
  .deserialization ("bad metadata frame of " ++ toString size ++ " bytes")

/-- The error for metadata that does not go with the number of frames after it. -/
def wrongFrameCount (expected actual : Nat) : Error :=
  .deserialization
    ("expected " ++ toString expected ++ " data frames, got " ++ toString actual)

/-- The array whose frames are given. -/
def ofFrames : List Bytes → Except Error DeviceArray
  | [] => .error missingMetadata
  | metadata :: contents =>
    match Bytes.words? metadata with
    | some (object :: ids) =>
      if contents.length = ids.length then
        .ok ⟨UInt64.ofNat object, (ids.map (fun id => ⟨UInt64.ofNat id⟩)).zip contents⟩
      else .error (wrongFrameCount ids.length contents.length)
    | _ => .error (badMetadata metadata.length)

instance : DeviceObject DeviceArray where
  deviceBuffers := deviceBuffers
  nbytes := nbytes
  toFrames a := .ok a.frames
  ofFrames := ofFrames
  identity := objectId

/-- Reading an array back from its frames gives the array. -/
theorem ofFrames_frames (a : DeviceArray) : ofFrames a.frames = .ok a := by
  obtain ⟨object, buffers⟩ := a
  have hw : ∀ ns : List Nat, (∀ n ∈ ns, n < 2 ^ 64) →
      Bytes.words? (Bytes.ofWords ns) = some ns := by
    intro ns h
    have hl : (Bytes.ofWords ns).length = 8 * ns.length := Bytes.length_ofWords ns
    have := Bytes.splitWords?_ofWords_append ns [] h
    simp only [List.append_nil] at this
    simp [Bytes.words?, hl, this]
  have hn : ∀ n ∈ object.toNat :: buffers.map (fun b => b.1.raw.toNat), n < 2 ^ 64 := by
    simp only [List.mem_cons, List.mem_map, forall_eq_or_imp]
    refine ⟨object.toNat_lt, ?_⟩
    rintro n ⟨b, -, rfl⟩
    exact b.1.raw.toNat_lt
  simp only [frames, ofFrames, hw _ hn, List.length_map, if_true, UInt64.ofNat_toNat]
  congr 2
  rw [List.map_map, List.zip_map', List.map_congr_left (g := id), List.map_id]
  intro b _
  simp

end DeviceArray

end TieredStore
