import TieredStore.Frame
import TieredStore.Json.Decode

/-!
# Headers as JSON

The stored form of tags and headers.
-/

namespace TieredStore

/-- A serializer, by its name. -/
def Serializer.ofJson? : Json → Option Serializer := Json.tag? Serializer.all Serializer.name

/-- A tier, by its name. -/
def Tier.ofJson? : Json → Option Tier := Json.tag? Tier.all Tier.name

/-- A codec, by its name. -/
def Codec.ofJson? : Json → Option Codec := Json.tag? [Codec.gzip] Codec.name

/-- A path, written as its text. -/
def Path.ofJson? (j : Json) : Option Path := j.text?.map Path.mk

namespace FrameHeader

/-- The stored form of a header. -/
def toJson (h : FrameHeader) : Json :=
  Json.ofFields [
    ("serializer", Json.ofString h.serializer.name),
    ("nbytes", Json.ofNat h.nbytes),
    ("compression", .array (h.compression.map (fun
      | none => .null
      | some codec => Json.ofString codec.name))),
    ("count", Json.ofNat h.count)]

/-- The header that a stored form describes. The list of compressions may be left out. -/
def ofJson? (j : Json) : Option FrameHeader :=
  match j.record? ["serializer", "nbytes", "compression", "count"] with
  | some [serializer, nbytes, compression, count] => do
    let serializer ← Json.required? Serializer.ofJson? serializer
    let nbytes ← Json.required? Json.word? nbytes
    let compression ← Json.withDefault? [] (Json.list? (Json.optional? Codec.ofJson?)) compression
    let count ← Json.required? Json.word? count
    some ⟨serializer, nbytes, compression, count⟩
  | _ => none

end FrameHeader

namespace DiskHeader

/-- The stored form of a header. -/
def toJson (h : DiskHeader) : Json :=
  Json.ofFields [
    ("serializer", Json.ofString h.serializer.name),
    ("path", Json.ofString h.path.text),
    ("shared-filesystem", .bool h.sharedFilesystem),
    ("disk-sub-header", h.subHeader.toJson),
    ("size", Json.ofNat h.size)]

/-- The header that a stored form describes. -/
def ofJson? (j : Json) : Option DiskHeader :=
  match j.record? ["serializer", "path", "shared-filesystem", "disk-sub-header", "size"] with
  | some [serializer, path, shared, subHeader, size] => do
    let serializer ← Json.required? Serializer.ofJson? serializer
    let path ← Json.required? Path.ofJson? path
    let shared ← Json.required? Json.bool? shared
    let subHeader ← Json.required? FrameHeader.ofJson? subHeader
    let size ← Json.required? Json.word? size
    some ⟨serializer, path, shared, subHeader, size⟩
  | _ => none

end DiskHeader

end TieredStore
