/-!
# Tiers and serializers

A proxy's data lives in one of three tiers. Which one follows from the serializer that holds the
data: live objects and the device's own serialization stay on the device, the two host families in
process memory, and spilled frames on disk.
-/

namespace TieredStore

/-- Where a proxy's data lives. -/
inductive Tier where
  /-- Accelerator memory. -/
  | device
  /-- Process memory. -/
  | host
  /-- Spill files. -/
  | disk
  deriving DecidableEq

/-- The family of serialization that holds a proxy's data. -/
inductive Serializer where
  /-- The device's own serialization; the data stays in device memory. -/
  | cuda
  /-- Host frames of the default serializer. -/
  | dask
  /-- Host frames of the fallback serializer. -/
  | pickle
  /-- Frames in a spill file. -/
  | disk
  deriving DecidableEq

/-- How a single frame is compressed. -/
inductive Codec where
  /-- One gzip member. -/
  | gzip
  deriving DecidableEq

namespace Serializer

/-- Whether the family keeps its data in host memory. -/
def isHost : Serializer → Bool
  | dask | pickle => true
  | cuda | disk => false

/-- The families that data may take when it leaves the device, in order of preference. -/
def hostFamilies : List Serializer := [dask, pickle]

/-- The name of a family in headers. -/
def name : Serializer → String
  | cuda => "cuda"
  | dask => "dask"
  | pickle => "pickle"
  | disk => "disk"

/-- The name of a family in messages. -/
def title : Serializer → String
  | cuda => "Cuda"
  | dask => "Dask"
  | pickle => "Pickle"
  | disk => "Disk"

/-- All families. -/
def all : List Serializer := [cuda, dask, pickle, disk]

/-- A list of families in messages. -/
def describeList (tags : List Serializer) : String :=
  "[" ++ ", ".intercalate (tags.map title) ++ "]"

/-- The serializer of a proxy in messages; a live proxy has none. -/
def describeOption : Option Serializer → String
  | none => "None"
  | some tag => "Some(" ++ tag.title ++ ")"

end Serializer

namespace Tier

/-- All tiers, the slowest first. -/
def all : List Tier := [disk, host, device]

/-- The tier of a proxy whose data is held by `serializer`; `none` is a live object. -/
def ofSerializer : Option Serializer → Tier
  | some .disk => disk
  | some .dask | some .pickle => host
  | some .cuda | none => device

/-- The short name of a tier, as listings show it. -/
def label : Tier → String
  | device => "dev"
  | host => "host"
  | disk => "disk"

/-- The name of a tier in stored texts. -/
def name : Tier → String
  | device => "device"
  | host => "host"
  | disk => "disk"

/-- The name of a tier in messages. -/
def title : Tier → String
  | device => "Device"
  | host => "Host"
  | disk => "Disk"

end Tier

namespace Codec

/-- The name of a codec in headers. -/
def name : Codec → String
  | gzip => "gzip"

end Codec

end TieredStore
