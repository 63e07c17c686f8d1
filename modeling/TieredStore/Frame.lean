import TieredStore.Bytes
import TieredStore.Path
import TieredStore.Tier

/-!
# Frames and their headers

Serialized data is a list of frames under a header. The frames are held in memory or packed into a
spill file; a `Payload` is either of the two.
-/

namespace TieredStore

/-- Describes a list of serialized frames. -/
structure FrameHeader where
  /-- The family that produced the frames. -/
  serializer : Serializer
  /-- The size of the object once it is read back. -/
  nbytes : Nat
  /-- The compression of each frame, `none` for a raw frame. -/
  compression : List (Option Codec)
  /-- The number of frames. -/
  count : Nat
  deriving DecidableEq

/-- Describes a proxy whose frames are in a spill file. -/
structure DiskHeader where
  /-- The family of the payload as a whole; spill files carry `Serializer.disk`. -/
  serializer : Serializer
  /-- Where the spill file is. -/
  path : Path
  /-- Whether the file is on a file system that several workers share. -/
  sharedFilesystem : Bool
  /-- The header of the frames in the file. -/
  subHeader : FrameHeader
  /-- The number of bytes that were written to the file. -/
  size : Nat
  deriving DecidableEq

/-- The serialized form of a proxy's data. -/
inductive Payload where
  /-- Frames held in host memory. -/
  | frames (header : FrameHeader) (content : List Bytes)
  /-- Frames written to a spill file. -/
  | disk (header : DiskHeader)
  deriving DecidableEq

namespace FrameHeader

/-- The header of raw frames of an object of `nbytes` bytes. -/
def ofFrames (serializer : Serializer) (nbytes : Nat) (frames : List Bytes) : FrameHeader where
  serializer
  nbytes
  compression := frames.map (fun _ => none)
  count := frames.length

/-- Whether some frame is compressed. -/
def isCompressed (h : FrameHeader) : Bool := h.compression.any Option.isSome

end FrameHeader

namespace Payload

/-- The family recorded in the header. -/
def serializer : Payload → Serializer
  | frames header _ => header.serializer
  | disk header => header.serializer

/-- The size of the object once it is read back. -/
def nbytes : Payload → Nat
  | frames header _ => header.nbytes
  | disk header => header.subHeader.nbytes

/-- The bytes that the payload occupies where it is. -/
def footprint : Payload → Nat
  | frames _ content => (content.map List.length).sum
  | disk header => header.size

end Payload

end TieredStore
