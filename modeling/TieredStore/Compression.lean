import TieredStore.Error
import TieredStore.Gzip
import TieredStore.Tier

/-!
# Compressing frames

A frame of some size is compressed where that makes it shorter. Each frame has a codec of its own.

Main statement: what is marked as compressed is shorter than the frame (`length_shrink`).
-/

namespace TieredStore

namespace Compression

/-- Shorter frames are never worth compressing. -/
def leastSize : Nat := 1024

/-- The error for a frame that cannot be read back. -/
def corrupt : Error := .deserialization "Gzip decompression failed"

/-- A frame as it was before compression. -/
def restore (codec : Option Codec) (frame : Bytes) : Except Error Bytes :=
  match codec with
  | none => .ok frame
  | some .gzip =>
    match Gzip.decompress? frame with
    | some frame => .ok frame
    | none => .error corrupt

/-- The shorter form of a frame and how it is compressed, or the frame itself. -/
def shrink (frame : Bytes) : Option Codec × Bytes :=
  if frame.length < leastSize then (none, frame)
  else
    let packed := Gzip.compress frame
    if packed.length < frame.length then (some .gzip, packed) else (none, frame)

/-- What is marked as compressed is shorter than the frame. -/
theorem length_shrink (frame : Bytes) (h : (shrink frame).1.isSome) :
    (shrink frame).2.length < frame.length := by
  revert h
  unfold shrink
  split
  · simp
  · simp only
    split
    next hshorter => exact fun _ => hshorter
    next => simp

end Compression

end TieredStore
