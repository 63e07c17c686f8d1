import TieredStore.Bytes
import TieredStore.Error

/-!
# The container of a spill file

Frames are packed into one byte string: their number, the length of each, and then the frames
themselves. Numbers and lengths are words.

Main statement: unpacking what was packed gives the frames back, whatever follows them
(`unpack_pack_append`).
-/

namespace TieredStore

namespace Container

/-- The frames packed into one byte string. -/
def pack (frames : List Bytes) : Bytes :=
  Bytes.ofWords (frames.length :: frames.map List.length) ++ frames.flatten

/-- Pieces of the given lengths, cut off the front of `data` one after the other; `none` if
`data` ends too early. -/
def cut? : List Nat → Bytes → Option (List Bytes)
  | [], _ => some []
  | n :: lengths, data =>
    let front := data.take n
    if front.length = n then (cut? lengths (data.drop n)).map (front :: ·) else none

/-- The frames at the front of `data`, `none` if `data` ends before they do. -/
def unpack? (data : Bytes) : Option (List Bytes) :=
  match Bytes.splitWord? data with
  | none => none
  | some (count, data) =>
    match Bytes.splitWords? count data with
    | none => none
    | some (lengths, data) => cut? lengths data

/-- The error for a container that ends too early. -/
def truncated : Error := .deserialization "truncated spill file"

/-- The frames of a container. What follows the last frame is ignored. -/
def unpack (data : Bytes) : Except Error (List Bytes) :=
  match unpack? data with
  | none => .error truncated
  | some frames => .ok frames

theorem cut?_flatten_append (frames : List Bytes) (rest : Bytes) :
    cut? (frames.map List.length) (frames.flatten ++ rest) = some frames := by
  induction frames with
  | nil => rfl
  | cons f frames ih => simp [cut?, ih]

/-- Unpacking undoes packing, whatever follows the packed frames. -/
theorem unpack_pack_append (frames : List Bytes) (rest : Bytes) (hc : frames.length < 2 ^ 64)
    (hl : ∀ f ∈ frames, f.length < 2 ^ 64) : unpack (pack frames ++ rest) = .ok frames := by
  have hw := Bytes.splitWords?_ofWords_append (frames.map List.length) (frames.flatten ++ rest)
    (by simpa using hl)
  simp only [List.length_map] at hw
  have hp : pack frames ++ rest = Bytes.word frames.length
      ++ (Bytes.ofWords (frames.map List.length) ++ (frames.flatten ++ rest)) := by
    simp [pack, Bytes.ofWords]
  simp [unpack, unpack?, hp, Bytes.splitWord?_word_append _ _ hc, hw, cut?_flatten_append]

/-- The size of the container: a word for the count and one for each length, and the frames. -/
theorem length_pack (frames : List Bytes) :
    (pack frames).length = 8 * (frames.length + 1) + (frames.map List.length).sum := by
  simp [pack, List.length_flatten]

end Container

end TieredStore
