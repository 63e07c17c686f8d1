import TieredStore.Container

/-!
# Containers read by positions

`Container.unpack` takes a container apart from its front. The reader below stays with the whole
data and computes positions in it: the table of lengths is at position `8`, the frames are behind
the table. Positions are machine words, so a sum or a product of positions can leave their range,
and a piece of the data can be asked for that the data does not have. Such a fault is not an error
that the caller gets: nothing recovers from it. Memory for the pieces is taken to be there.
-/

namespace TieredStore

/-- What ends a computation with positions without an answer. -/
inductive Fault where
  /-- A sum or a product of positions that is not a machine word. -/
  | overflow
  /-- A piece of the data beyond its end. -/
  | outOfRange
deriving DecidableEq, Repr

namespace Container

/-- A computation with positions. It ends in a fault, or it refuses the data, or it gives a
result. -/
abbrev Positional (α : Type) := ExceptT Error (Except Fault) α

/-- A computed position. -/
def position (n : Nat) : Positional Nat :=
  if n < 2 ^ 64 then pure n else throwThe Fault .overflow

/-- The octets of `data` from `start` on, before `stop`; `none` if `data` does not have them. -/
def piece? (data : Bytes) (start stop : Nat) : Option Bytes :=
  if start ≤ stop ∧ stop ≤ data.length then some ((data.drop start).take (stop - start)) else none

/-- The word at a position. Data that ends before the word does is refused. -/
def wordAt (data : Bytes) (offset : Nat) : Positional Nat := do
  let stop ← position (offset + 8)
  match piece? data offset stop with
  | none => throw truncated
  | some octets =>
    if octets.length = 8 then return Bytes.toNat octets else throwThe Fault .outOfRange

/-- `n` entries of the table of lengths, from the `i`-th on. -/
def lengthsFrom (data : Bytes) : (i n : Nat) → Positional (List Nat)
  | _, 0 => return []
  | i, n + 1 => do
    let next ← position (i + 1)
    let offset ← position (8 * next)
    let length ← wordAt data offset
    let lengths ← lengthsFrom data next n
    return length :: lengths

/-- Frames of the given lengths, from a position on. Only the sum of a position and a length is
checked before it is formed. -/
def framesFrom (data : Bytes) : (offset : Nat) → (lengths : List Nat) → Positional (List Bytes)
  | _, [] => return []
  | offset, n :: lengths => do
    let stop := offset + n
    if stop ≥ 2 ^ 64 then throw truncated
    if stop > data.length then throw truncated
    match piece? data offset stop with
    | none => throwThe Fault .outOfRange
    | some frame =>
      let frames ← framesFrom data stop lengths
      return frame :: frames

/-- The frames of a container. The position behind the table is computed from the count, whatever
number the data gives for it. -/
def unpackAt (data : Bytes) : Positional (List Bytes) := do
  let count ← wordAt data 0
  let lengths ← lengthsFrom data 0 count
  let next ← position (count + 1)
  let offset ← position (8 * next)
  framesFrom data offset lengths

end Container

end TieredStore
