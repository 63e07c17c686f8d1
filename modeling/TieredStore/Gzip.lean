import TieredStore.Gzip.Checksum
import TieredStore.Gzip.Deflate
import TieredStore.Gzip.Inflate

/-!
# Gzip members

A member is a header, compressed data, and the checksum and length of what it stands for. Only the
first member of a text is read, and what follows it is ignored.
-/

namespace TieredStore

namespace Gzip

/-- Optional parts of a header are refused if they are longer than this. -/
def maxHeaderPart : Nat := 65535

/-- A text that ends with a zero octet, at the front of `data`: what follows it. -/
def skipText? (data : Bytes) : Option Bytes :=
  let text := data.takeWhile (fun b => b ≠ 0)
  match data.dropWhile (fun b => b ≠ 0) with
  | _ :: rest => if text.length ≤ maxHeaderPart then some rest else none
  | [] => none

/-- A field with its length in two octets in front, at the front of `data`: what follows it. -/
def skipField? : Bytes → Option Bytes
  | a :: b :: data =>
    let length := Bytes.toNat [a, b]
    if length ≤ data.length then some (data.drop length) else none
  | _ => none

/-- An optional part of a header. -/
def skipIf (present : Bool) (skip? : Bytes → Option Bytes) (data : Bytes) : Option Bytes :=
  if present then skip? data else some data

/-- What follows the header at the front of `data`. The flags say which parts the header has: a
checksum of itself, a field, a name and a comment. -/
def skipHeader? (data : Bytes) : Option Bytes :=
  match data with
  | 0x1f :: 0x8b :: 8 :: flags :: _ :: _ :: _ :: _ :: _ :: _ :: rest => do
    if flags &&& 0xE0 ≠ 0 then none
    let rest ← skipIf (flags &&& 4 ≠ 0) skipField? rest
    let rest ← skipIf (flags &&& 8 ≠ 0) skipText? rest
    let rest ← skipIf (flags &&& 16 ≠ 0) skipText? rest
    if flags &&& 2 = 0 then some rest
    else
      let header := data.take (data.length - rest.length)
      match rest with
      | a :: b :: rest =>
        if Bytes.toNat [a, b] = (checksum header).toNat % 65536 then some rest else none
      | _ => none
  | _ => none

/-- What the first member of a text stands for, `none` if there is no proper member. -/
def decompress? (data : Bytes) : Option Bytes := do
  let compressed ← skipHeader? data
  let s ← inflate (bitsOf compressed)
  let trailer := bytesOfBits ((align s.bits).take 64)
  let output := s.output.toList
  let expected := Bytes.littleEndian 4 (checksum output).toNat
    ++ Bytes.littleEndian 4 (output.length % 2 ^ 32)
  if trailer = expected then some output else none

/-- A member that stands for `data`. -/
def compress (data : Bytes) : Bytes :=
  [0x1f, 0x8b, 8, 0, 0, 0, 0, 0, 4, 255] ++ deflate data
    ++ Bytes.littleEndian 4 (checksum data).toNat ++ Bytes.littleEndian 4 (data.length % 2 ^ 32)

end Gzip

end TieredStore
