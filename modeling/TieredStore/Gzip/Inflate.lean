import TieredStore.Gzip.PrefixCode
import TieredStore.Gzip.Token

/-!
# Inflating

Compressed data is a sequence of blocks: octets as they are, or literals and copies of earlier
output under prefix codes, which are fixed or given in the block.

The rules are strict about codes: one that is given in a block must be complete, unless it has no
symbol, or a single one with a code word of one bit, and is not the code for the lengths of other
codes. Data that ends early is refused. Copies may reach back further than the start of the output,
as if zeros stood in front of it; the checksum behind the data tells whether they should have.
-/

namespace TieredStore

namespace Gzip

/-- The output so far and the bits that are still to be read. -/
structure InflateState where
  /-- The output so far. -/
  output : Array UInt8
  /-- The bits that are still to be read. -/
  bits : List Bool

/-- The shortest copy for each length symbol, and the number of bits that are added to it. -/
def lengthTable : Array (Nat × Nat) :=
  #[(3, 0), (4, 0), (5, 0), (6, 0), (7, 0), (8, 0), (9, 0), (10, 0), (11, 1), (13, 1), (15, 1),
    (17, 1), (19, 2), (23, 2), (27, 2), (31, 2), (35, 3), (43, 3), (51, 3), (59, 3), (67, 4),
    (83, 4), (99, 4), (115, 4), (131, 5), (163, 5), (195, 5), (227, 5), (258, 0)]

/-- The least distance for each distance symbol, and the number of bits that are added to it. -/
def distanceTable : Array (Nat × Nat) :=
  #[(1, 0), (2, 0), (3, 0), (4, 0), (5, 1), (7, 1), (9, 2), (13, 2), (17, 3), (25, 3), (33, 4),
    (49, 4), (65, 5), (97, 5), (129, 6), (193, 6), (257, 7), (385, 7), (513, 8), (769, 8),
    (1025, 9), (1537, 9), (2049, 10), (3073, 10), (4097, 11), (6145, 11), (8193, 12), (12289, 12),
    (16385, 13), (24577, 13)]

/-- The lengths of the fixed code for literals and lengths. -/
def fixedLiteralLengths : List Nat :=
  List.replicate 144 8 ++ List.replicate 112 9 ++ List.replicate 24 7 ++ List.replicate 8 8

/-- The fixed code for literals and lengths. -/
def fixedLiteralCode : PrefixCode := .ofLengths fixedLiteralLengths

/-- The fixed code for distances. -/
def fixedDistanceCode : PrefixCode := .ofLengths (List.replicate 32 5)

/-- The order in which the lengths of the code for code lengths are given. -/
def codeLengthOrder : List Nat := [16, 17, 18, 0, 8, 7, 9, 6, 10, 5, 11, 4, 12, 3, 13, 2, 14, 1, 15]

/-- A number from a table of least values and widths, whose added bits are read. -/
def readExtra? (table : Array (Nat × Nat)) (symbol : Nat) (bits : List Bool) :
    Option (Nat × List Bool) :=
  match table[symbol]? with
  | none => none
  | some (least, width) =>
    match splitBits? width bits with
    | none => none
    | some (extra, bits) => some (least + extra, bits)

/-- The symbol that ends a block. Those before it are octets, and those behind it are lengths. -/
def endOfBlock : Nat := 256

/-- The copy whose length has a given place in its table. -/
def readCopy? (distances : PrefixCode) (place : Nat) (bits : List Bool) :
    Option (Token × List Bool) :=
  match readExtra? lengthTable place bits with
  | none => none
  | some (length, bits) =>
    match distances.decode? bits with
    | none => none
    | some (place, bits) =>
      (readExtra? distanceTable place bits).map fun (distance, bits) =>
        (.copy length distance, bits)

/-- The part at the front of some bits, where the end of the block is no part. -/
def readToken? (literals distances : PrefixCode) (bits : List Bool) :
    Option (Option Token × List Bool) :=
  match literals.decode? bits with
  | none => none
  | some (symbol, bits) =>
    if symbol < endOfBlock then some (some (.literal (UInt8.ofNat symbol)), bits)
    else if symbol = endOfBlock then some (none, bits)
    else
      (readCopy? distances (symbol - (endOfBlock + 1)) bits).map fun (token, bits) =>
        (some token, bits)

/-- A block under the given codes. Each step reads at least one bit, and the bound on the number
of steps is for the recursion only. -/
def inflateCoded (literals distances : PrefixCode) : Nat → InflateState → Option InflateState
  | 0, _ => none
  | bound + 1, ⟨output, bits⟩ =>
    match readToken? literals distances bits with
    | none => none
    | some (none, bits) => some ⟨output, bits⟩
    | some (some token, bits) => inflateCoded literals distances bound ⟨token.expand output, bits⟩

/-- A block of octets as they are: their number, its complement, and the octets, all from the next
boundary of octets on. -/
def inflateStored (s : InflateState) : Option InflateState :=
  match splitBits? 16 (align s.bits) with
  | none => none
  | some (length, bits) =>
    match splitBits? 16 bits with
    | none => none
    | some (complement, bits) =>
      let content := bits.take (8 * length)
      if length + complement = 65535 ∧ content.length = 8 * length then
        some ⟨s.output ++ (bytesOfBits content).toArray, bits.drop (8 * length)⟩
      else none

/-- The lengths of the code for code lengths: the first `count` in their peculiar order are given
by three bits each, the others are zero. -/
def readCodeLengthCode? (count : Nat) (bits : List Bool) : Option (PrefixCode × List Bool) :=
  match (codeLengthOrder.take count).foldlM
      (fun (given, bits) symbol =>
        (splitBits? 3 bits).map (fun (length, bits) => ((symbol, length) :: given, bits)))
      (([] : List (Nat × Nat)), bits) with
  | none => none
  | some (given, bits) =>
    let code := PrefixCode.ofLengths ((List.range 19).map (fun s => (given.lookup s).getD 0))
    if code.isComplete then some (code, bits) else none

/-- The length that a symbol of the code for code lengths stands for, and how many times. The
symbols from 16 on repeat the last one of the lengths before, or zero. -/
def readRun? (before : List Nat) (symbol : Nat) (bits : List Bool) :
    Option (Nat × Nat × List Bool) :=
  if symbol < 16 then some (symbol, 1, bits)
  else if symbol = 16 then
    match before, splitBits? 2 bits with
    | last :: _, some (n, bits) => some (last, 3 + n, bits)
    | _, _ => none
  else if symbol = 17 then (splitBits? 3 bits).map (fun (n, bits) => (0, 3 + n, bits))
  else (splitBits? 7 bits).map (fun (n, bits) => (0, 11 + n, bits))

/-- Reads `missing` more code lengths. The lengths read so far come with the last one in front. -/
def readLengths? (code : PrefixCode) : Nat → Nat → List Nat → List Bool →
    Option (List Nat × List Bool)
  | 0, _, _, _ => none
  | bound + 1, missing, lengths, bits =>
    if missing = 0 then some (lengths.reverse, bits)
    else
      match code.decode? bits with
      | none => none
      | some (symbol, bits) =>
        match readRun? lengths symbol bits with
        | none => none
        | some (length, times, bits) =>
          if missing < times then none
          else
            readLengths? code bound (missing - times) (List.replicate times length ++ lengths) bits

/-- Whether a code may be given in a block: it is complete, has no symbol, or has a single one with
a code word of one bit. -/
def isUsable (code : PrefixCode) : Bool :=
  code.isComplete || code.size = 0 || (code.size = 1 && code.counts.head? == some 1)

/-- The codes that are given at the start of a block, and what follows them. -/
def readCodes? (bits : List Bool) : Option (PrefixCode × PrefixCode × List Bool) := do
  let (literalCount, bits) ← splitBits? 5 bits
  let (distanceCount, bits) ← splitBits? 5 bits
  let (codeLengthCount, bits) ← splitBits? 4 bits
  let literalCount := literalCount + 257
  let distanceCount := distanceCount + 1
  if 286 < literalCount ∨ 30 < distanceCount then none
  let (code, bits) ← readCodeLengthCode? (codeLengthCount + 4) bits
  let total := literalCount + distanceCount
  let (lengths, bits) ← readLengths? code (total + 1) total [] bits
  let literals := PrefixCode.ofLengths (lengths.take literalCount)
  let distances := PrefixCode.ofLengths (lengths.drop literalCount)
  if isUsable literals && isUsable distances then some (literals, distances, bits) else none

/-- One block after its final flag. -/
def inflateBlock (s : InflateState) : Option InflateState :=
  match splitBits? 2 s.bits with
  | some (0, bits) => inflateStored ⟨s.output, bits⟩
  | some (1, bits) =>
    inflateCoded fixedLiteralCode fixedDistanceCode (bits.length + 1) ⟨s.output, bits⟩
  | some (2, bits) =>
    match readCodes? bits with
    | none => none
    | some (literals, distances, bits) =>
      inflateCoded literals distances (bits.length + 1) ⟨s.output, bits⟩
  | _ => none

/-- Blocks up to the one that is marked as final. -/
def inflateBlocks : Nat → InflateState → Option InflateState
  | 0, _ => none
  | _ + 1, ⟨_, []⟩ => none
  | bound + 1, ⟨output, isFinal :: bits⟩ =>
    match inflateBlock ⟨output, bits⟩ with
    | none => none
    | some s => if isFinal then some s else inflateBlocks bound s

/-- The output of compressed data, and the bits that follow it. -/
def inflate (bits : List Bool) : Option InflateState :=
  inflateBlocks (bits.length + 1) ⟨#[], bits⟩

end Gzip

end TieredStore
