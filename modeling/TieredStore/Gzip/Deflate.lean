import TieredStore.Gzip.CodeLengths
import TieredStore.Gzip.Inflate
import TieredStore.Gzip.Repetition

/-!
# Deflating

A quick compressor. The parts of the data are gathered into blocks, and each block is written under
codes made for it, under the fixed codes if it is very short, or as it is if codes do not make
it shorter.
-/

namespace TieredStore

namespace Gzip

/-- The code words of the symbols below `size`. -/
def PrefixCode.words (code : PrefixCode) (size : Nat) : Array (List Bool) :=
  (code.symbols.toList.zip (wordsFrom 1 0 code.counts)).foldl
    (fun words e => words.setIfInBounds e.1 e.2) (Array.replicate size [])
where
  /-- The code words from those of `length` bits on, of which `first` is the first one. -/
  wordsFrom (length first : Nat) : List Nat → List (List Bool)
    | [] => []
    | count :: counts =>
      (List.range count).map (fun k => (bitsOfNat length (first + k)).reverse)
        ++ wordsFrom (length + 1) (2 * (first + count)) counts

/-- The code words of a code given by its lengths. -/
def wordsOf (lengths : List Nat) : Array (List Bool) :=
  (PrefixCode.ofLengths lengths).words lengths.length

/-- The place in a table of least values for a number, and the bits that are added. -/
def extraOf (table : Array (Nat × Nat)) (n : Nat) : Nat × List Bool :=
  let place := (table.toList.takeWhile (fun e => e.1 ≤ n)).length - 1
  let (least, width) := table.getD place (0, 0)
  (place, bitsOfNat width (n - least))

/-- The number of symbols for literals and lengths, of which the first 257 are always mentioned. -/
def literalSymbols : Nat := 286

/-- The number of symbols for distances. -/
def distanceSymbols : Nat := 30

/-- How the parts of the data are written. -/
structure BlockCode where
  /-- The code words for literals and lengths. -/
  literals : Array (List Bool)
  /-- The code words for distances. -/
  distances : Array (List Bool)

namespace BlockCode

/-- The fixed codes. -/
def fixed : BlockCode where
  literals := wordsOf fixedLiteralLengths
  distances := wordsOf (List.replicate 32 5)

/-- One part of the data. -/
def token (code : BlockCode) : Token → List Bool
  | .literal b => code.literals.getD b.toNat []
  | .copy length distance =>
    let (symbol, extra) := extraOf lengthTable length
    let (place, more) := extraOf distanceTable distance
    code.literals.getD (endOfBlock + 1 + symbol) [] ++ extra ++ code.distances.getD place [] ++ more

/-- The parts of a block and its end. -/
def content (code : BlockCode) (tokens : List Token) : List Bool :=
  tokens.flatMap code.token ++ code.literals.getD endOfBlock []

end BlockCode

/-- One more part, counted among the symbols for literals and lengths and among those for
distances. -/
def countToken (counts : Array Nat × Array Nat) : Token → Array Nat × Array Nat
  | .literal b => (counts.1.modify b.toNat (· + 1), counts.2)
  | .copy length distance =>
    (counts.1.modify (endOfBlock + 1 + (extraOf lengthTable length).1) (· + 1),
      counts.2.modify (extraOf distanceTable distance).1 (· + 1))

/-- How often the symbols for literals and lengths, and those for distances, occur in a block. -/
def occurrences (tokens : List Token) : List Nat × List Nat :=
  let (literals, distances) := tokens.foldl countToken
    ((Array.replicate literalSymbols 0).setIfInBounds endOfBlock 1,
      Array.replicate distanceSymbols 0)
  (literals.toList, distances.toList)

/-- Lengths without the zeros at their end, except that `least` of them are kept. -/
def trim (least : Nat) (lengths : List Nat) : List Nat :=
  lengths.take (max least (lengths.reverse.dropWhile (· == 0)).length)

/-- The codes of a block as they are given at its start. -/
def givenCodes (literals distances : List Nat) : List Bool :=
  let spelled := spellLengths (literals ++ distances)
  let counts := (List.range 19).map (fun symbol => spelled.countP (fun e => e.1 == symbol))
  let lengths := codeLengths 7 counts
  let words := wordsOf lengths
  let ordered := trim 4 (codeLengthOrder.map (fun symbol => lengths.getD symbol 0))
  bitsOfNat 5 (literals.length - 257) ++ bitsOfNat 5 (distances.length - 1)
    ++ bitsOfNat 4 (ordered.length - 4) ++ ordered.flatMap (bitsOfNat 3)
    ++ spelled.flatMap (fun e => words.getD e.1 [] ++ e.2)

/-- The parts of a block under codes that are made for it, after its final flag. -/
def madeCoded (tokens : List Token) : List Bool :=
  let (literals, distances) := occurrences tokens
  let literals := codeLengths PrefixCode.maxLength literals
  let distances := codeLengths PrefixCode.maxLength distances
  false :: true :: (givenCodes (trim 257 literals) (trim 1 distances)
    ++ BlockCode.content ⟨wordsOf literals, wordsOf distances⟩ tokens)

/-- The parts of a block under the fixed codes, after its final flag. -/
def fixedCoded (tokens : List Token) : List Bool :=
  true :: false :: BlockCode.fixed.content tokens

/-- Octets as they are, after the final flag of a block and `offset` bits in all. -/
def stored (offset : Nat) (octets : Bytes) : List Bool :=
  let padding := (8 - (offset + 2) % 8) % 8
  List.replicate (2 + padding) false ++ bitsOfNat 16 octets.length
    ++ bitsOfNat 16 (65535 - octets.length) ++ bitsOf octets

/-- A block after `offset` bits, whose parts stand for `octets`. It can be stored as it is only if
`isAtHand` says that the octets are still remembered. -/
def block (isFinal isAtHand : Bool) (offset : Nat) (octets : Bytes) (tokens : List Token) :
    List Bool :=
  let offset := offset + 1
  let coded := if octets.length < 48 then fixedCoded tokens else madeCoded tokens
  let isLonger := octets.length ≤ (offset + coded.length) / 8 - offset / 8 + 1
  isFinal :: if 32 < octets.length ∧ isAtHand ∧ isLonger then stored offset octets else coded

/-- The size of the buffer that written octets are taken from. -/
def bufferSize : Nat := 32768

/-- Where the writing of blocks stands. -/
structure Progress where
  /-- The window that is looked at. -/
  window : Window
  /-- How far the data was looked at. -/
  scan : Scan
  /-- The number of bits written. -/
  offset : Nat
  /-- The octets for which there is room in the buffer. -/
  room : Nat

namespace Progress

/-- Before anything is written. -/
def start (size : Nat) : Progress := ⟨.ofStart size 0 0, .start, 0, bufferSize⟩

/-- Looks for repetitions to the end of the window, or until the block is full. -/
def search (data : Array UInt8) (p : Progress) : Progress :=
  { p with scan := p.scan.tokenize data p.window }

/-- Goes on to the window at the present position. When less than a whole window is left to be read,
the buffer is emptied before it is looked at; until then there is the given room. -/
def advance (size room : Nat) (p : Progress) : Progress :=
  let next := p.window.next size p.scan.position
  let isLast : Bool := p.window.stop < next.stop && next.stop < next.start + windowSize
  { p with window := next, room := if isLast then bufferSize else room }

/-- The bits of the block that was gathered. -/
def blockBits (data : Array UInt8) (isFinal : Bool) (p : Progress) : List Bool :=
  let g := p.scan.block
  let stop := p.scan.position
  let isAtHand : Bool := g.span ≤ p.window.reach stop
  block isFinal isAtHand p.offset (data.extract (stop - g.span) stop).toList g.tokens.reverse

/-- After the block that was gathered is written in `width` bits. If the buffer has no room for its
whole octets, the window ends early, and the next one is looked at once the rest went into an
emptied buffer. -/
def afterBlock (size width : Nat) (p : Progress) : Progress :=
  let octets := (p.offset + width) / 8 - p.offset / 8
  let p := { p with scan := { p.scan with block := .empty }, offset := p.offset + width }
  if octets ≤ p.room then { p with room := p.room - octets }
  else p.advance size (bufferSize - (octets - p.room) % bufferSize)

end Progress

/-- The blocks from here on. Each step writes a block or goes to another window, and the bound on
the number of steps is for the recursion only. -/
def blocksFrom (data : Array UInt8) : Nat → Progress → List Bool
  | 0, _ => []
  | bound + 1, p =>
    let p := p.search data
    if p.scan.block.isFull then
      let bits := p.blockBits data false
      bits ++ blocksFrom data bound (p.afterBlock data.size bits.length)
    else if p.scan.position < data.size then
      blocksFrom data bound (p.advance data.size p.room)
    else p.blockBits data true

/-- Compressed data for a byte string, filled up to whole octets. -/
def deflate (data : Bytes) : Bytes :=
  let data := data.toArray
  let bits := blocksFrom data (2 * data.size + 3) (.start data.size)
  bytesOfBits (bits ++ List.replicate ((8 - bits.length % 8) % 8) false)

end Gzip

end TieredStore
