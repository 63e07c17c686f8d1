import TieredStore.Gzip.BitReader

/-!
# Canonical prefix codes

A code is given by the length of each symbol's code word. Code words of one length follow one
another in the order of the symbols, and shorter ones come first.
-/

namespace TieredStore

namespace Gzip

/-- A canonical prefix code. -/
structure PrefixCode where
  /-- How many symbols have a code word of one bit, of two bits, and so on. -/
  counts : List Nat
  /-- The symbols in the order of their code words. -/
  symbols : Array Nat

namespace PrefixCode

/-- No code word is longer than this. -/
def maxLength : Nat := 15

/-- The code whose `i`-th symbol has a code word of the `i`-th length; zero is for a symbol that
does not occur. -/
def ofLengths (lengths : List Nat) : PrefixCode :=
  let perLength := (List.range maxLength).map fun k =>
    (lengths.zipIdx.filter (fun e => e.1 = k + 1)).map Prod.snd
  { counts := perLength.map List.length, symbols := perLength.flatten.toArray }

/-- The number of symbols that occur. -/
def size (code : PrefixCode) : Nat := code.symbols.size

/-- Whether every long enough bit sequence starts with a code word, and with only one. -/
def isComplete (code : PrefixCode) : Bool :=
  (code.counts.zipIdx.map (fun e => e.1 * 2 ^ (maxLength - 1 - e.2))).sum == 2 ^ maxLength

/-- Looks for the code word at the front of `bits` among the lengths that `counts` is for. `value`
is the number made of the bits so far, `first` the first code word of the length, and `index` the
place of its symbol. -/
def decodeFrom (symbols : Array Nat) : List Nat → Nat → Nat → Nat → List Bool →
    Option (Nat × List Bool)
  | [], _, _, _, _ => none
  | _ :: _, _, _, _, [] => none
  | count :: counts, value, first, index, b :: bits =>
    let value := 2 * value + b.toNat
    let first := 2 * first
    if value < first + count then
      match symbols[index + (value - first)]? with
      | some symbol => some (symbol, bits)
      | none => none
    else decodeFrom symbols counts value (first + count) (index + count) bits

/-- The symbol at the front of `bits` and what follows its code word. -/
def decode? (code : PrefixCode) (bits : List Bool) : Option (Nat × List Bool) :=
  decodeFrom code.symbols code.counts 0 0 0 bits

end PrefixCode

end Gzip

end TieredStore
