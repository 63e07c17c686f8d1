import TieredStore.Numerals

/-!
# Decimal numbers

Numbers as they are written: a sign, digits of which some stand after the point, and a power of
ten. The parts are read off the front of a text here; which of them must be there is for the format
to say.
-/

namespace TieredStore

/-- The number `± digits * 10 ^ (power - places)`, with the sign kept for zero too. -/
structure Decimal where
  /-- Whether a minus sign stands in front. -/
  negative : Bool
  /-- The digits without the point, as a number. -/
  digits : Nat
  /-- How many of the digits stand after the point. -/
  places : Nat
  /-- The power of ten that is written behind the digits. -/
  power : Int
  deriving DecidableEq

namespace Decimal

/-- The power of ten by which the digits count, taken without the point. -/
def exponent (d : Decimal) : Int := d.power - d.places

/-- The number that the digits before the point make up. -/
def whole (d : Decimal) : Nat := d.digits / 10 ^ d.places

/-- The number that a run of decimal digits stands for. -/
def ofDigits (digits : List Char) : Nat :=
  digits.foldl (fun n c => 10 * n + (c.toNat - '0'.toNat)) 0

/-- The digits at the front of a text and what follows them. -/
def splitDigits (cs : List Char) : List Char × List Char :=
  (cs.takeWhile Char.isDigit, cs.dropWhile Char.isDigit)

/-- The exponent at the front of a text: a letter `e` of either case, a sign if there is one, and
digits. `none` if the letter is there without digits, zero if there is no letter. -/
def splitExponent? : List Char → Option (Int × List Char)
  | [] => some (0, [])
  | c :: cs =>
    if c = 'e' ∨ c = 'E' then
      let (sign, cs) : Int × List Char :=
        match cs with
        | '-' :: cs => (-1, cs)
        | '+' :: cs => (1, cs)
        | cs => (1, cs)
      match splitDigits cs with
      | ([], _) => none
      | (digits, rest) => some (sign * ofDigits digits, rest)
    else some (0, c :: cs)

/-- The digits after the point, if a point stands at the front of a text; `none` if no digit
follows the point. -/
def splitFraction? : List Char → Option (List Char × List Char)
  | '.' :: cs =>
    match splitDigits cs with
    | ([], _) => none
    | (digits, rest) => some (digits, rest)
  | cs => some ([], cs)

/-- The number with the given digits before and after the point. -/
def ofParts (negative : Bool) (whole fraction : List Char) (power : Int) : Decimal :=
  ⟨negative, ofDigits (whole ++ fraction), fraction.length, power⟩

/-- The integer `n`. -/
def ofNat (n : Nat) : Decimal := ⟨false, n, 0, 0⟩

end Decimal

end TieredStore
