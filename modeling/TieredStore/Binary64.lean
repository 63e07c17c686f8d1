import TieredStore.Decimal

/-!
# Binary floating-point numbers

The numbers of the binary format with 53 bits of precision, with their exact values. A decimal is
read as the nearest of them, and one of them is written with the fewest digits that are read back
as the same number.
-/

namespace TieredStore

/-- A binary floating-point number. The value of a finite one is `± mantissa * 2 ^ exponent`. -/
inductive Binary64 where
  /-- A finite number. -/
  | finite (negative : Bool) (mantissa : Nat) (exponent : Int)
  /-- A number beyond all finite ones. -/
  | infinite (negative : Bool)
  /-- Not a number. -/
  | nan
  deriving DecidableEq

namespace Binary64

/-- The least exponent of a finite number. -/
def leastExponent : Int := -1074

/-- Zero. -/
def zero (negative : Bool) : Binary64 := finite negative 0 leastExponent

/-- The quotient, rounded to the nearest integer. A tie goes to the even neighbour. -/
def roundDivEven (num den : Nat) : Nat :=
  let q := num / den
  let r := num % den
  if 2 * r > den ∨ (2 * r = den ∧ q % 2 = 1) then q + 1 else q

/-- The quotient, rounded to the nearest integer. A tie goes up. -/
def roundDivUp (num den : Nat) : Nat := (2 * num + den) / (2 * den)

/-- The largest `e` with `2 ^ e ≤ num / den`. -/
def floorLog2 (num den : Nat) : Int :=
  let e : Int := (num.log2 : Int) - den.log2
  if den * 2 ^ e.toNat ≤ num * 2 ^ (-e).toNat then e else e - 1

/-- The number nearest to `num / den`. -/
def ofRatio (negative : Bool) (num den : Nat) : Binary64 :=
  if num = 0 then zero negative
  else
    let q := max (floorLog2 num den - 52) leastExponent
    let m := roundDivEven (num * 2 ^ (-q).toNat) (den * 2 ^ q.toNat)
    let (m, q) := if m = 2 ^ 53 then (2 ^ 52, q + 1) else (m, q)
    if q > 971 then infinite negative else finite negative m q

/-- The number nearest to a decimal. Decimals with an exponent out of all proportion are decided by
their number of digits. -/
def ofDecimal (d : Decimal) : Binary64 :=
  let magnitude : Int := (Nat.toDigits 10 d.digits).length + d.exponent
  if d.digits = 0 ∨ magnitude < -400 then zero d.negative
  else if magnitude > 400 then infinite d.negative
  else ofRatio d.negative (d.digits * 10 ^ d.exponent.toNat) (10 ^ (-d.exponent).toNat)

/-- A finite number times the quotient of two positive integers, rounded once. -/
def scale (x : Binary64) (num den : Nat) : Binary64 :=
  match x with
  | finite negative m q => ofRatio negative (m * 2 ^ q.toNat * num) (2 ^ (-q).toNat * den)
  | x => x

/-- A power of ten that is not too large, as the numerator and denominator of the number nearest to
it. -/
def powerOfTen (k : Nat) : Nat × Nat :=
  match ofRatio false (10 ^ k) 1 with
  | finite _ m q => (m * 2 ^ q.toNat, 2 ^ (-q).toNat)
  | _ => (1, 1)

/-- The largest power of ten that is a finite number. -/
def maxPowerOfTen : Nat := 308

/-- A finite number times a power of ten that is rounded first; `none` if the product is not
finite. A power that is too small is divided by in parts, of which `parts` are tried before the
number is taken for zero. -/
def shift? (x : Binary64) (exponent : Int) : Nat → Option Binary64
  | 0 => some x
  | parts + 1 =>
    if exponent.natAbs ≤ maxPowerOfTen then
      let (num, den) := powerOfTen exponent.natAbs
      match if 0 ≤ exponent then x.scale num den else x.scale den num with
      | finite negative m q => some (finite negative m q)
      | _ => none
    else
      match x with
      | finite _ 0 _ => some x
      | _ =>
        if 0 ≤ exponent then none
        else
          let (num, den) := powerOfTen maxPowerOfTen
          shift? (x.scale den num) (exponent + maxPowerOfTen) parts

/-- The digits at the front of a number that make up at most `most`, with the number of digits
behind them. -/
def leadingDigits (most : Nat) (n : Nat) : Nat × Nat :=
  if n ≤ most then (n, 0)
  else
    let (front, behind) := leadingDigits most (n / 10)
    (front, behind + 1)
termination_by n
decreasing_by omega

/-- A number with more digits appended as long as it is at most `most`: the last `places` digits of
`fraction`. Gives the number of digits left out, too. -/
def appendDigits (most front fraction : Nat) : Nat → Nat × Nat
  | 0 => (front, 0)
  | places + 1 =>
    let next := 10 * front + fraction / 10 ^ places % 10
    if next ≤ most then appendDigits most next fraction places else (front, places + 1)

/-- A number that is read in a hurry: the digits that fit a word are rounded, and so is their
product with the power of ten. Digits before the point that do not fit are left out one and all,
and those after the point get their own chance. This is the nearest number if there are not too many
digits and the power is small, and close to it mostly. Decimals beyond all finite numbers are
refused. -/
def ofDecimalInHaste? (d : Decimal) : Option Binary64 :=
  let most := 2 ^ 64 - 1
  let (front, behind) := leadingDigits most d.whole
  let (digits, left) := appendDigits most front d.digits d.places
  shift? (ofRatio d.negative digits 1) (d.exponent + behind + left) 4

/-- Whether a number is zero, of either sign. -/
def isZero : Binary64 → Bool
  | finite _ m _ => m = 0
  | _ => false

/-- The integer nearest to a number, with ties away from zero, kept within the range from zero to
`most`. What is not a number counts as zero. -/
def toNatSaturating (most : Nat) : Binary64 → Nat
  | finite true _ _ | infinite true | nan => 0
  | infinite false => most
  | finite false m q => min most (roundDivUp (m * 2 ^ q.toNat) (2 ^ (-q).toNat))

/-- The multiples of `10 ^ p` next to `m * 2 ^ q` that are read back as that number, the nearest
one first. All is measured in quarters of the distance to the next number; the neighbour below a
power of two is only half as far. -/
def hits (m : Nat) (q : Int) (p : Int) : List Nat :=
  let unit := q - 2
  let a := 10 ^ p.toNat * 2 ^ (-unit).toNat
  let b := 2 ^ unit.toNat * 10 ^ (-p).toNat
  let value := 4 * m * b
  let low := (4 * m - (if m = 2 ^ 52 ∧ leastExponent < q then 1 else 2)) * b
  let high := (4 * m + 2) * b
  let inside (c : Nat) : Bool :=
    (low < c * a && c * a < high) || (m % 2 == 0 && (c * a == low || c * a == high))
  let down := value / a
  let candidates := if 2 * value < (2 * down + 1) * a then [down, down + 1] else [down + 1, down]
  candidates.filter (fun c => c != 0 && inside c)

/-- The fewest digits that are read back as `m * 2 ^ q`, and their power of ten. -/
def shortest (m : Nat) (q : Int) : Nat × Int :=
  let found := (List.range 700).findSome? fun (i : Nat) =>
    let p : Int := 330 - (i : Int)
    (hits m q p).head?.map (fun c => (c, p))
  found.getD (0, 0)

/-- Digits and a power of ten without an exponent: filled up with zeros where needed. -/
def positional (digits : Nat) (exponent : Int) : List Char :=
  let ds := Nat.toDigits 10 digits
  if 0 ≤ exponent then ds ++ List.replicate exponent.toNat '0'
  else
    let places := (-exponent).toNat
    let ds := List.replicate (places + 1 - ds.length) '0' ++ ds
    ds.take (ds.length - places) ++ '.' :: ds.drop (ds.length - places)

/-- A number as a text: the shortest digits without an exponent. -/
def text : Binary64 → String
  | nan => "NaN"
  | infinite negative => if negative then "-inf" else "inf"
  | finite negative m q =>
    let (digits, exponent) := if m = 0 then (0, 0) else shortest m q
    (if negative then "-" else "") ++ String.ofList (positional digits exponent)

end Binary64

end TieredStore
