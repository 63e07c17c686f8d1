import TieredStore.Binary64
import TieredStore.Path

/-!
# Raw settings

A setting as its source gives it, before anybody knows of what kind it should be, and the lenient
conversions to the kinds that settings have.
-/

namespace TieredStore

/-- A setting as its source gives it. -/
inductive RawValue where
  /-- No value. -/
  | null
  /-- A truth value. -/
  | bool (value : Bool)
  /-- An integer of 64 bits. -/
  | int (value : Int)
  /-- A floating-point number. -/
  | float (value : Binary64)
  /-- A text. -/
  | text (value : String)
  /-- A list. -/
  | list (items : List RawValue)
  /-- Named values, each name once. -/
  | table (fields : List (String × RawValue))

namespace RawValue

/-- Whether a number is an integer of 64 bits. -/
def isInt64 (n : Int) : Bool := -(2 ^ 63) ≤ n && n < 2 ^ 63

/-- Texts that stand for truth, in lower case. -/
def trueWords : List String := ["true", "on", "yes"]

/-- Texts that stand for falsehood, in lower case. -/
def falseWords : List String := ["false", "off", "no"]

/-- The number that a run of digits stands for, with a plus sign allowed in front. -/
def natOfText? (s : String) : Option Nat :=
  let digits :=
    match s.toList with
    | '+' :: cs => cs
    | cs => cs
  if digits.isEmpty || !digits.all Char.isDigit then none else some (Decimal.ofDigits digits)

/-- A number of bytes. Truth values count as one and zero; fractions are rounded, and what is out
of range is brought to its end, except for negative integers, which are refused. -/
def toWord? : RawValue → Option Nat
  | bool value => some value.toNat
  | int value => if 0 ≤ value then some value.toNat else none
  | float value => some (value.toNatSaturating (2 ^ 64 - 1))
  | text value =>
    if trueWords.contains value.toLower then some 1
    else if falseWords.contains value.toLower then some 0
    else (natOfText? value).filter (fun n => n < 2 ^ 64)
  | _ => none

/-- A truth value. Numbers are true if they are not zero. -/
def toBool? : RawValue → Option Bool
  | bool value => some value
  | int value => some (value != 0)
  | float value => some (!value.isZero)
  | text value =>
    if ("1" :: trueWords).contains value.toLower then some true
    else if ("0" :: falseWords).contains value.toLower then some false
    else none
  | _ => none

/-- A path that may be absent. Numbers and truth values are taken as their texts. -/
def toPath? : RawValue → Option (Option Path)
  | null => some none
  | bool value => some (some ⟨toString value⟩)
  | int value => some (some ⟨toString value⟩)
  | float value => some (some ⟨value.text⟩)
  | text value => some (some ⟨value⟩)
  | _ => none

/-- The fields of a table; anything else has none. -/
def fields : RawValue → List (String × RawValue)
  | table fields => fields
  | _ => []

end RawValue

end TieredStore
