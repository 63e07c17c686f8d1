import TieredStore.Json.Parser
import TieredStore.Settings.RawValue

/-!
# Numbers and truth values in TOML

Values that are one word: integers in four bases, floating-point numbers, `true` and `false`. Digits
may have underscores between them.
-/

namespace TieredStore

namespace Toml

/-- The digits of a number without the underscores between them; `none` if an underscore is not
between two digits or there is no digit. -/
def digitsOf? (isDigit : Char → Bool) (cs : List Char) : Option (List Char) :=
  let groups := (String.ofList cs).splitOn "_"
  if groups.all (fun g => !g.isEmpty && g.toList.all isDigit) then
    some (cs.filter (fun c => c != '_'))
  else none

/-- The digits before the point of a number; they do not start with a needless zero. -/
def wholeOf? (cs : List Char) : Option (List Char) :=
  match digitsOf? Char.isDigit cs with
  | some ('0' :: _ :: _) => none
  | digits => digits

/-- A number in base two, eight or sixteen, after its mark. -/
def ofBase? (base : Nat) (cs : List Char) : Option Nat :=
  let valid (c : Char) : Bool := (Json.hexDigit? c).any (fun d => d < base)
  (digitsOf? valid cs).bind fun digits =>
    digits.foldlM (fun n c => (Json.hexDigit? c).map (base * n + ·)) 0

/-- An integer of 64 bits as a value. -/
def intValue? (n : Int) : Option RawValue := if RawValue.isInt64 n then some (.int n) else none

/-- A floating-point number: digits, a point with digits after it or none, and an exponent or
none, after the sign. One that is too large is refused. -/
def floatValue? (negative : Bool) (cs : List Char) : Option RawValue := do
  let isMark (c : Char) : Bool := c = 'e' || c = 'E'
  let significand := cs.takeWhile (fun c => !isMark c)
  let exponent ←
    match cs.dropWhile (fun c => !isMark c) with
    | [] => some 0
    | _ :: '-' :: cs => (digitsOf? Char.isDigit cs).map (fun ds => -(Decimal.ofDigits ds : Int))
    | _ :: '+' :: cs => (digitsOf? Char.isDigit cs).map (fun ds => (Decimal.ofDigits ds : Int))
    | _ :: cs => (digitsOf? Char.isDigit cs).map (fun ds => (Decimal.ofDigits ds : Int))
  let whole ← wholeOf? (significand.takeWhile (fun c => c != '.'))
  let fraction ←
    match significand.dropWhile (fun c => c != '.') with
    | [] => some []
    | _ :: cs => digitsOf? Char.isDigit cs
  let x := Binary64.ofDecimal (Decimal.ofParts negative whole fraction exponent)
  if x = .infinite false then none else some (.float x)

/-- A number after its sign, if it has one. -/
def signedValue? (negative : Bool) (cs : List Char) : Option RawValue :=
  if cs = "inf".toList then some (.float (.infinite negative))
  else if cs = "nan".toList then some (.float .nan)
  else
    match wholeOf? cs with
    | some digits =>
      let n : Int := Decimal.ofDigits digits
      intValue? (if negative then -n else n)
    | none => floatValue? negative cs

/-- A value that is one word. -/
def wordValue? (cs : List Char) : Option RawValue :=
  match cs with
  | '0' :: 'x' :: cs => (ofBase? 16 cs).bind (fun n => intValue? n)
  | '0' :: 'o' :: cs => (ofBase? 8 cs).bind (fun n => intValue? n)
  | '0' :: 'b' :: cs => (ofBase? 2 cs).bind (fun n => intValue? n)
  | '-' :: cs => signedValue? true cs
  | '+' :: cs => signedValue? false cs
  | cs =>
    if cs = "true".toList then some (.bool true)
    else if cs = "false".toList then some (.bool false)
    else signedValue? false cs

end Toml

end TieredStore
