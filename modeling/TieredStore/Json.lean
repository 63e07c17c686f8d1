import TieredStore.Decimal
import TieredStore.Error

/-!
# JSON values

A value as its text gives it, with what a reader must still be able to tell apart: whether a
number was written as an integer, and whether a string is a proper text at all.
-/

namespace TieredStore

/-- A JSON value. -/
inductive Json where
  /-- The value `null`. -/
  | null
  /-- A truth value. -/
  | bool (value : Bool)
  /-- A number; `isInteger` says that it was written without point and exponent. -/
  | number (value : Decimal) (isInteger : Bool)
  /-- A string, `none` if it escapes half of a surrogate pair and so stands for no text. -/
  | string (value : Option String)
  /-- A list of values. -/
  | array (items : List Json)
  /-- Named values in the order of the text, with repeated names as they are. -/
  | object (fields : List (Option String × Json))

namespace Json

/-- The number `n`. -/
def ofNat (n : Nat) : Json := number (.ofNat n) true

/-- The string `s`. -/
def ofString (s : String) : Json := string (some s)

/-- An object with the given fields. -/
def ofFields (fields : List (String × Json)) : Json :=
  object (fields.map (fun f => (some f.1, f.2)))

/-- Two hexadecimal digits for a number below 256. -/
def twoDigits (n : Nat) : List Char := [Nat.digitChar (n / 16 % 16), Nat.digitChar (n % 16)]

/-- A character as it stands in a string: quotes, backslashes and control characters are
escaped. -/
def escape (c : Char) : List Char :=
  if c = '"' then ['\\', '"']
  else if c = '\\' then ['\\', '\\']
  else if c = '\n' then ['\\', 'n']
  else if c = '\r' then ['\\', 'r']
  else if c = '\t' then ['\\', 't']
  else if c = '\x08' then ['\\', 'b']
  else if c = '\x0c' then ['\\', 'f']
  else if c.toNat < 32 then ['\\', 'u', '0', '0'] ++ twoDigits c.toNat
  else [c]

/-- A text in quotes. -/
def quote (s : String) : List Char := '"' :: (s.toList.flatMap escape ++ ['"'])

/-- A number as it is written. -/
def renderNumber (value : Decimal) : List Char :=
  (if value.negative then ['-'] else []) ++ Nat.toDigits 10 value.digits
    ++ (if value.exponent = 0 then [] else 'e' :: (toString value.exponent).toList)

mutual

/-- A value as a text without blanks. A string that stands for no text is written as an empty
one. -/
def render : Json → List Char
  | null => "null".toList
  | bool true => "true".toList
  | bool false => "false".toList
  | number value _ => renderNumber value
  | string value => quote (value.getD "")
  | array items => '[' :: (renderItems items ++ [']'])
  | object fields => '\x7b' :: (renderFields fields ++ ['\x7d'])

/-- The items of an array, with commas between them. -/
def renderItems : List Json → List Char
  | [] => []
  | [item] => render item
  | item :: items => render item ++ ',' :: renderItems items

/-- The fields of an object, with commas between them. -/
def renderFields : List (Option String × Json) → List Char
  | [] => []
  | [(name, value)] => quote (name.getD "") ++ ':' :: render value
  | (name, value) :: fields =>
    quote (name.getD "") ++ ':' :: (render value ++ ',' :: renderFields fields)

end

/-- The text of a value. -/
def text (j : Json) : String := String.ofList j.render

end Json

end TieredStore
