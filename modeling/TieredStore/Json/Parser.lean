import TieredStore.Json

/-!
# Reading JSON

The strict grammar: no comments, no trailing commas, no leading zeros, control characters only
escaped. `Json.parse?` reads a whole text.
-/

namespace TieredStore

namespace Json

/-- Whether a character may stand between the parts of a value. -/
def isBlank (c : Char) : Bool := c = ' ' || c = '\n' || c = '\t' || c = '\r'

/-- A text without the blanks at its front. -/
def skipBlanks (cs : List Char) : List Char := cs.dropWhile isBlank

/-- The value of a hexadecimal digit of either case. -/
def hexDigit? (c : Char) : Option Nat :=
  if c.isDigit then some (c.toNat - '0'.toNat)
  else if 'a' ≤ c ∧ c ≤ 'f' then some (c.toNat - 'a'.toNat + 10)
  else if 'A' ≤ c ∧ c ≤ 'F' then some (c.toNat - 'A'.toNat + 10)
  else none

/-- The value of four hexadecimal digits. -/
def hexUnit? (a b c d : Char) : Option Nat :=
  match hexDigit? a, hexDigit? b, hexDigit? c, hexDigit? d with
  | some a, some b, some c, some d => some (4096 * a + 256 * b + 16 * c + d)
  | _, _, _, _ => none

/-- The character that a letter stands for after a backslash. -/
def shortEscape? (c : Char) : Option Char :=
  if c = '"' ∨ c = '\\' ∨ c = '/' then some c
  else if c = 'b' then some '\x08'
  else if c = 'f' then some '\x0c'
  else if c = 'n' then some '\n'
  else if c = 'r' then some '\r'
  else if c = 't' then some '\t'
  else none

/-- The rest of a string after its opening quote: a number for each character or escape, and what
follows the closing quote. An escape by four digits gives half of a surrogate pair as it is. -/
def splitString? : List Char → Option (List Nat × List Char)
  | [] => none
  | '"' :: rest => some ([], rest)
  | '\\' :: 'u' :: a :: b :: c :: d :: cs =>
    match hexUnit? a b c d, splitString? cs with
    | some unit, some (units, rest) => some (unit :: units, rest)
    | _, _ => none
  | '\\' :: c :: cs =>
    match shortEscape? c, splitString? cs with
    | some e, some (units, rest) => some (e.toNat :: units, rest)
    | _, _ => none
  | c :: cs =>
    if c.toNat < 32 ∨ c = '\\' then none
    else
      match splitString? cs with
      | some (units, rest) => some (c.toNat :: units, rest)
      | none => none

/-- Whether a number is the first half of a surrogate pair. -/
def isHighSurrogate (n : Nat) : Bool := 0xD800 ≤ n && n < 0xDC00

/-- Whether a number is the second half of a surrogate pair. -/
def isLowSurrogate (n : Nat) : Bool := 0xDC00 ≤ n && n < 0xE000

/-- The characters that the numbers stand for, with surrogate pairs joined; `none` if half a pair
stands alone. -/
def joinSurrogates? : List Nat → Option (List Char)
  | [] => some []
  | high :: low :: units =>
    if isHighSurrogate high then
      if isLowSurrogate low then
        (joinSurrogates? units).map
          (Char.ofNat (0x10000 + 1024 * (high - 0xD800) + (low - 0xDC00)) :: ·)
      else none
    else if isLowSurrogate high then none
    else (joinSurrogates? (low :: units)).map (Char.ofNat high :: ·)
  | [unit] =>
    if isHighSurrogate unit || isLowSurrogate unit then none else some [Char.ofNat unit]

/-- The text that the numbers of a string stand for. -/
def textOfUnits (units : List Nat) : Option String := (joinSurrogates? units).map String.ofList

/-- The number at the front of a text and what follows it. -/
def splitNumber? (cs : List Char) : Option (Json × List Char) :=
  let (negative, cs) : Bool × List Char :=
    match cs with
    | '-' :: cs => (true, cs)
    | cs => (false, cs)
  let (whole, afterWhole) : List Char × List Char :=
    match cs with
    | '0' :: cs => (['0'], cs)
    | cs => Decimal.splitDigits cs
  if whole.isEmpty then none
  else
    match Decimal.splitFraction? afterWhole with
    | none => none
    | some (fraction, afterFraction) =>
      match Decimal.splitExponent? afterFraction with
      | none => none
      | some (exponent, rest) =>
        let isInteger := rest.length == afterWhole.length
        some (.number (Decimal.ofParts negative whole fraction exponent) isInteger, rest)

mutual

/-- The value at the front of a text and what follows it. The bound on the number of steps is for
the recursion only. -/
def splitValue? : Nat → List Char → Option (Json × List Char)
  | 0, _ => none
  | bound + 1, cs =>
    match skipBlanks cs with
    | 'n' :: 'u' :: 'l' :: 'l' :: rest => some (.null, rest)
    | 't' :: 'r' :: 'u' :: 'e' :: rest => some (.bool true, rest)
    | 'f' :: 'a' :: 'l' :: 's' :: 'e' :: rest => some (.bool false, rest)
    | '"' :: cs =>
      match splitString? cs with
      | some (units, rest) => some (.string (textOfUnits units), rest)
      | none => none
    | '[' :: cs =>
      match skipBlanks cs with
      | ']' :: rest => some (.array [], rest)
      | cs =>
        match splitItems? bound cs with
        | some (items, rest) => some (.array items, rest)
        | none => none
    | '\x7b' :: cs =>
      match skipBlanks cs with
      | '\x7d' :: rest => some (.object [], rest)
      | cs =>
        match splitFields? bound cs with
        | some (fields, rest) => some (.object fields, rest)
        | none => none
    | cs => splitNumber? cs

/-- The items of an array that is not empty, up to and with its closing bracket. -/
def splitItems? : Nat → List Char → Option (List Json × List Char)
  | 0, _ => none
  | bound + 1, cs =>
    match splitValue? bound cs with
    | none => none
    | some (item, cs) =>
      match skipBlanks cs with
      | ']' :: rest => some ([item], rest)
      | ',' :: cs =>
        match splitItems? bound cs with
        | some (items, rest) => some (item :: items, rest)
        | none => none
      | _ => none

/-- The fields of an object that is not empty, up to and with its closing brace. -/
def splitFields? : Nat → List Char → Option (List (Option String × Json) × List Char)
  | 0, _ => none
  | bound + 1, cs =>
    match skipBlanks cs with
    | '"' :: cs =>
      match splitString? cs with
      | none => none
      | some (units, cs) =>
        match skipBlanks cs with
        | ':' :: cs =>
          match splitValue? bound cs with
          | none => none
          | some (value, cs) =>
            match skipBlanks cs with
            | '\x7d' :: rest => some ([(textOfUnits units, value)], rest)
            | ',' :: cs =>
              match splitFields? bound cs with
              | some (fields, rest) => some ((textOfUnits units, value) :: fields, rest)
              | none => none
            | _ => none
        | _ => none
    | _ => none

end

/-- The value of a whole text, `none` if the text is not JSON. -/
def parse? (s : String) : Option Json :=
  let cs := s.toList
  match splitValue? (2 * cs.length + 2) cs with
  | some (value, rest) => if (skipBlanks rest).isEmpty then some value else none
  | none => none

end Json

end TieredStore
