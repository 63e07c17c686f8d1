import TieredStore.Json.Parser

/-!
# Quoted texts in TOML

Texts stand between double quotes, with escapes, or between single quotes, as they are. Between
three quotes of either kind they may have several lines.
-/

namespace TieredStore

namespace Toml

/-- Blanks within a line. -/
def isBlank (c : Char) : Bool := c = ' ' || c = '\t'

/-- A text without the blanks at its front. -/
def skipBlanks (cs : List Char) : List Char := cs.dropWhile isBlank

/-- Whether a character may stand in a line as it is. -/
def isPlain (c : Char) : Bool := c = '\t' || (32 ≤ c.toNat && c.toNat != 127)

/-- Whether a character may stand between quotes as it is. Between three quotes at either end lines
may break. -/
def isQuotable (isLong : Bool) (c : Char) : Bool := isPlain c || (isLong && c = '\n')

/-- The character with the given number, unless there is none. -/
def charOfNat? (n : Nat) : Option Char :=
  if h : n.isValidChar then some (Char.ofNatAux n h) else none

/-- The character that `width` hexadecimal digits stand for, and what follows them. -/
def splitHex? (width : Nat) (cs : List Char) : Option (Char × List Char) :=
  let digits := cs.take width
  if digits.length < width then none
  else
    ((digits.foldlM (fun n c => (Json.hexDigit? c).map (16 * n + ·)) 0).bind charOfNat?).map
      (fun c => (c, cs.drop width))

/-- The character that an escape stands for, and what follows it. -/
def splitEscape? : List Char → Option (Char × List Char)
  | [] => none
  | 'u' :: cs => splitHex? 4 cs
  | 'U' :: cs => splitHex? 8 cs
  | c :: cs => if c = '/' then none else (Json.shortEscape? c).map (fun e => (e, cs))

/-- What follows the closing quotes, if they stand here, with what else of the text they hold: in
front of three closing quotes there may be two that belong to the text. -/
def close? (isLong : Bool) (quote : Char) (cs : List Char) : Option (List Char × List Char) :=
  let width := if isLong then 3 else 1
  if (cs.take width) = List.replicate width quote then
    let rest := cs.drop width
    let more := if isLong then (rest.take 2).takeWhile (· = quote) else []
    some (more, rest.drop more.length)
  else none

/-- What follows a line that is to be joined to the next one, after its backslash. -/
def joinLines? (cs : List Char) : Option (List Char) :=
  match skipBlanks cs with
  | '\n' :: cs => some (cs.dropWhile (fun c => isBlank c || c = '\n'))
  | _ => none

/-- The rest of a text in double quotes, and what follows it. The bound on the number of steps is
for the recursion only. -/
def splitBasic? (isLong : Bool) : Nat → List Char → Option (List Char × List Char)
  | 0, _ => none
  | bound + 1, cs =>
    match close? isLong '"' cs, cs with
    | some closed, _ => some closed
    | none, [] => none
    | none, '\\' :: cs =>
      match if isLong then joinLines? cs else none with
      | some cs => splitBasic? isLong bound cs
      | none =>
        match splitEscape? cs with
        | none => none
        | some (c, cs) => (splitBasic? isLong bound cs).map (fun (text, rest) => (c :: text, rest))
    | none, c :: cs =>
      if isQuotable isLong c then
        (splitBasic? isLong bound cs).map (fun (text, rest) => (c :: text, rest))
      else none

/-- The rest of a text in single quotes, and what follows it. -/
def splitLiteral? (isLong : Bool) (cs : List Char) : Option (List Char × List Char) :=
  match close? isLong '\'' cs with
  | some closed => some closed
  | none =>
    match cs with
    | [] => none
    | c :: cs =>
      if isQuotable isLong c then
        (splitLiteral? isLong cs).map (fun (text, rest) => (c :: text, rest))
      else none

/-- A text without a line break at its front. -/
def skipBreak : List Char → List Char
  | '\n' :: cs => cs
  | cs => cs

/-- A text in quotes on one line, and what follows it. -/
def splitShort? : List Char → Option (String × List Char)
  | '"' :: cs =>
    (splitBasic? false (cs.length + 1) cs).map (fun (text, rest) => (String.ofList text, rest))
  | '\'' :: cs => (splitLiteral? false cs).map (fun (text, rest) => (String.ofList text, rest))
  | _ => none

/-- A text in quotes, and what follows it. A line break right after three quotes is left out. -/
def splitQuoted? : List Char → Option (String × List Char)
  | '"' :: '"' :: '"' :: cs =>
    (splitBasic? true (cs.length + 1) (skipBreak cs)).map
      (fun (text, rest) => (String.ofList text, rest))
  | '\'' :: '\'' :: '\'' :: cs =>
    (splitLiteral? true (skipBreak cs)).map (fun (text, rest) => (String.ofList text, rest))
  | cs => splitShort? cs

end Toml

end TieredStore
