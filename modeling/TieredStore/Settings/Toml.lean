import TieredStore.Settings.Toml.Item
import TieredStore.Settings.Toml.Number
import TieredStore.Settings.Toml.Quoted

/-!
# Settings in TOML

The form of settings files with headings, one key and value in a line. A key is given at most once,
and a table that was closed is not opened again. Keys are not longer and values are not nested more
deeply than `maxParts` says.
-/

namespace TieredStore

namespace Toml

/-- Keys have fewer parts than this, and lists and tables in values are nested fewer times. -/
def maxParts : Nat := 80

/-- Whether a character may stand in a key without quotes. -/
def isKeyChar (c : Char) : Bool := c.isAlphanum || c = '_' || c = '-'

/-- A text without the comment at its front, if there is one. -/
def skipComment : List Char → List Char
  | '#' :: cs => cs.dropWhile isPlain
  | cs => cs

/-- What follows the end of a line: blanks, a comment if there is one, and the line break or the
end of the text. -/
def skipLineEnd? (cs : List Char) : Option (List Char) :=
  match skipComment (skipBlanks cs) with
  | [] => some []
  | '\n' :: cs => some cs
  | _ => none

/-- A text without the blanks, comments and line breaks at its front. -/
def skipSpace : Nat → List Char → List Char
  | 0, cs => cs
  | bound + 1, cs =>
    match skipComment (skipBlanks cs) with
    | '\n' :: cs => skipSpace bound cs
    | cs => cs

/-- One part of a key. -/
def splitKeyPart? (cs : List Char) : Option (String × List Char) :=
  let part := cs.takeWhile isKeyChar
  if part.isEmpty then splitShort? cs else some (String.ofList part, cs.dropWhile isKeyChar)

/-- The parts of a key, with dots between them, of which there are at most as many as the bound
says. -/
def splitParts? : Nat → List Char → Option (List String × String × List Char)
  | 0, _ => none
  | bound + 1, cs =>
    match splitKeyPart? (skipBlanks cs) with
    | none => none
    | some (part, cs) =>
      match skipBlanks cs with
      | '.' :: cs =>
        (splitParts? bound cs).map (fun (path, name, rest) => (part :: path, name, rest))
      | cs => some ([], part, cs)

/-- A key, as the way to its last part and that part, and what follows it. -/
def splitKey? (cs : List Char) : Option (List String × String × List Char) :=
  splitParts? (maxParts - 1) cs

/-- Whether a character may stand in a value that is one word. -/
def isWordChar (c : Char) : Bool := isKeyChar c || c = '+' || c = '.'

/-- A value without parts, and what follows it. -/
def splitPlain? (cs : List Char) : Option (Item × List Char) :=
  if cs.head? = some '"' ∨ cs.head? = some '\'' then
    (splitQuoted? cs).map (fun (text, rest) => (.plain (.text text), rest))
  else if Moment.isFront cs then (Moment.split? cs).map (fun (m, rest) => (.moment m, rest))
  else
    (wordValue? (cs.takeWhile isWordChar)).map (fun v => (.plain v, cs.dropWhile isWordChar))

mutual

/-- A value with at most `depth` lists and tables around its parts, its own included, and what
follows it. The bound on the number of steps is for the recursion only. -/
def splitValue? : Nat → Nat → List Char → Option (Item × List Char)
  | 0, _, _ => none
  | bound + 1, depth, cs =>
    match skipBlanks cs, depth with
    | '[' :: _, 0 | '\x7b' :: _, 0 => none
    | '[' :: cs, depth + 1 =>
      (splitItems? bound depth cs).map (fun (items, rest) => (.list items, rest))
    | '\x7b' :: cs, depth + 1 =>
      match skipBlanks cs with
      | '\x7d' :: rest => some (.table .braces [], rest)
      | cs =>
        (splitFields? bound depth [] cs).map (fun (fields, rest) => (.table .braces fields, rest))
    | cs, _ => splitPlain? cs

/-- The rest of a list, which may have line breaks in it and a comma after its last item. -/
def splitItems? : Nat → Nat → List Char → Option (List Item × List Char)
  | 0, _, _ => none
  | bound + 1, depth, cs =>
    match skipSpace cs.length cs with
    | ']' :: rest => some ([], rest)
    | cs =>
      match splitValue? bound depth cs with
      | none => none
      | some (item, cs) =>
        match skipSpace cs.length cs with
        | ']' :: rest => some ([item], rest)
        | ',' :: cs =>
          (splitItems? bound depth cs).map (fun (items, rest) => (item :: items, rest))
        | _ => none

/-- The rest of a table in braces that is not empty, with the fields read so far. -/
def splitFields? : Nat → Nat → Fields → List Char → Option (Fields × List Char)
  | 0, _, _, _ => none
  | bound + 1, depth, fields, cs =>
    match splitKey? cs with
    | some (path, name, '=' :: cs) =>
      match splitValue? bound depth cs with
      | none => none
      | some (item, cs) =>
        match fields.addItem? path name item, skipBlanks cs with
        | some fields, '\x7d' :: rest => some (fields, rest)
        | some fields, ',' :: cs => splitFields? bound depth fields cs
        | _, _ => none
    | _ => none

end

/-- The lines of a text below the heading that was read last. -/
def readLines? : Nat → List String → Fields → List Char → Option Fields
  | 0, _, _, _ => none
  | bound + 1, heading, fields, cs =>
    match skipSpace cs.length cs with
    | [] => some fields
    | '[' :: '[' :: cs =>
      match splitKey? cs with
      | some (path, name, ']' :: ']' :: cs) =>
        match fields.addListHeading? path name, skipLineEnd? cs with
        | some fields, some cs => readLines? bound (path ++ [name]) fields cs
        | _, _ => none
      | _ => none
    | '[' :: cs =>
      match splitKey? cs with
      | some (path, name, ']' :: cs) =>
        match fields.addHeading? path name, skipLineEnd? cs with
        | some fields, some cs => readLines? bound (path ++ [name]) fields cs
        | _, _ => none
      | _ => none
    | cs =>
      match splitKey? cs with
      | some (path, name, '=' :: cs) =>
        match splitValue? (2 * cs.length + 2) (maxParts - 1) cs with
        | none => none
        | some (item, cs) =>
          match fields.addBelow? heading path name item, skipLineEnd? cs with
          | some fields, some cs => readLines? bound heading fields cs
          | _, _ => none
      | _ => none

/-- A text without the mark of the order of its octets, which may stand in front. -/
def dropMark : List Char → List Char
  | '\ufeff' :: cs => cs
  | cs => cs

/-- A text with each line break as one character. -/
def joinBreaks : List Char → List Char
  | [] => []
  | '\r' :: '\n' :: cs => '\n' :: joinBreaks cs
  | c :: cs => c :: joinBreaks cs

/-- The settings in a text, `none` if the text is not TOML or stands for no table. -/
def parse? (s : String) : Option (List (String × RawValue)) :=
  let cs := joinBreaks (dropMark s.toList)
  match (readLines? (cs.length + 1) [] [] cs).bind (Item.toRaw? <| .table .heading ·) with
  | some (.table fields) => some fields
  | _ => none

end Toml

end TieredStore
