import TieredStore.Json.Parser

/-!
# Typed readings of JSON

How values of the library are read off JSON values. Each reading is strict: numbers are not taken
from strings, nor truth values from numbers, and `none` says that the value has another shape.
-/

namespace TieredStore

namespace Json

/-- A number that fits a word, written as an integer without sign. -/
def word? : Json → Option Nat
  | number value true =>
    if !value.negative && value.digits < 2 ^ 64 then some value.digits else none
  | _ => none

/-- A truth value. -/
def bool? : Json → Option Bool
  | bool value => some value
  | _ => none

/-- A text. -/
def text? : Json → Option String
  | string value => value
  | _ => none

/-- A list whose items are read by `item?`. -/
def list? {α : Type} (item? : Json → Option α) : Json → Option (List α)
  | array items => items.mapM item?
  | _ => none

/-- A value that may be absent, which is written `null`. -/
def optional? {α : Type} (value? : Json → Option α) : Json → Option (Option α)
  | null => some none
  | j => (value? j).map some

/-- One of finitely many values, written as its name or as an object with the name and `null`. -/
def tag? {α : Type} (all : List α) (name : α → String) : Json → Option α
  | string (some s) => all.find? (fun a => name a = s)
  | object [(some s, null)] => all.find? (fun a => name a = s)
  | _ => none

/-- The values of the named fields of a record, in the order of `names`; `none` stands for a field
that is not there. A record is an object, in which other fields are ignored and none of the named
ones may be repeated, or an array of the values in the order of `names`, which may end early. -/
def record? (names : List String) : Json → Option (List (Option Json))
  | object fields =>
    let values := names.map (fun name => (fields.filter (fun f => f.1 == some name)).map Prod.snd)
    if fields.all (fun f => f.1.isSome) && values.all (fun v => v.length ≤ 1) then
      some (values.map List.head?)
    else none
  | array items =>
    if items.length ≤ names.length then
      some (items.map some ++ List.replicate (names.length - items.length) none)
    else none
  | _ => none

/-- A field that must be there. -/
def required? {α : Type} (value? : Json → Option α) : Option Json → Option α
  | none => none
  | some j => value? j

/-- A field that has a value of its own where it is not there. -/
def withDefault? {α : Type} (default : α) (value? : Json → Option α) : Option Json → Option α
  | none => some default
  | some j => value? j

/-- The error for a text that is not JSON or has another shape than was asked for. -/
def malformed : Error := .deserialization "malformed JSON"

/-- The error for a source that broke off before its text ended. -/
def sourceFailed : Error := .serialization "the source broke off"

/-- Reads a value from a source, which gives no text if it broke off. -/
def decode {α : Type} (value? : Json → Option α) (source : Option String) : Except Error α :=
  match source with
  | none => .error sourceFailed
  | some s =>
    match (parse? s).bind value? with
    | some a => .ok a
    | none => .error malformed

end Json

end TieredStore
