import TieredStore.Settings.RawValue
import TieredStore.Settings.Toml.Moment

/-!
# Tables under construction

What stands under the keys of a TOML text while it is read. A table can be added to or not according
to what it comes from (`Origin`), and all additions go along a path of keys (`addAt?`). When the
text is over, items become raw values (`Item.toRaw?`).
-/

namespace TieredStore

namespace Toml

/-- What a table comes from. -/
inductive Origin where
  /-- It has a heading of its own. -/
  | heading
  /-- It is on the way to the table of a longer heading. -/
  | way
  /-- It is on the way of a key with dots. -/
  | dots
  /-- It stands in braces. -/
  | braces
  deriving DecidableEq

/-- What stands under a key. -/
inductive Item where
  /-- A text, a number or a truth value. -/
  | plain (v : RawValue)
  /-- A date or a time. -/
  | moment (m : Moment)
  /-- A list. -/
  | list (items : List Item)
  /-- A table. -/
  | table (origin : Origin) (fields : List (String × Item))
  /-- The tables of headings in double brackets. -/
  | tables (items : List (List (String × Item)))

/-- The items under the keys of a table, in the order in which they came. -/
abbrev Fields : Type := List (String × Item)

namespace Fields

/-- The fields with another item under a name that is there. -/
def replace (fields : Fields) (name : String) (item : Item) : Fields :=
  fields.map (fun f => if f.1 == name then (name, item) else f)

/-- Adds to the table at the end of a path. Tables that are missing on the way come from `missing`;
a way by dots does not lead through the table of a heading, and no way leads through a table in
braces. Where there are several tables of a heading, the last one is meant. -/
def addAt? (missing : Origin) (add? : Origin → Fields → Option Fields) :
    Origin → List String → Fields → Option Fields
  | origin, [], fields => add? origin fields
  | _, name :: path, fields =>
    match fields.lookup name with
    | none =>
      (addAt? missing add? missing path []).map
        (fun inner => fields ++ [(name, .table missing inner)])
    | some (.table origin inner) =>
      if origin = .braces ∨ (origin = .heading ∧ missing = .dots) then none
      else
        (addAt? missing add? origin path inner).map
          (fun inner => fields.replace name (.table origin inner))
    | some (.tables items) =>
      match items.reverse with
      | [] => none
      | last :: earlier =>
        (addAt? missing add? .heading path last).map
          (fun last => fields.replace name (.tables (last :: earlier).reverse))
    | some _ => none

/-- Adds an item under a dotted key, which must be new. Dots lead to tables made by dots only, the
first one apart. -/
def addItem? (path : List String) (name : String) (item : Item) (fields : Fields) : Option Fields :=
  let add? (origin : Origin) (fields : Fields) : Option Fields :=
    if (!path.isEmpty && origin != .dots) || (fields.lookup name).isSome then none
    else some (fields ++ [(name, item)])
  addAt? .dots add? .heading path fields

/-- Adds a table for a heading. It must be new, or known from the way to other tables only. -/
def addHeading? (path : List String) (name : String) (fields : Fields) : Option Fields :=
  let add? (_ : Origin) (fields : Fields) : Option Fields :=
    match fields.lookup name with
    | none => some (fields ++ [(name, .table .heading [])])
    | some (.table .way inner) => some (fields.replace name (.table .heading inner))
    | some _ => none
  addAt? .way add? .heading path fields

/-- Adds one more table for a heading in double brackets. -/
def addListHeading? (path : List String) (name : String) (fields : Fields) : Option Fields :=
  let add? (_ : Origin) (fields : Fields) : Option Fields :=
    match fields.lookup name with
    | none => some (fields ++ [(name, .tables [[]])])
    | some (.tables items) => some (fields.replace name (.tables (items ++ [[]])))
    | some _ => none
  addAt? .way add? .heading path fields

/-- Adds an item under a dotted key below a heading that is there. -/
def addBelow? (heading path : List String) (name : String) (item : Item) (fields : Fields) :
    Option Fields :=
  addAt? .way (fun _ fields => fields.addItem? path name item) .heading heading fields

end Fields

/-- A table with this key in front stands for the moment that is written there. -/
def momentKey : String := "$__toml_private_datetime"

/-- The moment that a table stands for, if its fields say so. The inner `none` is for a text that is
no moment. -/
def momentOf? : Fields → Option (Option Moment)
  | (name, .plain (.text s)) :: _ => if name = momentKey then some (Moment.ofText? s) else none
  | (name, _) :: _ => if name = momentKey then some none else none
  | [] => none

/-- A table as a value: the text of the moment that it stands for, or else its fields, of which
`values` are the values. -/
def tableToRaw? (fields : Fields) (values : Option (List (String × RawValue))) : Option RawValue :=
  match momentOf? fields with
  | some m => m.map (fun m => .text m.text)
  | none => values.map RawValue.table

mutual

/-- An item as a value. Moments are texts there. -/
def Item.toRaw? : Item → Option RawValue
  | .plain v => some v
  | .moment m => some (.text m.text)
  | .list items => (itemsToRaw? items).map RawValue.list
  | .table _ fields => tableToRaw? fields (fieldsToRaw? fields)
  | .tables items => (tablesToRaw? items).map RawValue.list

/-- Several items as values. -/
def itemsToRaw? : List Item → Option (List RawValue)
  | [] => some []
  | item :: items =>
    match item.toRaw?, itemsToRaw? items with
    | some v, some values => some (v :: values)
    | _, _ => none

/-- The fields of a table as values. -/
def fieldsToRaw? : List (String × Item) → Option (List (String × RawValue))
  | [] => some []
  | (name, item) :: fields =>
    match item.toRaw?, fieldsToRaw? fields with
    | some v, some values => some ((name, v) :: values)
    | _, _ => none

/-- Several tables as values. -/
def tablesToRaw? : List (List (String × Item)) → Option (List RawValue)
  | [] => some []
  | fields :: items =>
    match tableToRaw? fields (fieldsToRaw? fields), tablesToRaw? items with
    | some v, some values => some (v :: values)
    | _, _ => none

end

end Toml

end TieredStore
