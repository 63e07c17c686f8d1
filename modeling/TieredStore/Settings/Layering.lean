import TieredStore.Settings.RawValue

/-!
# Layers of settings

Sources of settings lie above one another. A setting of a higher layer takes the place of the one
below it, field by field within tables, so that an empty table changes nothing that is there.

The name of a setting may lead into tables, by names with dots between them, and into lists, by
subscripts in brackets. Capital letters count as small ones.

Main statement: setting a field to something other than a table is what a look at that field shows
afterwards, and no other field is changed (`find?_setField_of_not_table`).
-/

namespace TieredStore

/-- Named raw values, each name once. -/
abbrev RawFields : Type := List (String × RawValue)

namespace RawFields

/-- The value of a field. -/
def find? (fields : RawFields) (name : String) : Option RawValue := fields.lookup name

/-- The fields with `value` under `name`, in place of what was there. -/
def put (fields : RawFields) (name : String) (value : RawValue) : RawFields :=
  (name, value) :: fields.filter (fun f => f.1 ≠ name)

mutual

/-- Sets a field. A table is merged into what is there. -/
def setField (fields : RawFields) (name : String) : RawValue → RawFields
  | .table incoming => put fields name (merge ((find? fields name).getD (.table [])) incoming)
  | .null => put fields name .null
  | .bool value => put fields name (.bool value)
  | .int value => put fields name (.int value)
  | .float value => put fields name (.float value)
  | .text value => put fields name (.text value)
  | .list items => put fields name (.list items)

/-- Sets fields of a table. What is no table becomes one as soon as there is a field to set. -/
def merge (target : RawValue) : List (String × RawValue) → RawValue
  | [] => target
  | (name, value) :: incoming => merge (.table (setField target.fields name value)) incoming

end

/-- A step below a setting. -/
inductive Step where
  /-- To a field of a table. -/
  | field (name : String)
  /-- To an item of a list. No setting is a list, so it is all one which item it is. -/
  | item

/-- A value with another one set at the end of some steps. What is no table on the way to a field
becomes one, and what is on the way to an item becomes a list. -/
def setBelow (target : RawValue) : List Step → RawValue → RawValue
  | [], value => value
  | [.field name], value => .table (setField target.fields name value)
  | .field name :: path, value =>
    let inner := (find? target.fields name).getD .null
    .table (put target.fields name (setBelow inner path value))
  | .item :: path, value => .list [setBelow .null path value]

/-- Sets a field, or something below it. -/
def setPath (fields : RawFields) (name : String) (path : List Step) (value : RawValue) :
    RawFields :=
  if path.isEmpty then setField fields name value
  else put fields name (setBelow ((find? fields name).getD .null) path value)

/-- Whether a character may stand in the parts of the name of a setting. -/
def isNameChar (c : Char) : Bool := c.isAlphanum || c = ' ' || c = '_' || c = '-'

/-- What follows a subscript after its opening bracket: an integer of 64 bits with blanks around
it, and the closing bracket. -/
def skipSubscript? (cs : List Char) : Option (List Char) :=
  let isBlank (c : Char) : Bool := c = ' ' || c = '\t'
  let (negative, cs) : Bool × List Char :=
    match cs.dropWhile isBlank with
    | '-' :: cs => (true, cs)
    | cs => (false, cs)
  let (digits, cs) := Decimal.splitDigits cs
  let n : Int := Decimal.ofDigits digits
  match cs.dropWhile isBlank with
  | ']' :: rest =>
    if digits.isEmpty || !RawValue.isInt64 (if negative then -n else n) then none else some rest
  | _ => none

/-- The steps that a text is made of: names after dots, and subscripts. The bound on the number of
steps is for the recursion only. -/
def steps? : Nat → List Char → Option (List Step)
  | _, [] => some []
  | 0, _ => none
  | bound + 1, '.' :: cs =>
    let name := cs.takeWhile isNameChar
    if name.isEmpty then none
    else (steps? bound (cs.dropWhile isNameChar)).map (Step.field (String.ofList name) :: ·)
  | bound + 1, '[' :: cs =>
    match skipSubscript? cs with
    | some rest => (steps? bound rest).map (Step.item :: ·)
    | none => none
  | _, _ => none

/-- The field that the name of a setting starts with, and the steps below it. A name that is not
made of a field and steps is the name of a field as it is. -/
def pathOf (name : String) : String × List Step :=
  let cs := name.toList
  let first := cs.takeWhile isNameChar
  match steps? cs.length (cs.dropWhile isNameChar) with
  | some path => if first.isEmpty then (name, []) else (String.ofList first, path)
  | none => (name, [])

/-- A name of name characters alone has no steps. -/
theorem pathOf_of_all (name : String) (h : name.toList.all isNameChar) :
    pathOf name = (name, []) := by
  have hc : ∀ c ∈ name.toList, isNameChar c = true := List.all_eq_true.1 h
  have ht : (name.toList ++ []).takeWhile isNameChar = _ := List.takeWhile_append_of_pos hc
  have hd : (name.toList ++ []).dropWhile isNameChar = _ := List.dropWhile_append_of_pos hc
  rw [List.append_nil] at ht hd
  simp only [pathOf, ht, hd, List.takeWhile_nil, List.dropWhile_nil, List.append_nil, steps?,
    String.ofList_toList]
  split <;> rfl

/-- Without steps it is the field itself that is set. -/
@[simp] theorem setPath_nil (fields : RawFields) (name : String) (value : RawValue) :
    setPath fields name [] value = setField fields name value := rfl

/-- Lays the settings of a source above what is there. -/
def layer (fields : RawFields) (source : List (String × RawValue)) : RawFields :=
  source.foldl (fun fields (name, value) =>
    let (first, path) := pathOf name.toLower
    setPath fields first path value) fields

theorem find?_put (fields : RawFields) (name other : String) (value : RawValue) :
    find? (put fields name value) other =
      if other = name then some value else find? fields other := by
  by_cases h : other = name
  · subst h
    simp [find?, put]
  · have hb : (other == name) = false := by simpa using h
    simp only [find?, put, List.lookup_cons, hb, if_neg h]
    induction fields with
    | nil => rfl
    | cons f fields ih =>
      obtain ⟨key, v⟩ := f
      by_cases hk : key = name
      · have ho : (other == key) = false := by simpa [hk] using h
        simpa [hk, List.lookup_cons, hb] using ih
      · by_cases ho : other = key
        · simp [ho, hk]
        · have ho' : (other == key) = false := by simpa using ho
          simpa [List.lookup_cons, ho', hk] using ih

/-- Setting a field to something other than a table shows that value there, and changes no other
field. -/
theorem find?_setField_of_not_table (fields : RawFields) (name other : String) (value : RawValue)
    (h : ∀ incoming, value ≠ .table incoming) :
    find? (setField fields name value) other =
      if other = name then some value else find? fields other := by
  cases value <;> first
    | exact absurd rfl (h _)
    | exact find?_put fields name other _

end RawFields

end TieredStore
