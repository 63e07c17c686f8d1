import TieredStore.Settings.RawValue

/-!
# Settings from the environment

Which variables are settings, and what their texts stand for: truth values, integers and
floating-point numbers are recognised, and everything else is a text.
-/

namespace TieredStore

namespace Environment

/-- What the names of variables start with that are settings, in lower case. -/
def mark : String := "jitspill__"

/-- A text with a dot in place of each two underscores. -/
def dotted : List Char → List Char
  | [] => []
  | '_' :: '_' :: cs => '.' :: dotted cs
  | c :: cs => c :: dotted cs

/-- The name of the setting that a variable is for, in lower case and with dots between the names
of nested tables. -/
def settingName? (key : String) : Option String :=
  (mark.toList.isPrefixOf? key.toLower.toList).map (fun name => String.ofList (dotted name))

/-- An integer with a sign or without. -/
def intOfText? (s : String) : Option Int :=
  match s.toList with
  | '-' :: cs => (RawValue.natOfText? (String.ofList cs)).bind fun n =>
    if cs.head? = some '+' then none else some (-(n : Int))
  | _ => (RawValue.natOfText? s).map Int.ofNat

/-- A floating-point number without its sign: a name for infinity or for what is not a number, or
digits with a point anywhere among them and an exponent. -/
def magnitude? (negative : Bool) (cs : List Char) : Option Binary64 :=
  let name := (String.ofList cs).toLower
  if name = "inf" ∨ name = "infinity" then some (.infinite negative)
  else if name = "nan" then some .nan
  else
    let (whole, rest) := Decimal.splitDigits cs
    let (fraction, rest) :=
      match rest with
      | '.' :: rest => Decimal.splitDigits rest
      | _ => ([], rest)
    if whole.isEmpty && fraction.isEmpty then none
    else
      match Decimal.splitExponent? rest with
      | some (exponent, []) =>
        some (.ofDecimal (Decimal.ofParts negative whole fraction exponent))
      | _ => none

/-- A floating-point number. -/
def floatOfText? (s : String) : Option Binary64 :=
  match s.toList with
  | '-' :: cs => magnitude? true cs
  | '+' :: cs => magnitude? false cs
  | cs => magnitude? false cs

/-- What the text of a variable stands for. -/
def rawValue (s : String) : RawValue :=
  if s.toLower = "true" then .bool true
  else if s.toLower = "false" then .bool false
  else
    match (intOfText? s).filter RawValue.isInt64 with
    | some n => .int n
    | none =>
      match floatOfText? s with
      | some x => .float x
      | none => .text s

/-- The settings among the variables. -/
def settings (exported : List (String × String)) : List (String × RawValue) :=
  exported.filterMap fun (name, value) =>
    (settingName? name).map (fun name => (name, rawValue value))

end Environment

end TieredStore
