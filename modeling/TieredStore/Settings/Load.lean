import TieredStore.Json.Decode
import TieredStore.Settings
import TieredStore.Settings.Environment
import TieredStore.Settings.Layering
import TieredStore.Settings.Toml

/-!
# Loading settings

Settings come from the defaults, from files and from the environment, one above the other. They
are converted to their kinds once all sources are laid over one another, so a value that another
one covers is never looked at.
-/

namespace TieredStore

namespace Settings

/-- The formats of settings files. -/
inductive Format where
  /-- TOML. -/
  | toml
  /-- JSON. -/
  | json
  /-- YAML, INI, RON or JSON5. What is in a text is for the parser of the format to say. -/
  | other (parse? : String → Option RawFields)

/-- A settings file. -/
structure Source where
  /-- The format that the name of the file stands for, `none` if it stands for none. -/
  format : Option Format
  /-- The text of the file. -/
  text : String

/-- Lists and objects in a JSON file are nested less deeply than this. -/
def maxDepth : Nat := 128

/-- The number that a JSON file gives. Integers that take more than 64 bits, and a zero with a
minus sign, are floating-point numbers; numbers beyond all of these are refused. -/
def rawNumber? (value : Decimal) (isInteger : Bool) : Option RawValue :=
  let n : Int := if value.negative then -(value.digits : Int) else value.digits
  if isInteger && RawValue.isInt64 n && !(value.negative && n == 0) then some (.int n)
  else (Binary64.ofDecimalInHaste? value).map RawValue.float

mutual

/-- A JSON value as a raw value. Of several fields of one name the last one counts. -/
def rawOfJson? (depth : Nat) : Json → Option RawValue
  | .null => some .null
  | .bool value => some (.bool value)
  | .number value isInteger => rawNumber? value isInteger
  | .string value => value.map RawValue.text
  | .array items =>
    match depth with
    | 0 | 1 => none
    | depth + 2 => (rawItems? (depth + 1) items).map RawValue.list
  | .object fields =>
    match depth with
    | 0 | 1 => none
    | depth + 2 => (rawFields? (depth + 1) fields []).map RawValue.table

/-- The items of a list as raw values. -/
def rawItems? (depth : Nat) : List Json → Option (List RawValue)
  | [] => some []
  | item :: items =>
    match rawOfJson? depth item, rawItems? depth items with
    | some item, some items => some (item :: items)
    | _, _ => none

/-- The fields of an object as raw values, after those that were read before. -/
def rawFields? (depth : Nat) : List (Option String × Json) → RawFields → Option RawFields
  | [], fields => some fields
  | (none, _) :: _, _ => none
  | (some name, value) :: rest, fields =>
    match rawOfJson? depth value with
    | some value => rawFields? depth rest (RawFields.put fields name value)
    | none => none

end

/-- The settings in a text of a given format. -/
def Format.parse? : Format → String → Option RawFields
  | .toml, text => Toml.parse? text
  | .json, text =>
    match (Json.parse? text).bind (rawOfJson? maxDepth) with
    | some (.table fields) => some fields
    | _ => none
  | .other parse?, text => parse? text

/-- The defaults as a layer. There are none for the directories. -/
def defaultFields : RawFields := [
  ("device_memory_limit", .int default.deviceMemoryLimit),
  ("memory_limit", .int default.memoryLimit),
  ("shared_filesystem", .bool default.sharedFilesystem),
  ("compatibility_mode", .bool default.compatibilityMode),
  ("spill_on_demand", .bool default.spillOnDemand),
  ("compression", .bool default.compression)]

/-- The error for a file that cannot be read as settings. -/
def unreadableFile : Error := .validation "the settings file cannot be read"

/-- The error for a value that cannot be taken as the setting. -/
def unsuitableValue (name : String) : Error := .validation ("unsuitable value for " ++ name)

/-- The error for a setting that must be given and is not. -/
def missingValue (name : String) : Error := .validation ("missing field " ++ name)

/-- A setting converted to its kind. One that no layer has is `missing`, and if there is no such
value, it must be given. -/
def field {α : Type} (fields : RawFields) (name : String) (missing : Option α)
    (convert? : RawValue → Option α) : Except Error α :=
  match RawFields.find? fields name with
  | none => missing.elim (.error (missingValue name)) .ok
  | some value =>
    match convert? value with
    | some a => .ok a
    | none => .error (unsuitableValue name)

/-- The settings that the layers come to. The limits must be given, the others need not be. -/
def ofFields (fields : RawFields) : Except Error Settings := do
  let deviceMemoryLimit ← field fields "device_memory_limit" none RawValue.toWord?
  let memoryLimit ← field fields "memory_limit" none RawValue.toWord?
  let localDirectory ← field fields "local_directory" (some none) RawValue.toPath?
  let temporaryDirectory ← field fields "temporary_directory" (some none) RawValue.toPath?
  let sharedFilesystem ← field fields "shared_filesystem" (some false) RawValue.toBool?
  let compatibilityMode ← field fields "compatibility_mode" (some false) RawValue.toBool?
  let spillOnDemand ← field fields "spill_on_demand" (some true) RawValue.toBool?
  let compression ← field fields "compression" (some true) RawValue.toBool?
  return {
    deviceMemoryLimit, memoryLimit, localDirectory, temporaryDirectory, sharedFilesystem
    compatibilityMode, spillOnDemand, compression }

/-- The settings that the layers come to, if they are valid. -/
def resolve (fields : RawFields) : Except Error Settings := do
  let s ← ofFields fields
  s.validate
  return s

/-- Lays a file over the layers below it. A file that is missing or of an unknown format is
skipped. -/
def layerOptional (fields : RawFields) : Option Source → Except Error RawFields
  | some ⟨some format, text⟩ =>
    match format.parse? text with
    | some source => .ok (RawFields.layer fields source)
    | none => .error unreadableFile
  | _ => .ok fields

/-- The settings from the defaults, a file in the usual place, a file that the environment names,
and the environment itself. -/
def load (usual named : Option Source) (exported : List (String × String)) :
    Except Error Settings := do
  let fields ← layerOptional defaultFields usual
  let fields ← layerOptional fields named
  resolve (RawFields.layer fields (Environment.settings exported))

/-- The settings from the defaults and one file, which must be there and of a known format. -/
def loadFrom (file : Option Source) : Except Error Settings := do
  match file with
  | some ⟨some _, _⟩ => resolve (← layerOptional defaultFields file)
  | _ => throw unreadableFile

/-- The settings that a JSON text gives. The limits must be there, and values must be of their
kinds. -/
def ofJson? (j : Json) : Option Settings :=
  match j.record? ["device_memory_limit", "memory_limit", "local_directory", "temporary_directory",
    "shared_filesystem", "compatibility_mode", "spill_on_demand", "compression"] with
  | some [device, memory, localDir, temporary, shared, compatibility, onDemand, compression] => do
    let path? (j : Json) : Option (Option Path) := Json.optional? (fun j => j.text?.map Path.mk) j
    let deviceMemoryLimit ← Json.required? Json.word? device
    let memoryLimit ← Json.required? Json.word? memory
    let localDirectory ← Json.withDefault? none path? localDir
    let temporaryDirectory ← Json.withDefault? none path? temporary
    let sharedFilesystem ← Json.withDefault? default.sharedFilesystem Json.bool? shared
    let compatibilityMode ← Json.withDefault? default.compatibilityMode Json.bool? compatibility
    let spillOnDemand ← Json.withDefault? default.spillOnDemand Json.bool? onDemand
    let compression ← Json.withDefault? default.compression Json.bool? compression
    some {
      deviceMemoryLimit, memoryLimit, localDirectory, temporaryDirectory, sharedFilesystem
      compatibilityMode, spillOnDemand, compression }
  | _ => none

end Settings

end TieredStore
