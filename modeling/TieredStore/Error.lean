/-!
# Errors

What can go wrong, by kind, with the text that a reader sees. The operations of the library raise
the named errors at the end of this file and of the files that define them.
-/

namespace TieredStore

/-- Why an operation failed. -/
inductive Error where
  /-- Something was not tracked where it was expected. -/
  | notFound (entity id : String)
  /-- Something is tracked already and cannot be added again. -/
  | alreadyExists (entity id : String)
  /-- The books do not match what the proxies report about themselves. -/
  | invalidState (message : String)
  /-- A setting of the whole process was to be changed after it had become fixed. -/
  | configConflict (message : String)
  /-- A file could not be read, written or removed. -/
  | io (message : String)
  /-- An object could not be turned into frames. -/
  | serialization (message : String)
  /-- Frames or a text could not be read back. -/
  | deserialization (message : String)
  /-- A setting is out of range or cannot be understood. -/
  | validation (message : String)
  deriving DecidableEq

namespace Error

/-- The text of an error. -/
def display : Error → String
  | notFound entity id => entity ++ " `" ++ id ++ "` was not found"
  | alreadyExists entity id => entity ++ " `" ++ id ++ "` already exists"
  | invalidState message => "invalid state: " ++ message
  | configConflict message => "configuration conflict: " ++ message
  | io message => "I/O error: " ++ message
  | serialization message => "serialization error: " ++ message
  | deserialization message => "deserialization error: " ++ message
  | validation message => "validation error: " ++ message

/-- A file that was to be read or removed is not there. -/
def missingFile (path : String) : Error := io ("no such file: " ++ path)

/-- A file could not be written. -/
def unwritableFile (path : String) : Error := io ("cannot write: " ++ path)

/-- A directory could not be created. -/
def uncreatableDirectory (path : String) : Error := io ("cannot create directory: " ++ path)

end Error

end TieredStore
