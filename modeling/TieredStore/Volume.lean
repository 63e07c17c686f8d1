import TieredStore.Bytes
import TieredStore.Error
import TieredStore.Path
import TieredStore.Table

/-!
# The files of a spill directory

What the library relies on of a file system: one directory, which may be missing, with files that
are read, written and removed whole. Any file may refuse to be written.
-/

namespace TieredStore

/-- A directory and the files in it. -/
structure Volume where
  /-- Whether the directory is there. -/
  isPresent : Bool
  /-- The files. -/
  files : Table Path Bytes
  /-- The files that cannot be written, whatever the reason. -/
  refused : List Path

namespace Volume

/-- A directory without files. -/
def empty : Volume := ⟨true, .empty, []⟩

/-- Whether a file is there. -/
def contains (v : Volume) (path : Path) : Bool := v.files.contains path

/-- The content of a file. -/
def read (path : Path) : EStateM Error Volume Bytes := fun v =>
  match v.files.find? path with
  | some data => .ok data v
  | none => .error (.missingFile path.text) v

/-- Writes a file, in place of what it held before. -/
def write (path : Path) (data : Bytes) : EStateM Error Volume Unit := fun v =>
  if v.isPresent && !v.refused.contains path then
    .ok () { v with files := v.files.insert path data }
  else .error (.unwritableFile path.text) v

/-- Removes a file. -/
def remove (path : Path) : EStateM Error Volume Unit := fun v =>
  if v.contains path then .ok () { v with files := v.files.erase path }
  else .error (.missingFile path.text) v

/-- Removes the directory and all files in it. -/
def removeDirectory (path : Path) : EStateM Error Volume Unit := fun v =>
  if v.isPresent then .ok () { v with isPresent := false, files := .empty }
  else .error (.missingFile path.text) v

/-- Creates the directory, if it is not there. -/
def createDirectory (v : Volume) : Volume := { v with isPresent := true }

/-- The volume without a file that may be there. -/
def discard (v : Volume) (path : Path) : Volume := { v with files := v.files.erase path }

/-- Removing a file that is there discards it. -/
theorem remove_of_contains {v : Volume} {path : Path} (h : v.contains path = true) :
    (remove path).run v = .ok () (v.discard path) := by
  simp [EStateM.run, remove, discard, h]

end Volume

end TieredStore
