/-!
# Paths

A path is a text with slashes between its parts. Two paths are the same place if they have the
same parts: doubled and trailing slashes and inner dots make no difference, two dots do.
-/

namespace TieredStore

/-- A path in the file system. -/
structure Path where
  /-- The path as it is written. -/
  text : String
  deriving DecidableEq

namespace Path

/-- The parts of a path: a slash for the root of an absolute path, then the names between the
slashes. A dot is a part only at the very start of a relative path. -/
def components (p : Path) : List String :=
  match p.text.splitOn "/" with
  | [] => []
  | first :: rest =>
    let kept := rest.filter (fun name => name != "" && name != ".")
    if first == "" then (if rest.isEmpty then [] else "/" :: kept) else first :: kept

/-- Whether two paths have the same parts. -/
def same (p q : Path) : Bool := p.components == q.components

/-- The path of `name` inside the directory `p`. An absolute `name` stands for itself. -/
def join (p : Path) (name : String) : Path :=
  if name.startsWith "/" || p.text == "" then ⟨name⟩
  else if p.text.endsWith "/" then ⟨p.text ++ name⟩
  else ⟨p.text ++ "/" ++ name⟩

end Path

end TieredStore
