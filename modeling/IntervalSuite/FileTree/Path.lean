/-!
# Paths

A path is a text of names with slashes between them. Empty names and `.` lead nowhere, `..` leads to
the directory above.
-/

namespace IntervalSuite.Path

/-- The name can stand for an entry of a directory. -/
structure Plain (name : String) : Prop where
  ne_empty : name ≠ ""
  ne_dot : name ≠ "."
  ne_dots : name ≠ ".."
  noSlash : '/' ∉ name.toList

instance (name : String) : Decidable (Plain name) :=
  decidable_of_iff (name ≠ "" ∧ name ≠ "." ∧ name ≠ ".." ∧ '/' ∉ name.toList)
    ⟨fun ⟨hempty, hdot, hdots, hslash⟩ => ⟨hempty, hdot, hdots, hslash⟩,
      fun h => ⟨h.ne_empty, h.ne_dot, h.ne_dots, h.noSlash⟩⟩

/-- The path starts at the root. -/
def isAbsolute (path : String) : Bool := path.toList.head? = some '/'

/-- The path followed by `part`. An absolute part replaces the path, and an empty part leaves a
slash at its end. -/
def join (path part : String) : String :=
  if isAbsolute part then part
  else if path.toList.getLast?.all (· = '/') then path ++ part
  else path ++ "/" ++ part

/-- The names along a path. -/
def names (path : String) : List String :=
  ((path.toList.splitOn '/').filter fun name => name ≠ [] && name ≠ ['.']).map String.ofList

/-- The path can only lead to a directory: behind its last slash stands nothing or a dot. -/
def endsInDirectory (path : String) : Bool :=
  let last := (path.toList.splitOn '/').getLast?.getD []
  last == [] || last == ['.']

/-- The name of a file up to its last dot; a dot at the start does not count. -/
def stem (name : String) : String :=
  let cs := name.toList
  let suffix := cs.reverse.takeWhile (· ≠ '.')
  let front := cs.take (cs.length - suffix.length - 1)
  if suffix.length = cs.length ∨ front = [] then name else String.ofList front

end IntervalSuite.Path
