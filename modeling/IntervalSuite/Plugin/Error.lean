import IntervalSuite.Respelling

/-!
# Errors of discovery

What can go wrong while targets and source files are looked for.
-/

namespace IntervalSuite.Plugin

/-- Why targets or source files could not be found or read. -/
inductive Error where
  /-- A file or directory is there, but can not be read. -/
  | unreadable (path : String)
  /-- There is no file or directory of the kind `what` at the path. -/
  | notFound (what path : String)
  /-- The file holds no sheet. -/
  | sheet (path : String)
  /-- The file holds no respelling rules. -/
  | respelling (path : String) (cause : Respelling.Error)
  /-- The text is no selector. -/
  | selector (text : String)
  /-- The text is no pattern for file names. -/
  | filePattern (text : String)
  deriving DecidableEq, Repr

/-- The text of an error. The causes of unreadable files, sheets and rules are not part of it. -/
def Error.message : Error → String
  | unreadable path => s!"failed to read {path}"
  | notFound what path => s!"{what} not found: {path}"
  | sheet path => path
  | respelling path _ => path
  | selector text => s!"invalid configuration selector '{text}'"
  | filePattern text => s!"invalid file regex '{text}'"

end IntervalSuite.Plugin
