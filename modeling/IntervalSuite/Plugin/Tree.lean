import IntervalSuite.FileTree
import IntervalSuite.Plugin.Configuration
import IntervalSuite.Plugin.Error
import IntervalSuite.Specification.Sheet

/-!
# Plugin trees

The targets are described in a directory of plugins:

* `<language>/lang.yaml`, the sheet of a language;
* `<language>/callbacks.yaml`, its respelling rules, which may be missing;
* `<language>/test/<library>/test.yaml`, the sheet of a test library;
* `<language>/arith/<library>/arith.yaml`, the sheet of an arithmetic library.

Each language with one of its test libraries and one of its arithmetic libraries is a configuration.
-/

namespace IntervalSuite.Plugin

/-! ## Configurations -/

/-- A directory with this name is not a plugin. -/
def isHidden (name : String) : Bool :=
  ".".toList.isPrefixOf name.toList || "__".toList.isPrefixOf name.toList

/-- The visible directories in a directory, in alphabetical order. -/
def subdirectories (tree : FileTree) (path : String) : Except Error (List String) :=
  match tree.list? path with
  | some names => .ok (names.filter fun name =>
      tree.hasDirectory (Path.join path name) && !(isHidden name))
  | none => .error (.notFound "directory" path)

/-- The languages below the root of the plugins. -/
def languages (tree : FileTree) (root : String) : Except Error (List String) :=
  subdirectories tree root

/-- The test libraries of a language. -/
def testLibraries (tree : FileTree) (root language : String) : Except Error (List String) :=
  subdirectories tree (Path.join (Path.join root language) "test")

/-- The arithmetic libraries of a language. -/
def arithLibraries (tree : FileTree) (root language : String) : Except Error (List String) :=
  subdirectories tree (Path.join (Path.join root language) "arith")

/-- The names that a choice allows: the given one, or else those that are found. -/
def candidates (name : Option String) (found : Except Error (List String)) :
    Except Error (List String) :=
  match name with
  | some name => .ok [name]
  | none => found

/-- The configurations of one language that fit a choice. -/
def expandLanguage (tree : FileTree) (root : String) (choice : Choice) (language : String) :
    Except Error (List Configuration) := do
  let tests ← candidates choice.testLibrary (testLibraries tree root language)
  let ariths ← candidates choice.arithLibrary (arithLibraries tree root language)
  return tests.flatMap fun test => ariths.map fun arith => ⟨language, test, arith⟩

/-- The configurations that fit a choice. -/
def expand (tree : FileTree) (root : String) (choice : Choice) :
    Except Error (List Configuration) := do
  let languages ← candidates choice.language (languages tree root)
  return (← languages.mapM (expandLanguage tree root choice)).flatten

/-- The configurations that a selector asks for, each of them once. A name that is given is not
looked for. -/
def configurations (tree : FileTree) (root : String) (selector : Selector) :
    Except Error (List Configuration) := do
  return (← selector.toList.mapM (expand tree root)).flatten.eraseDups

/-! ## Descriptions -/

variable [Readers]

/-- The text of a file that is there. -/
def readText (tree : FileTree) (path : String) : Except Error String :=
  match tree.read? path with
  | some text => .ok text
  | none => .error (.unreadable path)

/-- The sheet in a file, which is a sheet of the kind `what`. -/
def loadSheet (tree : FileTree) (path what : String) : Except Error Sheet := do
  if !(tree.hasFile path) then throw (.notFound what path)
  match Sheet.read? (← readText tree path) with
  | some sheet => return sheet
  | none => throw (.sheet path)

/-- The specification of a configuration. -/
def loadSpecification (tree : FileTree) (root : String) (configuration : Configuration) :
    Except Error Specification := do
  let directory := Path.join root configuration.language
  let language ← loadSheet tree (Path.join directory "lang.yaml") "language specification"
  let test ← loadSheet tree
    (Path.join (Path.join (Path.join directory "test") configuration.testLibrary) "test.yaml")
    "test library specification"
  let arith ← loadSheet tree
    (Path.join (Path.join (Path.join directory "arith") configuration.arithLibrary) "arith.yaml")
    "arithmetic library specification"
  return .ofSheets language test arith

/-- The respelling rules of a language. -/
def loadRespelling (tree : FileTree) (root language : String) : Except Error Respelling := do
  let path := Path.join (Path.join root language) "callbacks.yaml"
  if !(tree.hasFile path) then return .none
  (Respelling.read (← readText tree path)).mapError (.respelling path)

/-! ## Source files -/

/-- The ending of the names of source files. -/
def sourceEnding : String := ".itl"

/-- The names of the source files in a directory that match the pattern from their start on, in
alphabetical order. -/
def sourceNames (tree : FileTree) (directory pattern : String) : Except Error (List String) :=
  match Readers.pattern? ("^(?:" ++ pattern ++ ")") with
  | none => .error (.filePattern pattern)
  | some regex => match tree.list? directory with
    | none => .error (.notFound "source directory" directory)
    | some names => .ok (names.filter fun name =>
        tree.hasFile (Path.join directory name) &&
          sourceEnding.toList.isSuffixOf name.toList && regex.matches name)

/-- The paths of these files. -/
def sourceFiles (tree : FileTree) (directory pattern : String) : Except Error (List String) := do
  return (← sourceNames tree directory pattern).map (Path.join directory)

end IntervalSuite.Plugin
