import IntervalSuite.Generation.Document
import IntervalSuite.Itl.Document.Parser
import IntervalSuite.Plugin.Tree

/-!
# Runs

A run renders every selected source file for every selected configuration, one file after the other,
and writes the results to `<output>/<language>/<test library>/<arithmetic library>/<name>`. A file
that does not parse is skipped; a pair of a file and a configuration that can not be rendered is
skipped alone. All else ends the run, and what has been written up to then stays.
-/

namespace IntervalSuite.Run

/-- What a run works on. -/
structure Options where
  sourceDirectory : String
  filePattern : String
  selector : Plugin.Selector
  outputDirectory : String
  pluginDirectory : String

/-- The options of a run for which nothing else is said. -/
def Options.standard : Options := ⟨"itl", ".*", .all, "output", "plugins"⟩

/-- Why a run ended early. -/
inductive Error where
  | discovery (cause : Plugin.Error)
  /-- The specification of a configuration does not say how its files are named. -/
  | specification (configuration : Plugin.Configuration) (cause : Specification.LookupError)
  | read (path : String)
  | write (path : String)
  deriving DecidableEq, Repr

/-- The text of an error. -/
def Error.message : Error → String
  | discovery cause => cause.message
  | specification configuration cause =>
    "specification " ++ configuration.text ++ ": " ++ cause.message
  | read path => "failed to read " ++ path
  | write path => "failed to write " ++ path

/-! ## The log -/

/-- How important a line of the log is. -/
inductive Level where
  | info
  | warning
  | error
  deriving DecidableEq, Repr

/-- The word for a level. -/
def Level.word : Level → String
  | info => "INFO"
  | warning => "WARN"
  | error => "ERROR"

/-- A line of the log. -/
structure LogLine where
  level : Level
  message : String
  deriving DecidableEq, Repr

/-- A line of the log as it is written. -/
def LogLine.text (line : LogLine) : String := line.level.word ++ " " ++ line.message

/-! ## Destinations -/

/-- A configuration with all that belongs to it. -/
structure Destination where
  configuration : Plugin.Configuration
  target : Generation.Target
  /-- What the names of generated files end in. -/
  extension : String

variable [Readers]

/-- A configuration with its descriptions. -/
def loadDestination (tree : FileTree) (root : String) (configuration : Plugin.Configuration) :
    Except Error Destination := do
  let spec ← (Plugin.loadSpecification tree root configuration).mapError .discovery
  let respelling ← (Plugin.loadRespelling tree root configuration.language).mapError .discovery
  let extension ← (spec.text "lang_extension").mapError (.specification configuration)
  return ⟨configuration, ⟨spec, respelling.apply⟩, extension⟩

/-- The destinations that a selector asks for. -/
def loadDestinations (tree : FileTree) (root : String) (selector : Plugin.Selector) :
    Except Error (List Destination) := do
  let configurations ← (Plugin.configurations tree root selector).mapError .discovery
  configurations.mapM (loadDestination tree root)

/-- The directory for the results of a configuration. -/
def outputDirectory (root : String) (configuration : Plugin.Configuration) : String :=
  Path.join (Path.join (Path.join root configuration.language) configuration.testLibrary)
    configuration.arithLibrary

/-- The file for the result of a source file with the given name up to its ending. -/
def outputPath (root : String) (destination : Destination) (stem : String) : String :=
  Path.join (outputDirectory root destination.configuration) (stem ++ destination.extension)

/-! ## Runs -/

/-- What a run has done. -/
structure Summary where
  files : Nat
  /-- The files that did not parse. -/
  skippedFiles : Nat
  /-- The pairs of a file and a configuration that could not be rendered. -/
  failed : Nat
  /-- The files that have been written, in order. -/
  generated : List String
  warnings : Nat
  deriving DecidableEq, Repr

/-- The state of a run. -/
structure Progress where
  tree : FileTree
  /-- The log, the first line first. -/
  log : List LogLine
  summary : Summary

namespace Progress

/-- Adds lines to the log. -/
def logged (progress : Progress) (lines : List LogLine) : Progress :=
  ⟨progress.tree, progress.log ++ lines, progress.summary⟩

/-- Counts a file that did not parse. -/
def skippedFile (progress : Progress) : Progress :=
  let s := progress.summary
  ⟨progress.tree, progress.log, ⟨s.files, s.skippedFiles + 1, s.failed, s.generated, s.warnings⟩⟩

/-- Counts a pair that could not be rendered. -/
def failedPair (progress : Progress) : Progress :=
  let s := progress.summary
  ⟨progress.tree, progress.log, ⟨s.files, s.skippedFiles, s.failed + 1, s.generated, s.warnings⟩⟩

/-- Counts a written file. -/
def wrote (progress : Progress) (tree : FileTree) (path : String) (warnings : Nat) : Progress :=
  let s := progress.summary
  ⟨tree, progress.log,
    ⟨s.files, s.skippedFiles, s.failed, s.generated ++ [path], s.warnings + warnings⟩⟩

end Progress

/-- The state in which a run ended early. -/
structure Stopped where
  progress : Progress
  error : Error

/-- Renders a document for a destination, and writes the result. -/
def generatePair (options : Options) (stem : String) (document : Itl.Document)
    (progress : Progress) (destination : Destination) : Except Stopped Progress :=
  let path := outputPath options.outputDirectory destination stem
  let configuration := destination.configuration.text
  let progress := progress.logged
    [⟨.info, s!"Generating {path} for specification {configuration}"⟩]
  match Generation.generate destination.target document with
  | .error e =>
    let fields := s!" file={document.fileName} configuration={configuration}"
    .ok (progress.logged [⟨.error, e.message ++ fields⟩]).failedPair
  | .ok generated =>
    match progress.tree.write path (.text generated.content) with
    | (tree, false) => .error ⟨⟨tree, progress.log, progress.summary⟩, .write path⟩
    | (tree, true) =>
      .ok ((progress.wrote tree path generated.warnings.length).logged
        (generated.warnings.map (⟨.warning, ·⟩)))

/-- Renders the source file with the given name for all destinations. -/
def generateFile (options : Options) (destinations : List Destination) (progress : Progress)
    (name : String) : Except Stopped Progress :=
  let path := Path.join options.sourceDirectory name
  match progress.tree.read? path with
  | none => .error ⟨progress, .read path⟩
  | some source =>
    let progress := progress.logged ((Itl.diagnose source).map (⟨.warning, ·.message⟩))
    match Itl.parseDocument source name with
    | .error e => .ok (progress.logged [⟨.error, e.message⟩]).skippedFile
    | .ok document => destinations.foldlM (generatePair options (Path.stem name) document) progress

/-- How a run has ended: what it leaves behind, and its error if it ended early. -/
structure Result where
  progress : Progress
  error : Option Error

/-- The state of a run before its first file. -/
def Progress.start (tree : FileTree) (files destinations : Nat) : Progress :=
  ⟨tree, [⟨.info, s!"starting generation files={files} configurations={destinations}"⟩],
    ⟨files, 0, 0, [], 0⟩⟩

/-- What a run works through: the names of its source files, and its destinations. -/
def plan (tree : FileTree) (options : Options) : Except Error (List String × List Destination) := do
  let names ← (Plugin.sourceNames tree options.sourceDirectory options.filePattern).mapError
    .discovery
  let destinations ← loadDestinations tree options.pluginDirectory options.selector
  return (names, destinations)

/-- Runs over a file tree. -/
def run (tree : FileTree) (options : Options) : Result :=
  match plan tree options with
  | .error e => ⟨⟨tree, [], ⟨0, 0, 0, [], 0⟩⟩, some e⟩
  | .ok (names, destinations) =>
    match names.foldlM (generateFile options destinations)
      (Progress.start tree names.length destinations.length) with
    | .error stopped => ⟨stopped.progress, some stopped.error⟩
    | .ok progress =>
      ⟨progress.logged [⟨.info, s!"Generated output for {names.length} testfiles"⟩], none⟩

end IntervalSuite.Run
