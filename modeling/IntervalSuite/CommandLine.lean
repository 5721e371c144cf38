import IntervalSuite.Plugin.Selector
import IntervalSuite.Readers.Standard
import IntervalSuite.Run

/-!
# The command line

Options with a value have a short and a long name; the value follows as the next argument, or behind
the name, with or without an equals sign. Each option is given at most once. Arguments are read from
left to right, so that a request for help is answered if all arguments before it are right.
-/

namespace IntervalSuite.CommandLine

/-- The options that take a value. -/
inductive Setting where
  | sourceDirectory
  | filePattern
  | selector
  | outputDirectory
  | pluginDirectory
  deriving DecidableEq, Repr

namespace Setting

/-- The letter of an option. -/
def letter : Setting → Char
  | sourceDirectory => 's'
  | filePattern => 'f'
  | selector => 'c'
  | outputDirectory => 'o'
  | pluginDirectory => 'p'

/-- The long name of an option. -/
def name : Setting → String
  | sourceDirectory => "source-directory"
  | filePattern => "file-regex"
  | selector => "configurations"
  | outputDirectory => "output-directory"
  | pluginDirectory => "plugin-directory"

/-- All options that take a value. -/
def all : List Setting := [sourceDirectory, filePattern, selector, outputDirectory, pluginDirectory]

/-- The option can have this value: a directory has a name, and a selector can be read. -/
def accepts (setting : Setting) (value : String) : Bool :=
  match setting with
  | filePattern => true
  | selector => (Plugin.Selector.parse value).isOk
  | _ => value != ""

end Setting

/-- What the arguments so far have set. -/
structure Settings where
  values : List (Setting × String)
  verbose : Bool

namespace Settings

/-- Sets an option that has not been set. -/
def set? (settings : Settings) (setting : Setting) (value : String) : Option Settings :=
  if (settings.values.lookup setting).isSome || !(setting.accepts value) then none
  else some ⟨(setting, value) :: settings.values, settings.verbose⟩

/-- Asks for progress reports, which can be done once. -/
def setVerbose? (settings : Settings) : Option Settings :=
  if settings.verbose then none else some ⟨settings.values, true⟩

/-- The options of the run. -/
def options (settings : Settings) : Run.Options :=
  let standard := Run.Options.standard
  let value (setting : Setting) (other : String) : String :=
    (settings.values.lookup setting).getD other
  { sourceDirectory := value .sourceDirectory standard.sourceDirectory
    filePattern := value .filePattern standard.filePattern
    selector :=
      ((settings.values.lookup .selector).bind Plugin.Selector.parse?).getD standard.selector
    outputDirectory := value .outputDirectory standard.outputDirectory
    pluginDirectory := value .pluginDirectory standard.pluginDirectory }

end Settings

/-- What the arguments ask for. -/
inductive Command where
  | run (options : Run.Options) (verbose : Bool)
  | help
  | version
  /-- The arguments are wrong. -/
  | invalid

/-- What an argument leads to. -/
inductive Step where
  /-- The next argument is read. -/
  | next (settings : Settings)
  /-- The next argument is the value of the option. -/
  | value (settings : Settings) (setting : Setting)
  /-- No further argument is read. -/
  | stop (command : Command)

/-- The step to changed settings, if there are any. -/
def Step.ofSettings? : Option Settings → Step
  | some settings => next settings
  | none => stop .invalid

/-- The text without an equals sign at its start. -/
def dropEquals (cs : List Char) : List Char := if cs.head? = some '=' then cs.drop 1 else cs

/-- Reads the letters behind a single hyphen. An option takes the rest of the argument as its value,
if there is any. -/
def shortStep (settings : Settings) : List Char → Step
  | [] => .next settings
  | 'h' :: _ => .stop .help
  | 'V' :: _ => .stop .version
  | 'v' :: cs => match settings.setVerbose? with
    | some settings => shortStep settings cs
    | none => .stop .invalid
  | c :: cs => match Setting.all.find? (·.letter = c) with
    | none => .stop .invalid
    | some setting =>
      if cs.isEmpty then .value settings setting
      else .ofSettings? (settings.set? setting (String.ofList (dropEquals cs)))

/-- Reads a long name and the value behind its equals sign. -/
def longStep (settings : Settings) (cs : List Char) : Step :=
  let name := String.ofList (cs.takeWhile (· ≠ '='))
  match cs.dropWhile (· ≠ '='), Setting.all.find? (·.name = name) with
  | [], some setting => .value settings setting
  | _ :: value, some setting => .ofSettings? (settings.set? setting (String.ofList value))
  | [], none =>
    if name = "verbose" then .ofSettings? settings.setVerbose?
    else if name = "help" then .stop .help
    else if name = "version" then .stop .version
    else .stop .invalid
  | _, none => .stop .invalid

/-- The argument can be a value: it is no option. A hyphen alone is none. -/
def isValue (arg : String) : Bool := arg = "-" || arg.toList.head? ≠ some '-'

/-- Reads the arguments, where `pending` waits for its value. -/
def parseFrom (settings : Settings) (pending : Option Setting) : List String → Command
  | [] => if pending.isSome then .invalid else .run settings.options settings.verbose
  | arg :: args => match pending with
    | some setting =>
      match if isValue arg then settings.set? setting arg else none with
      | some settings => parseFrom settings none args
      | none => .invalid
    | none =>
      if arg = "--" then
        if args.isEmpty then .run settings.options settings.verbose else .invalid
      else if isValue arg then .invalid
      else
        let step := match arg.toList with
          | '-' :: '-' :: cs => longStep settings cs
          | _ :: cs => shortStep settings cs
          | [] => .stop .invalid
        match step with
        | .next settings => parseFrom settings none args
        | .value settings setting => parseFrom settings (some setting) args
        | .stop command => command

/-- What the arguments ask for. -/
def parse (args : List String) : Command := parseFrom ⟨[], false⟩ none args

/-- What a call leaves behind. -/
structure Report where
  exitCode : Nat
  /-- The lines that are written while the call runs. -/
  log : List String
  /-- The last line about what went wrong, if there is one. -/
  summary : String
  /-- The error that ended a run early. -/
  error : Option Run.Error

/-- The name and version of the program. -/
def versionText : String := "itfgen 0.1.0"

/-- The lines of the log that are shown. -/
def shownLines (verbose : Bool) (log : List Run.LogLine) : List String :=
  (log.filter fun line => verbose || line.level ≠ .info).map Run.LogLine.text

/-- The report on a run. -/
def reportRun (verbose : Bool) (result : Run.Result) : Report :=
  let log := shownLines verbose result.progress.log
  let s := result.progress.summary
  match result.error with
  | some e => ⟨1, log, "", some e⟩
  | none =>
    if s.skippedFiles = 0 ∧ s.failed = 0 then ⟨0, log, "", none⟩
    else
      let summary :=
        s!"{s.skippedFiles} of {s.files} file(s) did not parse, {s.failed} generation(s) failed"
      ⟨1, log, summary, none⟩

/-- Does what the arguments ask for. -/
def call (tree : FileTree) (args : List String) : FileTree × Report :=
  match parse args with
  | .invalid => (tree, ⟨2, [], "", none⟩)
  | .help => (tree, ⟨0, [], "", none⟩)
  | .version => (tree, ⟨0, [versionText], "", none⟩)
  | .run options verbose =>
    let result := Run.run tree options
    (result.progress.tree, reportRun verbose result)

end IntervalSuite.CommandLine
