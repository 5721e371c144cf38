import IntervalSuite.CommandLine

/-!
# The program

Reads the directories that a call works on into a file tree, makes the call, and writes back what
has changed in the tree.
-/

namespace IntervalSuite.Main

/-- How much of a directory is read. -/
inductive Depth where
  /-- The files in the directory itself. -/
  | flat
  /-- The files in the directory and below it. -/
  | deep
  deriving DecidableEq

/-- Adds what stands at a path to the tree: files whose names end in `ending` with their contents,
other files without. -/
partial def load (depth : Depth) (ending : String) (tree : FileTree) (path : String) :
    IO FileTree := do
  let place := (← IO.currentDir) / path
  if ← place.isDir then
    let mut tree := (tree.makeDirectories (tree.origin path) (Path.names path)).1
    for entry in ← place.readDir do
      let below := Path.join path entry.fileName
      if depth = .deep || !(← entry.path.isDir) then
        tree ← load depth ending tree below
    return tree
  else if ← place.pathExists then
    let content ← if path.endsWith ending then Content.ofBytes <$> IO.FS.readBinFile place
      else pure (.raw [])
    return (tree.write path content).1
  else return tree

/-- The file tree that a run works on. Nothing in the output directory is read. -/
def snapshot (options : Run.Options) : IO FileTree := do
  let home := Path.names (← IO.currentDir).toString
  let (made, _) := (FileTree.empty []).makeDirectories [] home
  let tree : FileTree := ⟨made.entries, made.nodup, home⟩
  let tree ← load .deep "\n" tree options.outputDirectory
  let tree ← load .deep ".yaml" tree options.pluginDirectory
  load .flat Plugin.sourceEnding tree options.sourceDirectory

/-- Writes the entries of `after` that are not in `before`. -/
def writeBack (before after : FileTree) : IO Unit := do
  for (location, entry) in after.entries.toList.reverse do
    if before.get? location ≠ some entry then
      let path := "/" ++ "/".intercalate location
      match entry with
      | .directory => IO.FS.createDirAll path
      | .file (.text text) => IO.FS.writeFile path text
      | .file (.raw _) => pure ()

/-- How the program is called. -/
def usage : String :=
  "Generate interval arithmetic test suites from ITL files\n\n" ++
  "Usage: itfgen [OPTIONS]\n\n" ++
  "Options:\n" ++
  "  -s, --source-directory <DIR>     Directory with ITL test files [default: itl]\n" ++
  "  -f, --file-regex <REGEX>         Regex the ITL file names must match [default: .*]\n" ++
  "  -c, --configurations <SELECTOR>  Configurations to generate, `*` or\n" ++
  "                                   ('<lang>','<test>','<arith>') tuples separated by `;`\n" ++
  "                                   [default: *]\n" ++
  "  -o, --output-directory <DIR>     Output directory for generated files [default: output]\n" ++
  "  -p, --plugin-directory <DIR>     Plugin directory with language, test and arithmetic\n" ++
  "                                   specifications [default: plugins]\n" ++
  "  -v, --verbose                    Report progress, warnings and timing\n" ++
  "  -h, --help                       Print help\n" ++
  "  -V, --version                    Print version"

end IntervalSuite.Main

open IntervalSuite in
/-- Does what the arguments ask for. -/
def main (args : List String) : IO UInt32 := do
  let command := CommandLine.parse args
  let tree ← match command with
    | .run options _ => Main.snapshot options
    | _ => pure (.empty [])
  let (after, report) := CommandLine.call tree args
  match command with
  | .help => IO.println Main.usage
  | .invalid => IO.eprintln Main.usage
  | _ => Main.writeBack tree after
  report.log.forM IO.println
  if report.summary ≠ "" then IO.eprintln report.summary
  if let some e := report.error then IO.eprintln s!"Error: {e.message}"
  return report.exitCode.toUInt32
