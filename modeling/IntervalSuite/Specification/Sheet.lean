import IntervalSuite.Readers
import IntervalSuite.Specification
import IntervalSuite.Text.Blank

/-!
# Reading sheets

A sheet is a YAML mapping of scalars. A blank text, and one that holds no document, is an empty
sheet.
-/

namespace IntervalSuite

variable [Readers]

/-- The value that a YAML node stands for; lists, mappings and numbers out of range have none. -/
def Value.ofNode? : Yaml.Node → Option Value
  | .quoted s => some (.text s)
  | .plain s => match Readers.plainValue s with
    | .nothing => some .nothing
    | .flag b => some (.flag b)
    | .number n => some (.number n)
    | .text => some (.text s)
    | .unsupported => none
  | _ => none

/-- The sheet that a YAML text holds. -/
def Sheet.read? (source : String) : Option Sheet :=
  if Text.allBlank source then some []
  else do
    let root ← Readers.yaml? source
    let entries ← (root.getD .nothing).entries?
    entries.mapM fun (key, node) => (Value.ofNode? node).map (key, ·)

end IntervalSuite
