/-!
# YAML nodes

What a YAML document holds: scalars, lists and mappings. A plain scalar (one without quotes) is kept
apart from a quoted one, because only a plain scalar can stand for a number, a boolean or no value.
-/

namespace IntervalSuite.Yaml

/-- A node of a YAML document. -/
inductive Node where
  /-- A scalar without quotes; the empty one is what stands where nothing is written. -/
  | plain (text : String)
  /-- A quoted scalar or a block of text. -/
  | quoted (text : String)
  | list (items : List Node)
  /-- The keys and values in the order in which they are written. -/
  | mapping (entries : List (Node × Node))
  deriving Repr, Inhabited

namespace Node

/-- What stands where nothing is written. -/
def nothing : Node := plain ""

/-- The text of a scalar. -/
def scalar? : Node → Option String
  | plain text => some text
  | quoted text => some text
  | _ => none

/-- The items of a list; where nothing is written there is an empty list. -/
def items? : Node → Option (List Node)
  | list items => some items
  | plain text => if text = "" then some [] else none
  | _ => none

/-- The entries of a mapping whose keys are scalars; where nothing is written there is an empty
mapping. -/
def entries? : Node → Option (List (String × Node))
  | mapping entries => entries.mapM fun (key, value) => key.scalar?.map (·, value)
  | plain text => if text = "" then some [] else none
  | _ => none

end Node

end IntervalSuite.Yaml
