import IntervalSuite.Readers
import IntervalSuite.Text.Blank

/-!
# Respelling

A language may need some texts in a form of its own: strings with other quotes, numbers without
suffixes, names without dots. For each of these hooks it can give rules, which are applied in order,
each to the result of the rule before it.
-/

namespace IntervalSuite

/-- The texts that can be respelled. -/
inductive Hook where
  /-- String literals with their quotes. -/
  | string
  /-- Integer constants with their suffixes. -/
  | integer
  /-- Floating-point constants with their suffixes. -/
  | float
  /-- The dotted names of testcases. -/
  | name
  deriving DecidableEq, Repr

namespace Hook

/-- The key of a hook. -/
def key : Hook → String
  | string => "string"
  | integer => "int"
  | float => "fp_num"
  | name => "qualident"

/-- All hooks, in the order in which their rules are read. -/
def all : List Hook := [string, integer, float, name]

end Hook

/-- Replaces all matches of a pattern. -/
structure RespellingRule where
  pattern : Matcher
  replacement : String

/-- The rules of each hook. -/
structure Respelling where
  rules : Hook → List RespellingRule

namespace Respelling

/-- Leaves every text as it is. -/
def none : Respelling := ⟨fun _ => []⟩

/-- The text as the rules of the hook spell it. -/
def apply (respelling : Respelling) (hook : Hook) (text : String) : String :=
  let step (text : String) (rule : RespellingRule) : String :=
    rule.pattern.replaceAll rule.replacement text
  (respelling.rules hook).foldl step text

instance : CoeFun Respelling fun _ => Hook → String → String := ⟨apply⟩

/-- The number of rules. -/
def count (respelling : Respelling) : Nat :=
  (Hook.all.flatMap respelling.rules).length

/-- Why rules could not be read. -/
inductive Error where
  /-- The text is no YAML document of the right shape. -/
  | shape
  /-- A pattern is not valid. -/
  | pattern (hook : Hook) (source : String)
  deriving DecidableEq, Repr

/-- The value of a field that is written exactly once. -/
def onlyField? (fields : List (String × Yaml.Node)) (key : String) : Option String :=
  match fields.filter (·.1 == key) with
  | [(_, node)] => node.scalar?
  | _ => Option.none

/-- The pattern and the replacement that a node gives. Other fields are passed over. -/
def source? (node : Yaml.Node) : Option (String × String) := do
  let fields ← node.entries?
  return (← onlyField? fields "pattern", ← onlyField? fields "replace")

/-- The patterns and replacements of each hook in a document. -/
def sources? (root : Yaml.Node) : Option (List (Hook × List (String × String))) := do
  let entries ← root.entries?
  let known := entries.all fun (key, _) => (Hook.all.map Hook.key).contains key
  if !known then Option.none
  else Hook.all.mapM fun hook =>
    match entries.filter (·.1 == hook.key) with
    | [] => some (hook, [])
    | [(_, node)] => do return (hook, ← (← node.items?).mapM source?)
    | _ => Option.none

variable [Readers]

/-- The rules with their patterns read. -/
def compile (hook : Hook) (sources : List (String × String)) : Except Error (List RespellingRule) :=
  sources.mapM fun (source, replacement) =>
    match Readers.pattern? source with
    | some pattern => .ok ⟨pattern, replacement⟩
    | Option.none => .error (.pattern hook source)

/-- Reads rules. A blank text, and one that holds no document, gives no rules. -/
def read (source : String) : Except Error Respelling :=
  if Text.allBlank source then .ok none
  else match (Readers.yaml? source).bind fun root => sources? (root.getD .nothing) with
    | Option.none => .error .shape
    | some sources => do
      let compiled ← sources.mapM fun (hook, sources) => (hook, ·) <$> compile hook sources
      return ⟨fun hook => (compiled.lookup hook).getD []⟩

end Respelling

end IntervalSuite
