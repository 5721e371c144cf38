import IntervalSuite.Respelling
import IntervalSuite.Specification.Resolution

/-!
# Targets of generation

A target is a specification and a spelling of its own for each hook: any function from texts to texts,
of which the respelling rules of a language are one. The errors of this module abort the generation of
a whole file; an operation that the target does not know only gives a warning.
-/

namespace IntervalSuite.Generation

/-- What a document is rendered for. -/
structure Target where
  spec : Specification
  /-- How the texts of each hook are spelled. -/
  respelling : Hook → String → String

/-- Why a document can not be rendered. -/
inductive Error where
  | lookup (cause : Specification.LookupError)
  /-- The tightest and the accurate outputs of a test have different types. -/
  | outputTypes (operation tightest accurate : String) (line : Nat)
  /-- The template of an operation gives fewer results than the test declares. -/
  | resultArity (signature : String) (outputs groups line : Nat)
  deriving DecidableEq, Repr

/-- The text of an error. -/
def Error.message : Error → String
  | lookup cause => cause.message
  | outputTypes operation tightest accurate line =>
    s!"outputs of '{operation}' in line {line} differ in type: tightest {tightest}, " ++
      s!"accurate {accurate}"
  | resultArity signature outputs groups line =>
    s!"operation '{signature}' in line {line} yields {groups} result group(s) for " ++
      s!"{outputs} output(s)"

namespace Target

/-- The text under a key. -/
def text (target : Target) (key : String) : Except Error String :=
  (target.spec.text key).mapError .lookup

/-- The width by which a flag asks to indent, if it does. -/
def indentWidth (target : Target) (key : String) : Except Error (Option Nat) := do
  if ← (target.spec.flag key).mapError .lookup then
    let width ← (target.spec.number "lang_spaces_indent").mapError .lookup
    return some width.toNat
  else return none

/-- What a target knows about an operation. -/
inductive Lookup where
  /-- The key of the operation's template. -/
  | known (key : String)
  /-- The warning that there is no template. -/
  | unknown (warning : String)
  deriving DecidableEq, Repr

/-- The warning about an operation without a template. -/
def unknownOperation (signature language : String) : String :=
  s!"WARNING: no matching operation found for operation {signature}, language {language}"

/-- The template key for a signature. -/
def lookup (target : Target) (stem signature : String) : Except Error Lookup :=
  match target.spec.resolve stem signature with
  | some resolution => .ok (.known resolution.key)
  | none => do return .unknown (unknownOperation signature (← target.text "lang_name"))

end Target

end IntervalSuite.Generation
