import IntervalSuite.Itl.Literal
import IntervalSuite.Itl.Location

/-!
# Documents

A document is a list of testcases; a testcase is a named list of tests; a test applies an operation
to inputs and declares the outputs that are tightest, those that are accurate, or both.
-/

namespace IntervalSuite.Itl

/-- The two forms of a comment that reaches the generated code. -/
inductive CommentStyle where
  /-- `// …`, up to the end of the line. -/
  | line
  /-- `/* … */`. -/
  | block
  deriving DecidableEq, Repr

/-- A comment with its delimiters. -/
structure Comment where
  style : CommentStyle
  text : String
  location : Location
  deriving DecidableEq, Repr

/-- The outputs that a test declares. -/
inductive Outputs where
  | tightest (outputs : List Literal)
  | accurate (outputs : List Literal)
  | both (tightest accurate : List Literal)
  deriving DecidableEq, Repr

namespace Outputs

/-- The outputs from their two optional parts, one of which has to be there. -/
def ofParts? : Option (List Literal) → Option (List Literal) → Option Outputs
  | some t, some a => some (both t a)
  | some t, none => some (tightest t)
  | none, some a => some (accurate a)
  | none, none => none

/-- The tightest outputs. -/
def tightest? : Outputs → Option (List Literal)
  | tightest t => some t
  | accurate _ => none
  | both t _ => some t

/-- The accurate outputs. -/
def accurate? : Outputs → Option (List Literal)
  | tightest _ => none
  | accurate a => some a
  | both _ a => some a

end Outputs

/-- One application of an operation. -/
structure Test where
  operation : String
  inputs : List Literal
  outputs : Outputs
  comments : List Comment
  location : Location
  deriving DecidableEq, Repr

/-- A test from its parts; it has to declare outputs. -/
def Test.ofParts (operation : String) (inputs : List Literal)
    (tightest accurate : Option (List Literal)) (comments : List Comment) (location : Location) :
    Except NodeError Test :=
  match Outputs.ofParts? tightest accurate with
  | some outputs => .ok ⟨operation, inputs, outputs, comments, location⟩
  | none => .error (.missingOutputs operation)

/-- A named group of tests. -/
structure Testcase where
  /-- The identifiers of the dotted name. -/
  name : List String
  tests : List Test
  comments : List Comment
  location : Location
  deriving DecidableEq, Repr

/-- The name of a testcase with its dots. -/
def Testcase.dottedName (t : Testcase) : String := ".".intercalate t.name

/-- The content of one source file. -/
structure Document where
  fileName : String
  comment : Option Comment
  testcases : List Testcase
  deriving DecidableEq, Repr

/-- The number of tests in all testcases. -/
def Document.testCount (d : Document) : Nat := (d.testcases.flatMap (·.tests)).length

end IntervalSuite.Itl
