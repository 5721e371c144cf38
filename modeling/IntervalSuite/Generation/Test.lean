import IntervalSuite.Generation.Assertion
import IntervalSuite.Generation.Comment
import IntervalSuite.Text.Search

/-!
# Rendering tests

The operation of a test is looked up by its signature: its name with the types of its outputs and of
its inputs. The filled template gives the candidates of each result, one to a line, with a separator
line between two results. A test whose operation is unknown is dropped.
-/

namespace IntervalSuite.Generation

/-- What becomes of a test. -/
inductive Outcome where
  | rendered (text : String)
  | dropped (warning : String)
  deriving DecidableEq, Repr

namespace Outcome

/-- The text of a test; a dropped test has none. -/
def text : Outcome → String
  | rendered text => text
  | dropped _ => ""

/-- The warning about a dropped test. -/
def warning? : Outcome → Option String
  | rendered _ => none
  | dropped warning => some warning

end Outcome

/-- The types of the declared outputs. -/
def outputTypes (test : Itl.Test) : Except Error String :=
  match test.outputs with
  | .tightest tightest => .ok (Itl.typeSignature tightest)
  | .accurate accurate => .ok (Itl.typeSignature accurate)
  | .both tightest accurate =>
    let tightest := Itl.typeSignature tightest
    let accurate := Itl.typeSignature accurate
    if tightest = accurate then .ok accurate
    else .error (.outputTypes test.operation tightest accurate test.location.line)

/-- The number of declared outputs. -/
def outputCount : Itl.Outputs → Nat
  | .tightest tightest => tightest.length
  | .accurate accurate => accurate.length
  | .both tightest _ => tightest.length

/-- What the keys of an operation start with. -/
def operationStem (operation : String) : String := "arith_op_" ++ operation

/-- The signature of an operation. -/
def operationSignature (operation outputTypes inputTypes : String) : String :=
  operationStem operation ++ "<<" ++ outputTypes ++ ">><" ++ inputTypes ++ ">"

/-- The template with its arguments filled in, one after the other. -/
def fillArguments (template : String) (arguments : List String) : String :=
  arguments.zipIdx.foldl
    (fun text (argument, i) => Template.substitute text s!"ARG{i + 1}" argument) template

/-- The separator between two results of an operation. -/
def resultSeparator : String := "\n*** next output\n"

/-- The candidates of each result that a filled template gives. -/
def results (text : String) : List (List String) :=
  (Text.splitBetween resultSeparator.toList text.toList).map fun result =>
    ((result.splitOn '\n').filter (· ≠ [])).map String.ofList

/-- A test in the target language. -/
def renderTest (target : Target) (test : Itl.Test) : Except Error Outcome := do
  let comments ← test.comments.mapM (renderComment target)
  let signature := operationSignature test.operation (← outputTypes test)
    (Itl.typeSignature test.inputs)
  match ← target.lookup (operationStem test.operation) signature with
  | .unknown warning => return .dropped warning
  | .known key =>
    let template ← target.text key
    let inputs ← test.inputs.mapM (renderLiteral target)
    let results := results (fillArguments template inputs)
    if results.length < outputCount test.outputs then
      throw (.resultArity signature (outputCount test.outputs) results.length test.location.line)
    match ← assertions target test.outputs results with
    | .unknown warning => return .dropped warning
    | .all assertions =>
      let frame ← target.text "test_test_seq"
      let text := Template.substitute (Text.trim frame) "COMMENTS" (Text.unlines comments)
      let text := Template.substitute (Text.trim text) "ASSERTS" (Text.unlines assertions)
      return .rendered (text ++ "\n")

end IntervalSuite.Generation
