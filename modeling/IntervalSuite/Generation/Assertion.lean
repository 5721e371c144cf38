import IntervalSuite.Generation.Literal
import IntervalSuite.Itl.Document

/-!
# Assertions

A test computes some results, each of which has one or more candidates: expressions that have to
give it. Every declared output is compared with every candidate of its result. Tightest outputs are
compared for equality; accurate outputs have to enclose the result. With both, equality with the
tightest output is only asked for softly, and the result has to lie between the two.
-/

namespace IntervalSuite.Generation

/-- Every output with every candidate of its result, in order. -/
def pairings (outputs : List String) (results : List (List String)) : List (String × String) :=
  (outputs.zip results).flatMap fun (output, candidates) => candidates.map (output, ·)

/-- The template with its two arguments, where the second one is filled in first. -/
def comparison (template first second : String) : String :=
  Template.substitute (Template.substitute template "ARG2" second) "ARG1" first

/-- The assertion that the first argument lies in the second one. -/
def assertWithin (subset assertTrue first second : String) : String :=
  Template.substitute assertTrue "ARG1"
    (Template.substitute (Template.substitute subset "ARG1" first) "ARG2" second)

/-- The assertion that the second argument encloses the first one. -/
def assertEncloses (subset assertTrue first second : String) : String :=
  Template.substitute assertTrue "ARG1" (comparison subset first second)

/-- The name under which the subset operation is looked up. -/
def subsetOperation : String := "arith_op_subset"

/-- The assertions of a test, or the warning that the subset operation is needed and unknown. -/
inductive Assertions where
  | all (assertions : List String)
  | unknown (warning : String)
  deriving DecidableEq, Repr

/-- The assertions about the results of a test. -/
def assertions (target : Target) (outputs : Itl.Outputs) (results : List (List String)) :
    Except Error Assertions := do
  let lineEnd ← target.text "lang_line_end_token"
  let each (outputs : List String) (assertion : String → String → String) : List String :=
    (pairings outputs results).map fun (output, candidate) => assertion candidate output ++ lineEnd
  match outputs with
  | .tightest tightest =>
    let equals ← target.text "test_assert_equals"
    let tightest ← tightest.mapM (renderLiteral target)
    return .all (each tightest (comparison equals))
  | .accurate accurate =>
    match ← target.lookup subsetOperation subsetOperation with
    | .unknown warning => return .unknown warning
    | .known key =>
      let subset ← target.text key
      let assertTrue ← target.text "test_assert_true"
      let accurate ← accurate.mapM (renderLiteral target)
      return .all (each accurate (assertWithin subset assertTrue))
  | .both tightest accurate =>
    match ← target.lookup subsetOperation subsetOperation with
    | .unknown warning => return .unknown warning
    | .known key =>
      let subset ← target.text key
      let equalsSoftly ← target.text "test_assert_equals_warning"
      let assertTrue ← target.text "test_assert_true"
      let tightest ← tightest.mapM (renderLiteral target)
      let accurate ← accurate.mapM (renderLiteral target)
      return .all (each tightest (comparison equalsSoftly) ++
        each tightest (fun candidate output => assertEncloses subset assertTrue output candidate) ++
        each accurate (assertWithin subset assertTrue))

end IntervalSuite.Generation
