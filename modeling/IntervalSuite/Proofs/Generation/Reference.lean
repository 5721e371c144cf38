import IntervalSuite.Generation.Document
import IntervalSuite.Proofs.Template.Filling

/-!
# The reference renderer

The reference renderer says what a document looks like in the target language: each template has all
its placeholders filled at once, and a list of values is joined before it is put in its place. It
does not fail; a text that the target does not have is empty.

The conditions below are on the templates and the texts that a document uses. A template has to be
well separated and to mention only the names that have a value at the place of its use; every other
text has to hold no dollar sign. A text that is put nowhere is not asked for anything.

* `Reference.document`: a document in the target language.
* `ClosedDocument`: the condition on a document and a target.
-/

namespace IntervalSuite.Generation

open Template

/-- The text under a key; a missing text is empty. -/
def Target.textD (target : Target) (key : String) : String := (target.text key).toOption.getD ""

/-- The width by which a flag asks to indent; a flag that can not be read asks for nothing. -/
def Target.indentWidthD (target : Target) (key : String) : Option Nat :=
  (target.indentWidth key).toOption.getD none

namespace Reference

/-! ## Literals -/

/-- A number in the template of its type, if the language has one. -/
def number (target : Target) (number type : String) : String :=
  match target.spec.get? ("lang_literal_" ++ type) with
  | some template => fillAll template.render [("NUM", number)]
  | none => number

/-- A floating constant or an infinity. -/
def scalar (target : Target) (type : Itl.FloatType) : Itl.Scalar → String
  | .number text => number target (target.respelling .float text) type.name
  | .infinity .plus => target.textD ("arith_infinity_plus_" ++ type.name)
  | .infinity .minus => target.textD ("arith_infinity_minus_" ++ type.name)

/-- A decoration. -/
def decoration (target : Target) (decoration : Itl.Decoration) : String :=
  target.textD ("arith_decorator_" ++ decoration.name)

/-- The text from which an interval is made: a template, but for a special interval without a
decoration. -/
def intervalText (target : Target) : Itl.Interval → String
  | .special kind type none => target.textD s!"arith_{kind.word}_interval_{type.name}"
  | .special kind type (some _) => target.textD s!"arith_decorated_{kind.word}_interval_{type.name}"
  | .infSup type _ _ none => target.textD s!"arith_inf_sup_interval_{type.name}"
  | .infSup type _ _ (some _) => target.textD s!"arith_decorated_inf_sup_interval_{type.name}"

/-- An interval. -/
def interval (target : Target) (value : Itl.Interval) : String :=
  let text := intervalText target value
  match value with
  | .special _ _ none => text
  | .special _ _ (some d) => fillAll text [("DEC", decoration target d)]
  | .infSup type inf sup none =>
    fillAll text [("ARG1", scalar target type inf), ("ARG2", scalar target type sup)]
  | .infSup type inf sup (some d) =>
    fillAll text [("ARG1", scalar target type inf), ("ARG2", scalar target type sup),
      ("DEC", decoration target d)]

/-- The type of an integer, as the templates of numbers call it. -/
def integerType (type : Itl.IntType) (unsigned : Bool) : String :=
  if unsigned then "unsigned_" ++ type.name else type.name

/-- A literal. -/
def literal (target : Target) : Itl.Literal → String
  | .integer text type unsigned =>
    number target (target.respelling .integer text) (integerType type unsigned)
  | .real type value => scalar target type value
  | .string text => target.respelling .string text
  | .boolean true => target.textD "lang_boolean_true"
  | .boolean false => target.textD "lang_boolean_false"
  | .overlap state => target.textD ("arith_overlap_" ++ state.name)
  | .interval value => interval target value

/-! ## Tests -/

/-- A comment, with the tokens of the target. -/
def comment (target : Target) (comment : Itl.Comment) : String :=
  match comment.style with
  | .line => target.textD "lang_line_comment_token" ++ lineCommentBody comment.text
  | .block =>
    let lines := (blockCommentLines comment.text).map
      (target.textD "lang_block_comment_intermediate" ++ ·)
    target.textD "lang_block_comment_start" ++ "\n" ++ Text.unlines lines ++ "\n" ++
      target.textD "lang_block_comment_end"

/-- Values under the names of the arguments, from `ARG1` on. -/
def arguments {α : Type} (values : List α) : List (String × α) :=
  values.zipIdx.map fun (value, i) => (s!"ARG{i + 1}", value)

/-- The template of a comparison with its two arguments. -/
def comparison (template first second : String) : String :=
  fillAll template [("ARG1", first), ("ARG2", second)]

/-- The assertion that the first argument lies in the second one. -/
def within (subset assertTrue first second : String) : String :=
  fillAll assertTrue [("ARG1", comparison subset first second)]

/-- Every output compared with every candidate of its result. -/
def each (target : Target) (results : List (List String)) (outputs : List Itl.Literal)
    (assertion : String → String → String) : List String :=
  (pairings (outputs.map (literal target)) results).map fun (output, candidate) =>
    assertion candidate output ++ target.textD "lang_line_end_token"

/-- The key of the subset operation. -/
def subsetKey? (target : Target) : Option String :=
  (target.spec.resolve subsetOperation subsetOperation).map (·.key)

/-- The assertions about the results of a test, unless they need a subset operation that is
unknown. -/
def assertions? (target : Target) (results : List (List String)) :
    Itl.Outputs → Option (List String)
  | .tightest tightest =>
    some (each target results tightest (comparison (target.textD "test_assert_equals")))
  | .accurate accurate => do
    let subset := target.textD (← subsetKey? target)
    let assertTrue := target.textD "test_assert_true"
    return each target results accurate (within subset assertTrue)
  | .both tightest accurate => do
    let subset := target.textD (← subsetKey? target)
    let assertTrue := target.textD "test_assert_true"
    let equalsSoftly := target.textD "test_assert_equals_warning"
    let encloses (candidate output : String) : String := within subset assertTrue output candidate
    return each target results tightest (comparison equalsSoftly) ++
      each target results tightest encloses ++
      each target results accurate (within subset assertTrue)

/-- The key of the operation of a test. -/
def operationKey? (target : Target) (test : Itl.Test) : Option String := do
  let types ← (outputTypes test).toOption
  let signature := operationSignature test.operation types (Itl.typeSignature test.inputs)
  (target.spec.resolve (operationStem test.operation) signature).map (·.key)

/-- The candidates of each result that the operation under a key gives. -/
def candidates (target : Target) (test : Itl.Test) (key : String) : List (List String) :=
  results (fillAll (target.textD key) (arguments (test.inputs.map (literal target))))

/-- A test, unless its operation is unknown. -/
def test? (target : Target) (test : Itl.Test) : Option String := do
  let key ← operationKey? target test
  let assertions ← assertions? target (candidates target test key) test.outputs
  return Text.trim (fillAll (target.textD "test_test_seq")
    [("COMMENTS", Text.unlines (test.comments.map (comment target))),
      ("ASSERTS", Text.unlines assertions)])

/-! ## Files -/

/-- The tests of a testcase that are not blank. -/
def tests (target : Target) (testcase : Itl.Testcase) : List String :=
  dropBlank (testcase.tests.map fun test =>
    layOut (target.indentWidthD "lang_indent_tests") ((test? target test).getD ""))

/-- The values for the frame of a testcase. -/
def testcaseValues (target : Target) (testcase : Itl.Testcase) : List (String × String) :=
  [("COMMENTS", "\n".intercalate (testcase.comments.map (comment target))),
    ("TC_NAME", target.respelling .name testcase.dottedName),
    ("TESTS", "\n".intercalate (tests target testcase))]

/-- A testcase. -/
def testcase (target : Target) (testcase : Itl.Testcase) : String :=
  fillAll (target.textD "test_testcase_seq") (testcaseValues target testcase)

/-- The testcases of a document that are not blank. -/
def testcases (target : Target) (document : Itl.Document) : List String :=
  dropBlank (document.testcases.map fun t =>
    layOut (target.indentWidthD "lang_indent_testcases") (testcase target t))

/-- A section of a file, under its title in a comment. -/
def sectionText (target : Target) (s : Section) : String :=
  Text.trim (target.textD "lang_line_comment_token" ++ s.title ++ "\n" ++ target.textD s.key) ++ "\n"

/-- The values for the frame of a file. -/
def documentValues (target : Target) (document : Itl.Document) : List (String × String) :=
  sections.map (fun s => (s.placeholder, sectionText target s)) ++
    [("COMMENTS", (document.comment.map (comment target)).getD ""),
      ("NAME", documentName document),
      ("TESTCASES", "\n\n".intercalate (testcases target document))]

/-- A document. -/
def document (target : Target) (document : Itl.Document) : String :=
  fillAll (target.textD "test_testfile_seq") (documentValues target document)

end Reference

/-! ## Conditions on the texts of a target -/

section

variable (target : Target)

/-- A number is respelled to a closed text, which the template of its type takes. -/
def ClosedNumber (number type : String) : Prop :=
  match target.spec.get? ("lang_literal_" ++ type) with
  | some template => ClosedBy template.render fun name => name = "NUM" ∧ Closed number
  | none => Closed number

/-- A template that mentions only `ARG1` and `ARG2`, with a condition on the values of each. -/
def ClosedByPair (template : String) (first second : Prop) : Prop :=
  ClosedBy template fun name => name = "ARG1" ∧ first ∨ name = "ARG2" ∧ second

/-- The condition on a floating constant or an infinity. -/
def ClosedScalar (type : Itl.FloatType) : Itl.Scalar → Prop
  | .number text => ClosedNumber target (target.respelling .float text) type.name
  | .infinity sign => Closed (Reference.scalar target type (.infinity sign))

/-- The condition on an interval. -/
def ClosedInterval (value : Itl.Interval) : Prop :=
  let text := Reference.intervalText target value
  match value with
  | .special _ _ none => Closed text
  | .special _ _ (some d) =>
    ClosedBy text fun name => name = "DEC" ∧ Closed (Reference.decoration target d)
  | .infSup type inf sup none =>
    ClosedByPair text (ClosedScalar target type inf) (ClosedScalar target type sup)
  | .infSup type inf sup (some d) => ClosedBy text fun name =>
    name = "ARG1" ∧ ClosedScalar target type inf ∨ name = "ARG2" ∧ ClosedScalar target type sup ∨
      name = "DEC" ∧ Closed (Reference.decoration target d)

/-- The condition on a literal. -/
def ClosedLiteral : Itl.Literal → Prop
  | .integer text type unsigned => ClosedNumber target (target.respelling .integer text)
      (Reference.integerType type unsigned)
  | .real type value => ClosedScalar target type value
  | .interval value => ClosedInterval target value
  | .string text => Closed (target.respelling .string text)
  | .boolean value => Closed (Reference.literal target (.boolean value))
  | .overlap state => Closed (Reference.literal target (.overlap state))

/-- The keys of the tokens that a comment is given; each line of a block comment has one. -/
def commentTokens (comment : Itl.Comment) : List String :=
  match comment.style with
  | .line => ["lang_line_comment_token"]
  | .block => "lang_block_comment_start" :: "lang_block_comment_end" ::
    (blockCommentLines comment.text).map fun _ => "lang_block_comment_intermediate"

/-- The condition on a comment. -/
def ClosedComment (comment : Itl.Comment) : Prop :=
  Closed comment.text ∧ ∀ key ∈ commentTokens comment, Closed (target.textD key)

/-- The condition on the outputs that are compared with a candidate. -/
def ClosedEach (results : List (List String)) (outputs : List Itl.Literal)
    (closed : Itl.Literal → Prop) : Prop :=
  ∀ pair ∈ outputs.zip results, pair.2 ≠ [] →
    closed pair.1 ∧ Closed (target.textD "lang_line_end_token")

/-- The condition on an equality with an output; the candidate is closed. -/
def ClosedEquals (template : String) (output : Itl.Literal) : Prop :=
  ClosedByPair template True (ClosedLiteral target output)

/-- The condition on the assertion that one argument lies in another one. -/
def ClosedWithin (subset : String) (first second : Prop) : Prop :=
  ClosedBy (target.textD "test_assert_true") fun name =>
    name = "ARG1" ∧ ClosedByPair subset first second

/-- The condition on the assertions of a test. -/
def ClosedAssertions (results : List (List String)) : Itl.Outputs → Prop
  | .tightest tightest =>
    ClosedEach target results tightest (ClosedEquals target (target.textD "test_assert_equals"))
  | .accurate accurate => ∀ key ∈ Reference.subsetKey? target,
    ClosedEach target results accurate fun output =>
      ClosedWithin target (target.textD key) True (ClosedLiteral target output)
  | .both tightest accurate => ∀ key ∈ Reference.subsetKey? target,
    ClosedEach target results tightest
        (ClosedEquals target (target.textD "test_assert_equals_warning")) ∧
      ClosedEach target results tightest (fun output =>
        ClosedWithin target (target.textD key) (ClosedLiteral target output) True) ∧
      ClosedEach target results accurate fun output =>
        ClosedWithin target (target.textD key) True (ClosedLiteral target output)

/-- The condition on a test that is not dropped. -/
def ClosedTest (test : Itl.Test) : Prop :=
  (Reference.test? target test).isSome → ∀ key ∈ Reference.operationKey? target test,
    ClosedBy (target.textD "test_test_seq") fun name =>
      name = "COMMENTS" ∧ (∀ comment ∈ test.comments, ClosedComment target comment) ∨
      name = "ASSERTS" ∧
        ClosedBy (target.textD key) (fun name =>
          ∃ input ∈ (Reference.arguments test.inputs).lookup name, ClosedLiteral target input) ∧
        ClosedAssertions target (Reference.candidates target test key) test.outputs

/-- The condition on a testcase. -/
def ClosedTestcase (testcase : Itl.Testcase) : Prop :=
  ClosedBy (target.textD "test_testcase_seq") fun name =>
    name = "COMMENTS" ∧ (∀ comment ∈ testcase.comments, ClosedComment target comment) ∨
    name = "TC_NAME" ∧ Closed (target.respelling .name testcase.dottedName) ∨
    name = "TESTS" ∧ ∀ test ∈ testcase.tests, ClosedTest target test

/-- The condition on a section. -/
def ClosedSection (s : Section) : Prop :=
  Closed (target.textD "lang_line_comment_token") ∧ Closed (target.textD s.key)

/-- The condition on a document. -/
def ClosedDocument (document : Itl.Document) : Prop :=
  ClosedBy (target.textD "test_testfile_seq") fun name =>
    (∃ s ∈ sections, name = s.placeholder ∧ ClosedSection target s) ∨
    name = "COMMENTS" ∧ (∀ comment ∈ document.comment, ClosedComment target comment) ∨
    name = "NAME" ∧ Closed document.fileName ∨
    name = "TESTCASES" ∧ ∀ testcase ∈ document.testcases, ClosedTestcase target testcase

/-! ## The conditions can be decided -/

instance (number type : String) : Decidable (ClosedNumber target number type) :=
  match h : target.spec.get? ("lang_literal_" ++ type) with
  | some template =>
    decidable_of_iff (ClosedBy template.render fun name => name = "NUM" ∧ Closed number)
      (by simp [ClosedNumber, h])
  | none => decidable_of_iff (Closed number) (by simp [ClosedNumber, h])

instance (template : String) (first second : Prop) [Decidable first] [Decidable second] :
    Decidable (ClosedByPair template first second) :=
  inferInstanceAs (Decidable (ClosedBy _ _))

instance (type : Itl.FloatType) : DecidablePred (ClosedScalar target type)
  | .number _ => inferInstanceAs (Decidable (ClosedNumber _ _ _))
  | .infinity _ => inferInstanceAs (Decidable (Closed _))

instance : DecidablePred (ClosedInterval target)
  | .special _ _ none => inferInstanceAs (Decidable (Closed _))
  | .special _ _ (some _) => inferInstanceAs (Decidable (ClosedBy _ _))
  | .infSup _ _ _ none => inferInstanceAs (Decidable (ClosedByPair _ _ _))
  | .infSup _ _ _ (some _) => inferInstanceAs (Decidable (ClosedBy _ _))

instance : DecidablePred (ClosedLiteral target)
  | .integer .. => inferInstanceAs (Decidable (ClosedNumber _ _ _))
  | .real type value => inferInstanceAs (Decidable (ClosedScalar target type value))
  | .interval value => inferInstanceAs (Decidable (ClosedInterval target value))
  | .string _ | .boolean _ | .overlap _ => inferInstanceAs (Decidable (Closed _))

instance : DecidablePred (ClosedComment target) := fun _ => inferInstanceAs (Decidable (_ ∧ _))

instance (results : List (List String)) (outputs : List Itl.Literal) (closed : Itl.Literal → Prop)
    [DecidablePred closed] : Decidable (ClosedEach target results outputs closed) :=
  inferInstanceAs (Decidable (∀ pair ∈ outputs.zip results, _))

instance (template : String) : DecidablePred (ClosedEquals target template) := fun _ =>
  inferInstanceAs (Decidable (ClosedByPair _ _ _))

instance (subset : String) (first second : Prop) [Decidable first] [Decidable second] :
    Decidable (ClosedWithin target subset first second) :=
  inferInstanceAs (Decidable (ClosedBy _ _))

instance (results : List (List String)) : DecidablePred (ClosedAssertions target results)
  | .tightest tightest => inferInstanceAs (Decidable (ClosedEach _ _ tightest _))
  | .accurate _ | .both _ _ => inferInstanceAs (Decidable (∀ key ∈ Reference.subsetKey? target, _))

instance : DecidablePred (ClosedTest target) := fun test =>
  inferInstanceAs (Decidable (_ → ∀ key ∈ Reference.operationKey? target test, _))

instance : DecidablePred (ClosedTestcase target) := fun _ =>
  inferInstanceAs (Decidable (ClosedBy _ _))

instance : DecidablePred (ClosedSection target) := fun _ => inferInstanceAs (Decidable (_ ∧ _))

instance : DecidablePred (ClosedDocument target) := fun _ =>
  inferInstanceAs (Decidable (ClosedBy _ _))

end

end IntervalSuite.Generation
