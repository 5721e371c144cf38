import IntervalSuite.Generation.Test
import IntervalSuite.Text.TitleCase

/-!
# Rendering documents

A document is rendered from the inside out: its tests into its testcases, and these into the file,
which also takes sections of imports. A section is only looked up if the file has a place for it.
Testcases and tests that come out blank are left out.
-/

namespace IntervalSuite.Generation

/-- A text that may be indented, and is trimmed otherwise. -/
def layOut (width : Option Nat) (text : String) : String :=
  match width with
  | some width => Text.indent text width
  | none => Text.trim text

/-- The texts that are not blank. -/
def dropBlank (texts : List String) : List String := texts.filter fun text => !(Text.allBlank text)

/-- A rendered part of a document, and the warnings about its tests in their order. -/
structure Rendered where
  text : String
  warnings : List String

/-- A testcase in the target language. -/
def renderTestcase (target : Target) (testcase : Itl.Testcase) : Except Error Rendered := do
  let frame ← target.text "test_testcase_seq"
  let comments ← testcase.comments.mapM (renderComment target)
  let text := Template.substituteList frame "COMMENTS" comments "\n"
  let name := target.respelling .name testcase.dottedName
  let text := Template.substitute text "TC_NAME" name
  let width ← target.indentWidth "lang_indent_tests"
  let outcomes ← testcase.tests.mapM (renderTest target)
  let tests := dropBlank (outcomes.map fun outcome => layOut width (Text.trim outcome.text))
  return ⟨Template.substituteList text "TESTS" tests "\n", outcomes.filterMap Outcome.warning?⟩

/-- A section of a file. -/
structure Section where
  placeholder : String
  title : String
  key : String

/-- The sections in the order in which they are filled in. -/
def sections : List Section := [
  ⟨"LANGUAGE_IMPORTS", "Language imports", "lang_imports"⟩,
  ⟨"TESTLIB_IMPORTS", "Test library imports", "test_imports"⟩,
  ⟨"ARITHLIB_IMPORTS", "Arithmetic library imports", "arith_imports"⟩,
  ⟨"PREAMBLE", "Preamble", "arith_preamble"⟩]

/-- The text of a section, under its title in a comment. -/
def renderSection (target : Target) (commentToken : String) (s : Section) :
    Except Error String := do
  let body ← target.text s.key
  return Text.trim (commentToken ++ s.title ++ "\n" ++ body) ++ "\n"

/-- The name of a document: its file name up to the first dot, in title case. -/
def documentName (document : Itl.Document) : String :=
  Text.titleCase (String.ofList (document.fileName.toList.takeWhile (· ≠ '.')))

/-- A document in the target language. -/
def renderDocument (target : Target) (document : Itl.Document) : Except Error Rendered := do
  let commentToken ← target.text "lang_line_comment_token"
  let frame ← target.text "test_testfile_seq"
  let text ← sections.foldlM (fun text s =>
    Template.substituteWith text s.placeholder (renderSection target commentToken s)) frame
  let comment ← match document.comment with
    | some comment => renderComment target comment
    | none => pure ""
  let text := Template.substitute text "COMMENTS" comment
  let text := Template.substitute text "NAME" (documentName document)
  let width ← target.indentWidth "lang_indent_testcases"
  let rendered ← document.testcases.mapM (renderTestcase target)
  let testcases := dropBlank (rendered.map fun testcase => layOut width testcase.text)
  return ⟨Template.substituteList text "TESTCASES" testcases "\n\n", rendered.flatMap (·.warnings)⟩

/-- A generated file. -/
structure Generated where
  content : String
  /-- The warnings about dropped tests, each once, in the order in which they arise. -/
  warnings : List String
  deriving DecidableEq, Repr

/-- Renders a document for a target. -/
def generate (target : Target) (document : Itl.Document) : Except Error Generated := do
  let rendered ← renderDocument target document
  return ⟨rendered.text, rendered.warnings.eraseDups⟩

end IntervalSuite.Generation
