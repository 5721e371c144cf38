import IntervalSuite.Generation.Target
import IntervalSuite.Itl.Document
import IntervalSuite.Text.Blank
import IntervalSuite.Text.Lines

/-!
# Rendering comments

A comment keeps its text and takes on the delimiters of the target language. A block comment loses a
blank first and a blank last line.
-/

namespace IntervalSuite.Generation

/-- The text of a line comment behind its slashes. -/
def lineCommentBody (text : String) : String :=
  match "//".toList.isPrefixOf? text.toList with
  | some body => String.ofList body
  | none => text

/-- The text of a block comment between its delimiters. -/
def blockCommentBody (text : String) : String :=
  match "/*".toList.isPrefixOf? text.toList with
  | some body => match "*/".toList.isSuffixOf? body with
    | some body => String.ofList body
    | none => text
  | none => text

/-- The lines without the last one, if that is blank. -/
def dropBlankLast (lines : List String) : List String :=
  if lines.getLast?.any Text.allBlank then lines.dropLast else lines

/-- The lines without the first one, if that is blank. -/
def dropBlankFirst (lines : List String) : List String :=
  if lines.head?.any Text.allBlank then lines.drop 1 else lines

/-- The lines of a block comment that are kept. -/
def blockCommentLines (text : String) : List String :=
  dropBlankFirst (dropBlankLast (Text.lines (blockCommentBody text)))

/-- A comment in the target language. -/
def renderComment (target : Target) (comment : Itl.Comment) : Except Error String :=
  match comment.style with
  | .line => do
    let token ← target.text "lang_line_comment_token"
    return token ++ lineCommentBody comment.text
  | .block => do
    let intermediate ← target.text "lang_block_comment_intermediate"
    let start ← target.text "lang_block_comment_start"
    let finish ← target.text "lang_block_comment_end"
    let lines := (blockCommentLines comment.text).map (intermediate ++ ·)
    return start ++ "\n" ++ Text.unlines lines ++ "\n" ++ finish

end IntervalSuite.Generation
