import IntervalSuite.Yaml.Node
import IntervalSuite.Yaml.Plain

/-!
# Readers of patterns and of YAML

Patterns and YAML texts are written in languages of their own. Specifications, plugins and runs take
the readers of these languages as they are; the program brings its own, which are those of
`IntervalSuite.Readers.Standard`.
-/

namespace IntervalSuite

/-- A pattern that has been read. -/
structure Matcher where
  /-- Where the match ends that starts behind so many characters of a text, if there is one. -/
  matchEnd? : String → Nat → Option Nat
  /-- Puts a replacement in the place of every match in a text. -/
  replaceAll : String → String → String

/-- The pattern matches somewhere in the text. -/
def Matcher.matches (matcher : Matcher) (text : String) : Bool :=
  (List.range (text.length + 1)).any fun start => (matcher.matchEnd? text start).isSome

/-- How patterns and YAML texts are read. -/
class Readers where
  /-- The pattern that a text spells. -/
  pattern? : String → Option Matcher
  /-- The document in a YAML text, which may be missing. -/
  yaml? : String → Option (Option Yaml.Node)
  /-- What a scalar without quotes stands for. -/
  plainValue : String → Yaml.PlainValue

end IntervalSuite
