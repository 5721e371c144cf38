import IntervalSuite.Pattern.Replacement
import IntervalSuite.Readers
import IntervalSuite.Yaml.Reader

/-!
# The readers of the program
-/

namespace IntervalSuite

/-- Where the match ends that starts behind `start` characters of the text. -/
def Pattern.matchEnd? (p : Pattern) (text : String) (start : Nat) : Option Nat :=
  if start ≤ text.length then
    (Pattern.matchAt? p.program
      ⟨start, (text.toList.take start).getLast?, text.toList.drop start, []⟩).map (·.index)
  else none

/-- A pattern as others use it. -/
def Pattern.matcher (p : Pattern) : Matcher := ⟨p.matchEnd?, p.replaceAll⟩

instance Readers.standard : Readers where
  pattern? source := (Pattern.parse? source).map Pattern.matcher
  yaml? := Yaml.read?
  plainValue := Yaml.plainValue

end IntervalSuite
