import IntervalSuite.Pattern.CharSet

/-!
# Regular expressions

The terms that patterns consist of. Groups are numbered from one; the whole of a match is group
zero.
-/

namespace IntervalSuite.Pattern

/-- A condition on a place in a text. -/
inductive Assertion where
  /-- The start of the text. -/
  | start
  /-- The end of the text. -/
  | finish
  /-- The start of a line. -/
  | lineStart
  /-- The end of a line. -/
  | lineFinish
  /-- A word character on exactly one side. -/
  | wordBoundary
  | notWordBoundary
  /-- A word character only behind the place. -/
  | wordStart
  /-- A word character only in front of the place. -/
  | wordFinish
  deriving DecidableEq, Repr

/-- The condition holds between the characters `before` and `after`, of which one may be missing at
the ends of the text. -/
def Assertion.holds (before after : Option Char) : Assertion → Bool
  | start => before.isNone
  | finish => after.isNone
  | lineStart => before.all (· == '\n')
  | lineFinish => after.all (· == '\n')
  | wordBoundary => before.any Text.isWordCharacter != after.any Text.isWordCharacter
  | notWordBoundary => before.any Text.isWordCharacter == after.any Text.isWordCharacter
  | wordStart => !(before.any Text.isWordCharacter) && after.any Text.isWordCharacter
  | wordFinish => before.any Text.isWordCharacter && !(after.any Text.isWordCharacter)

/-- A term of a pattern. -/
inductive Regex where
  | empty
  | set (set : CharSet)
  | assertion (assertion : Assertion)
  /-- The group with the number `index`. -/
  | group (index : Nat) (body : Regex)
  | seq (first second : Regex)
  /-- Either of two terms, where a match of the first one is preferred. -/
  | alt (first second : Regex)
  /-- From `least` to `most` times the body, as often as possible if `greedy`, and else as
  rarely. -/
  | repetition (body : Regex) (least : Nat) (most : Option Nat) (greedy : Bool)
  deriving Repr

end IntervalSuite.Pattern
