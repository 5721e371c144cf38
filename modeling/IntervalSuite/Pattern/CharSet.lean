import IntervalSuite.Text.Blank
import IntervalSuite.Text.CaseFolding
import IntervalSuite.Text.WordCharacter

/-!
# Sets of characters

The sets that a pattern can describe: ranges, the classes of digits, blanks and word characters, and
what set operations make of them.
-/

namespace IntervalSuite.Pattern

/-- A description of a set of characters. -/
inductive CharSet where
  | none
  /-- The characters from `lo` to `hi`, both included. -/
  | range (lo hi : Char)
  | digit
  | blank
  | word
  | union (a b : CharSet)
  | inter (a b : CharSet)
  | diff (a b : CharSet)
  | symmDiff (a b : CharSet)
  | compl (a : CharSet)
  /-- The characters that agree up to case with one of the set. -/
  | fold (a : CharSet)
  deriving Repr

namespace CharSet

/-- The character is in the set. -/
def mem (c : Char) : CharSet → Bool
  | none => false
  | range lo hi => lo ≤ c && c ≤ hi
  | digit => Text.isDecimalDigit c
  | blank => Text.isBlank c
  | word => Text.isWordCharacter c
  | union a b => a.mem c || b.mem c
  | inter a b => a.mem c && b.mem c
  | diff a b => a.mem c && !(b.mem c)
  | symmDiff a b => a.mem c != b.mem c
  | compl a => !(a.mem c)
  | fold a => (Text.caseVariants c).any fun d => a.mem d

/-- The set of one character. -/
def single (c : Char) : CharSet := range c c

/-- The union of ranges. -/
def ofRanges (ranges : List (Char × Char)) : CharSet :=
  ranges.foldr (fun r set => union (range r.1 r.2) set) none

end CharSet

end IntervalSuite.Pattern
