/-!
# Searching for a piece of text

Occurrences are found from left to right; the empty text occurs everywhere.
-/

namespace IntervalSuite.Text

/-- What follows the first occurrence of `needle`. -/
def dropThrough? (needle : List Char) : List Char → Option (List Char)
  | [] => if needle.isEmpty then some [] else none
  | c :: cs => match needle.isPrefixOf? (c :: cs) with
    | some rest => some rest
    | none => dropThrough? needle cs

/-- The text up to the end of the first occurrence of `needle`. -/
def takeThrough? (needle : List Char) : List Char → Option (List Char)
  | [] => if needle.isEmpty then some [] else none
  | c :: cs =>
    if needle.isPrefixOf (c :: cs) then some needle
    else (takeThrough? needle cs).map (c :: ·)

/-- `needle` occurs in the text. -/
def occursIn (needle text : List Char) : Bool := (dropThrough? needle text).isSome

/-- The parts of a text between the occurrences of a non-empty separator. -/
def splitBetween (sep : List Char) : List Char → List (List Char)
  | [] => [[]]
  | c :: cs =>
    if sep.isPrefixOf (c :: cs) then [] :: splitBetween sep (cs.drop (sep.length - 1))
    else match splitBetween sep cs with
      | [] => [[c]]
      | part :: parts => (c :: part) :: parts
termination_by cs => cs.length
decreasing_by all_goals grind

end IntervalSuite.Text
