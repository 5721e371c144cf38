import IntervalSuite.Pattern.Match

/-!
# Replacement

In the text that replaces a match, `$name` and `${name}` stand for the text of a group, given by its
number or its name, and `$$` for a dollar sign. A bare name is as long as possible. A group that is
not there or has not been matched is empty.
-/

namespace IntervalSuite.Pattern

/-- A piece of a replacement. -/
inductive Part where
  | char (c : Char)
  /-- The text of a group, by its number or its name. -/
  | group (name : List Char)
  deriving DecidableEq, Repr

/-- `c` may stand in a bare group name. -/
def isReferenceChar (c : Char) : Bool := c.isAlphanum || c == '_'

/-- The part that a dollar sign starts, given what follows it, and the number of characters behind
the dollar sign that belong to it. -/
def reference? : List Char → Option (Part × Nat)
  | '$' :: _ => some (.char '$', 1)
  | '\x7b' :: cs =>
    let name := cs.takeWhile (· ≠ '\x7d')
    if name.length < cs.length then some (.group name, name.length + 2) else none
  | cs =>
    let name := cs.takeWhile isReferenceChar
    if name.isEmpty then none else some (.group name, name.length)

/-- The parts of a replacement. -/
def parts : List Char → List Part
  | [] => []
  | c :: cs =>
    if c = '$' then
      match reference? cs with
      | some (part, n) => part :: parts (cs.drop n)
      | none => .char c :: parts cs
    else .char c :: parts cs
termination_by cs => cs.length
decreasing_by all_goals grind

/-- The number that a name spells. -/
def groupNumber? (name : List Char) : Option Nat :=
  let digits := if name.head? = some '+' then name.drop 1 else name
  if digits.isEmpty ∨ ¬digits.all Char.isDigit then none
  else some (digits.foldl (fun n c => 10 * n + (c.toNat - '0'.toNat)) 0)

/-- The text between two indices. -/
def between (text : List Char) (start stop : Nat) : List Char :=
  (text.drop start).take (stop - start)

/-- The text of a group, given the places that have been noted. -/
def groupText (text : List Char) (marks : List (Nat × Nat)) (group : Nat) : List Char :=
  match marks.lookup (startMark group), marks.lookup (stopMark group) with
  | some start, some stop => between text start stop
  | _, _ => []

/-- The text that a part stands for in a replacement. -/
def Part.text (names : List (String × Nat)) (text : List Char) (marks : List (Nat × Nat)) :
    Part → List Char
  | char c => [c]
  | group name => match groupNumber? name <|> names.lookup (String.ofList name) with
    | some index => groupText text marks index
    | none => []

/-- Replaces the matches in `text` from the index `index` on, where `rest` is the text behind it. An
empty match at `last`, the end of the match before it, is passed over. -/
def replaceFrom (p : Pattern) (replacement : List Part) (text : List Char) :
    Nat → Option Nat → Nat → Option Char → List Char → List Char
  | 0, _, _, _, rest => rest
  | fuel + 1, last, index, before, rest =>
    match find? p.program index before rest with
    | none => rest
    | some (start, stop) =>
      let skipped := rest.take (start.index - index)
      if start.index = stop.index ∧ last = some start.index then
        match start.rest with
        | [] => skipped
        | c :: cs =>
          skipped ++ c :: replaceFrom p replacement text fuel none (start.index + 1) (some c) cs
      else
        let marks := (startMark 0, start.index) :: (stopMark 0, stop.index) :: stop.marks
        skipped ++ replacement.flatMap (Part.text p.names text marks) ++
          replaceFrom p replacement text fuel (some stop.index) stop.index stop.before stop.rest

end IntervalSuite.Pattern

namespace IntervalSuite

/-- The text with the replacement in the place of every match. -/
def Pattern.replaceAll (p : Pattern) (replacement text : String) : String :=
  let cs := text.toList
  -- Two steps at most start at each place: one finds a match, the other passes over an empty one.
  String.ofList (Pattern.replaceFrom p (Pattern.parts replacement.toList) cs (2 * cs.length + 2)
    none 0 none cs)

end IntervalSuite
