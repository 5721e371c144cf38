import IntervalSuite.Text.Blank

/-!
# Scanning the texts of patterns

A verbose pattern may be laid out: blanks and comments between its parts stand for nothing. A
comment starts with `#` and ends with its line. In other patterns blanks stand for themselves.
-/

namespace IntervalSuite.Pattern

/-- The characters at the start of a text that satisfy `p`, and the text behind them. If the pattern
is verbose, blanks and comments are passed over; `comment` tells that the text starts inside of a
comment. -/
def gather (verbose : Bool) (p : Char → Bool) (comment : Bool) : List Char → List Char × List Char
  | [] => ([], [])
  | c :: cs =>
    if comment then gather verbose p (c != '\n') cs
    else if p c then
      let (taken, rest) := gather verbose p false cs
      (c :: taken, rest)
    else if verbose && Text.isBlank c then gather verbose p false cs
    else if verbose && c == '#' then gather verbose p true cs
    else ([], c :: cs)

/-- The text behind blanks and comments, if the pattern is verbose. -/
def skip (verbose : Bool) (cs : List Char) : List Char :=
  (gather verbose (fun _ => false) false cs).2

/-- The first character of a text, and the text behind it. -/
def first? : List Char → Option (Char × List Char)
  | [] => none
  | c :: cs => some (c, cs)

/-- The first character behind blanks and comments, and the text behind it. -/
def next? (verbose : Bool) (cs : List Char) : Option (Char × List Char) := first? (skip verbose cs)

/-- The first character that satisfies `p` with the characters in front of it, and the text behind
it. -/
def until? (p : Char → Bool) : List Char → Option ((List Char × Char) × List Char)
  | [] => none
  | c :: cs =>
    if p c then some (([], c), cs)
    else (until? p cs).map fun ((front, d), rest) => ((c :: front, d), rest)

/-- The next character that is not blank, if the pattern is verbose. A comment sign is passed over,
but not the comment. -/
def peek (verbose : Bool) (cs : List Char) : Option Char :=
  if verbose then
    match cs.dropWhile Text.isBlank with
    | '#' :: rest => (rest.dropWhile Text.isBlank).head?
    | rest => rest.head?
  else cs.head?

end IntervalSuite.Pattern
