/-!
# Lines

A text of `n` newlines has `n + 1` lines, the last of which may be empty.
-/

namespace IntervalSuite.Text

/-- The lines of a text. -/
def lines (s : String) : List String := (s.toList.splitOn '\n').map String.ofList

/-- The lines one after the other, with a newline between two of them. -/
def unlines (ls : List String) : String := "\n".intercalate ls

/-- Puts `spaces` spaces in front of every line. -/
def indent (s : String) (spaces : Nat) : String :=
  let pad := String.ofList (List.replicate spaces ' ')
  unlines ((lines s).map (pad ++ ·))

end IntervalSuite.Text
