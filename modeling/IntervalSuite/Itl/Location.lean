/-!
# Locations in a source text

Lines and columns count from one, and a column counts characters.
-/

namespace IntervalSuite.Itl

/-- A line and a column of a source text. -/
structure Location where
  line : Nat
  column : Nat
  deriving DecidableEq, Repr, Inhabited

namespace Location

/-- The location of the first character. -/
def start : Location := ⟨1, 1⟩

/-- The location behind the character `c`. -/
def next (l : Location) (c : Char) : Location :=
  if c = '\n' then ⟨l.line + 1, 1⟩ else ⟨l.line, l.column + 1⟩

/-- The location behind a text. -/
def after (l : Location) (text : List Char) : Location := text.foldl next l

end Location

end IntervalSuite.Itl
