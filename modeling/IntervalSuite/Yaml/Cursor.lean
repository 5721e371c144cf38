/-!
# Positions in a YAML text

In YAML the column of a token decides what it belongs to, so the reader keeps the column together
with the text that is left. Line breaks are newlines: `normalizeBreaks` turns the others into them.
-/

namespace IntervalSuite.Yaml

/-- A place in a text: its line and its column, counted from zero, and the text behind it. -/
structure Cursor where
  line : Nat
  column : Nat
  rest : List Char

/-- `c` is a space or a tab. -/
def isSpace (c : Char) : Bool := c == ' ' || c == '\t'

/-- Nothing, a space, a tab or a newline stands at the start of the text. -/
def startsBlank : List Char → Bool
  | [] => true
  | c :: _ => isSpace c || c == '\n'

/-- Every line break as a newline. -/
def normalizeBreaks : List Char → List Char
  | [] => []
  | '\r' :: '\n' :: cs => '\n' :: normalizeBreaks cs
  | c :: cs => (if c = '\r' ∨ c = '\x85' then '\n' else c) :: normalizeBreaks cs

/-- `c` may stand in a YAML text: control characters may not. -/
def isPrintable (c : Char) : Bool :=
  let n := c.toNat
  n == 0x9 || n == 0xA || n == 0xD || (0x20 ≤ n && n ≤ 0x7E) || n == 0x85 ||
    (0xA0 ≤ n && n ≤ 0xFFFD) || 0x10000 ≤ n

namespace Cursor

/-- The cursor `n` characters further on the same line. -/
def skip (cur : Cursor) (n : Nat) : Cursor := ⟨cur.line, cur.column + n, cur.rest.drop n⟩

/-- The line starts with the marker of a document's start or end. -/
def atMarker (cur : Cursor) (mark : Char) : Bool :=
  cur.column == 0 && [mark, mark, mark].isPrefixOf cur.rest && startsBlank (cur.rest.drop 3)

/-- The document ends here. -/
def atEnd (cur : Cursor) : Bool :=
  cur.rest.isEmpty || cur.atMarker '-' || cur.atMarker '.'

/-- The indicator `c` stands here with a blank behind it. -/
def atIndicator (cur : Cursor) (c : Char) : Bool :=
  cur.rest.head? == some c && startsBlank (cur.rest.drop 1)

end Cursor

/-- Walks over spaces, comments and line breaks, where `comment` tells that a comment is being
skipped, `tabs` that tabs are skipped too, and `always` that they are also on later lines. -/
def skipBlanksFrom (always tabs comment : Bool) (line column : Nat) : List Char → Cursor
  | [] => ⟨line, column, []⟩
  | c :: cs =>
    if c = '\n' then skipBlanksFrom always always false (line + 1) 0 cs
    else if comment then skipBlanksFrom always tabs true line (column + 1) cs
    else if c = ' ' ∨ (c = '\t' ∧ tabs) then skipBlanksFrom always tabs false line (column + 1) cs
    else if c = '#' then skipBlanksFrom always tabs true line (column + 1) cs
    else ⟨line, column, c :: cs⟩

/-- The next token in a block. Tabs are skipped only up to the end of the line, and only where
`tabs` allows it. -/
def skipBlanks (tabs : Bool) (cur : Cursor) : Cursor :=
  skipBlanksFrom false tabs false cur.line cur.column cur.rest

/-- The next token inside of brackets or braces. -/
def skipFlowBlanks (cur : Cursor) : Cursor :=
  skipBlanksFrom true true false cur.line cur.column cur.rest

end IntervalSuite.Yaml
