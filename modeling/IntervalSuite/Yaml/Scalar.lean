import IntervalSuite.Yaml.Cursor

/-!
# YAML scalars

The four ways to write a text: plain, in single quotes, in double quotes, and as an indented block.
Where a scalar goes over several lines, a single line break is folded into a space and each further
one stays; a literal block keeps its line breaks.

Each reader takes as fuel the length of the text, and none of its steps leaves more text than it
found.
-/

namespace IntervalSuite.Yaml

/-! ## Blanks inside of a scalar -/

/-- The blanks between two words of a scalar. -/
structure Gap where
  /-- The blanks in front of the first line break. -/
  blanks : List Char
  /-- The number of line breaks. -/
  breaks : Nat
  /-- The place behind the gap. -/
  next : Cursor

/-- The gap at a place. A tab in the indentation of a line left of the column `least` is refused. -/
def gapFrom? (least : Nat) (blanks : List Char) (breaks line column : Nat) :
    List Char → Option Gap
  | [] => some ⟨blanks, breaks, ⟨line, column, []⟩⟩
  | c :: cs =>
    if c = '\n' then gapFrom? least blanks (breaks + 1) (line + 1) 0 cs
    else if isSpace c then
      if breaks ≠ 0 ∧ column < least ∧ c = '\t' then none
      else
        gapFrom? least (if breaks = 0 then blanks ++ [c] else blanks) breaks line (column + 1) cs
    else some ⟨blanks, breaks, ⟨line, column, c :: cs⟩⟩

/-- The gap at a place. -/
def gap? (least : Nat) (cur : Cursor) : Option Gap :=
  gapFrom? least [] 0 cur.line cur.column cur.rest

/-- What a gap leaves in the text: its blanks, a space for one line break, and one line break less
for several. -/
def Gap.fold (g : Gap) : List Char :=
  if g.breaks = 0 then g.blanks
  else if g.breaks = 1 then [' ']
  else List.replicate (g.breaks - 1) '\n'

/-! ## Plain scalars -/

/-- The characters that end a plain scalar inside of brackets or braces. -/
def flowIndicators : List Char := [',', '[', ']', '\x7b', '\x7d']

/-- A plain scalar can start here. -/
def startsPlain (flow : Bool) (cs : List Char) : Bool :=
  match cs with
  | [] => false
  | c :: rest =>
    if c = '-' then !(startsBlank rest)
    else if c = '?' ∨ c = ':' then !flow && !(startsBlank rest)
    else !(startsBlank cs) &&
      !((flowIndicators ++ ['#', '&', '*', '!', '|', '>', '\'', '"', '%', '@', '\x60']).contains c)

/-- The word of a plain scalar at the start of a text, and the text behind it. -/
def plainWord? (flow : Bool) : List Char → Option (List Char × List Char)
  | [] => some ([], [])
  | c :: cs =>
    if startsBlank (c :: cs) then some ([], c :: cs)
    else if flow ∧ c = ':' ∧ cs.head?.any (fun d => ('?' :: flowIndicators).contains d) then none
    else if (c = ':' ∧ startsBlank cs) ∨ (flow ∧ flowIndicators.contains c) then some ([], c :: cs)
    else (plainWord? flow cs).map fun (word, rest) => (c :: word, rest)

/-- A scalar that has been read. -/
structure Scanned where
  text : List Char
  /-- The place behind the scalar. -/
  next : Cursor

/-- A plain scalar, whose further lines have to start at the column `least` or right of it. -/
def plainFrom? (flow : Bool) (least : Nat) : Nat → Cursor → Option Scanned
  | 0, _ => none
  | fuel + 1, cur =>
    if cur.atMarker '-' || cur.atMarker '.' || cur.rest.head? == some '#' then
      some ⟨[], cur⟩
    else do
      let (word, rest) ← plainWord? flow cur.rest
      let cur : Cursor := ⟨cur.line, cur.column + word.length, rest⟩
      if rest.isEmpty || !(startsBlank rest) then some ⟨word, cur⟩
      else
        let gap ← gap? least cur
        if !flow && gap.next.column < least then some ⟨word, gap.next⟩
        else
          let more ← plainFrom? flow least fuel gap.next
          some ⟨if more.text.isEmpty then word else word ++ gap.fold ++ more.text, more.next⟩

/-- The plain scalar at a place. -/
def plain? (flow : Bool) (least : Nat) (cur : Cursor) : Option Scanned :=
  plainFrom? flow least (cur.rest.length + 1) cur

/-! ## Quoted scalars -/

/-- The characters that an escape of one letter stands for. -/
def simpleEscapes : List (Char × Nat) :=
  [('0', 0x0), ('a', 0x7), ('b', 0x8), ('t', 0x9), ('\t', 0x9), ('n', 0xA), ('v', 0xB), ('f', 0xC),
    ('r', 0xD), ('e', 0x1B), (' ', 0x20), ('"', 0x22), ('/', 0x2F), ('\\', 0x5C), ('N', 0x85),
    ('_', 0xA0), ('L', 0x2028), ('P', 0x2029)]

/-- The number of hexadecimal digits behind the letter of an escape. -/
def hexEscapes : List (Char × Nat) := [('x', 2), ('u', 4), ('U', 8)]

/-- The value of a hexadecimal digit. -/
def hexValue? (c : Char) : Option Nat :=
  if c.isDigit then some (c.toNat - '0'.toNat)
  else if 'a' ≤ c ∧ c ≤ 'f' then some (c.toNat - 'a'.toNat + 10)
  else if 'A' ≤ c ∧ c ≤ 'F' then some (c.toNat - 'A'.toNat + 10)
  else none

/-- The number that hexadecimal digits spell. -/
def hexNumber? (digits : List Char) : Option Nat :=
  digits.foldlM (fun n c => (hexValue? c).map (16 * n + ·)) 0

/-- The character of an escape, given what follows its backslash, and the length of that. -/
def escape? : List Char → Option (Char × Nat)
  | [] => none
  | c :: cs => match simpleEscapes.lookup c with
    | some code => some (Char.ofNat code, 1)
    | none => do
      let width ← hexEscapes.lookup c
      if cs.length < width then none
      else
        let code ← hexNumber? (cs.take width)
        if code < 0xD800 ∨ (0xDFFF < code ∧ code < 0x110000) then
          some (Char.ofNat code, width + 1)
        else none

/-- A quoted scalar behind its opening quote. -/
def quotedFrom? (double : Bool) : Nat → Cursor → Option Scanned
  | 0, _ => none
  | fuel + 1, cur =>
    let continueWith (front : List Char) (next : Cursor) : Option Scanned :=
      (quotedFrom? double fuel next).map fun more => ⟨front ++ more.text, more.next⟩
    if cur.atMarker '-' || cur.atMarker '.' then none
    else match cur.rest with
      | [] => none
      | c :: cs =>
        if startsBlank (c :: cs) then
          (gap? 0 cur).bind fun gap => continueWith gap.fold gap.next
        else if double then
          if c = '"' then some ⟨[], cur.skip 1⟩
          else if c = '\\' then
            if cs.head? = some '\n' then
              (gap? 0 ⟨cur.line + 1, 0, cs.drop 1⟩).bind fun gap =>
                continueWith (List.replicate gap.breaks '\n') gap.next
            else (escape? cs).bind fun (d, n) => continueWith [d] (cur.skip (n + 1))
          else continueWith [c] (cur.skip 1)
        else if c = '\'' then
          if cs.head? = some '\'' then continueWith [c] (cur.skip 2)
          else some ⟨[], cur.skip 1⟩
        else continueWith [c] (cur.skip 1)

/-- The quoted scalar at a place, where its opening quote stands. -/
def quoted? (cur : Cursor) : Option Scanned :=
  quotedFrom? (cur.rest.head? == some '"') (cur.rest.length + 1) (cur.skip 1)

/-! ## Blocks -/

/-- How the line breaks at the end of a block are kept. -/
inductive Chomp where
  | strip
  | clip
  | keep
  deriving DecidableEq

/-- The first line of a block scalar. -/
structure BlockHeader where
  literal : Bool
  chomp : Chomp
  /-- The indentation, where it is given. -/
  indent : Option Nat

/-- The marks behind the indicator of a block, one of each kind at most, and what follows them. -/
def blockMarks? (h : BlockHeader) (chomped : Bool) : List Char → Option (BlockHeader × List Char)
  | [] => some (h, [])
  | c :: cs =>
    if c = '+' ∨ c = '-' then
      if chomped then none
      else blockMarks? ⟨h.literal, if c = '+' then .keep else .strip, h.indent⟩ true cs
    else if c.isDigit then
      if c = '0' ∨ h.indent.isSome then none
      else blockMarks? ⟨h.literal, h.chomp, some (c.toNat - '0'.toNat)⟩ chomped cs
    else some (h, c :: cs)

/-- The header of a block scalar and the lines behind it, none if the text ends with the header. -/
def blockHeader? (cs : List Char) : Option (BlockHeader × List (List Char)) :=
  match cs with
  | [] => none
  | c :: cs => do
    let (h, rest) ← blockMarks? ⟨c = '|', .clip, none⟩ false cs
    match rest.dropWhile isSpace with
    | [] => some (h, [])
    | '\n' :: rest => some (h, rest.splitOn '\n')
    | '#' :: rest => match rest.dropWhile (· ≠ '\n') with
      | [] => some (h, [])
      | _ :: rest => some (h, rest.splitOn '\n')
    | _ => none

/-- The indentation of a block: that of its first line that is not blank, but not less than that of
a blank line before it. A tab may not stand in the indentation. -/
def blockIndent? : Nat → List (List Char) → Option Nat
  | least, [] => some least
  | least, line :: lines =>
    let body := line.dropWhile (· = ' ')
    let indent := max least (line.length - body.length)
    if body.head? = some '\t' then none
    else if body.isEmpty ∧ ¬lines.isEmpty then blockIndent? indent lines
    else some indent

/-- The blank lines in front of the next line of a block: their number, and the lines from that line
on, without the indentation. The flag tells that the line is indented enough for the block. -/
def blockBreaks? (indent : Nat) : List (List Char) → Option (Nat × Bool × List (List Char))
  | [] => some (0, false, [])
  | line :: lines =>
    let eaten := min indent (line.takeWhile (· = ' ')).length
    let body := line.drop eaten
    if eaten < indent ∧ body.head? = some '\t' then none
    else if body.isEmpty ∧ ¬lines.isEmpty then
      (blockBreaks? indent lines).map fun (n, inside, rest) => (n + 1, inside, rest)
    else some (0, eaten = indent ∧ ¬body.isEmpty, body :: lines)

/-- The body of a block scalar.

- `breaks`: the blank lines in front of the next line;
- `front`: what the line before it leaves in front of it: a line break, unless it is the first line;
- `indented`: that line started with a blank, so its line break is not folded. -/
def blockBody? (h : BlockHeader) (indent : Nat) :
    Nat → List Char → Nat → Bool → Bool → List (List Char) →
      Option (List Char × List Char × Nat × List (List Char))
  | 0, _, _, _, _, _ => none
  | fuel + 1, front, breaks, indented, inside, lines =>
    match inside, lines with
    | true, line :: lines =>
      let startsIndented := line.head?.any isSpace
      let joined :=
        if !h.literal && front == ['\n'] && !indented && !startsIndented then
          (if breaks = 0 then [' '] else [])
        else front
      let text := joined ++ List.replicate breaks '\n' ++ line
      let break' := if lines.isEmpty then [] else ['\n']
      do
        let (breaks, inside, rest) ← blockBreaks? indent lines
        let (more, last) ← blockBody? h indent fuel break' breaks startsIndented inside rest
        some (text ++ more, last)
    | _, lines => some ([], front, breaks, lines)

/-- The text and the end of the block scalar at a place, whose lines have to start at the column
`least` or right of it. -/
def block? (least : Nat) (cur : Cursor) : Option Scanned := do
  let (h, lines) ← blockHeader? cur.rest
  let indent ← match h.indent with
    | some n => some (if least = 0 then n else least - 1 + n)
    | none => blockIndent? (max least 1) lines
  let (breaks, inside, rest) ← blockBreaks? indent lines
  let (text, front, breaks, rest) ←
    blockBody? h indent (lines.length + 1) [] breaks false inside rest
  let tail := match h.chomp with
    | .strip => []
    | .clip => front
    | .keep => front ++ List.replicate breaks '\n'
  let taken := lines.length - rest.length
  -- The indentation of the next line has been taken with the block.
  let column := match lines.drop taken with
    | [] => 0
    | line :: _ => min indent (line.takeWhile (· = ' ')).length
  some ⟨text ++ tail, ⟨cur.line + 1 + taken, column, ['\n'].intercalate rest⟩⟩

end IntervalSuite.Yaml
