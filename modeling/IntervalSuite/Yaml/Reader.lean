import IntervalSuite.Yaml.Node
import IntervalSuite.Yaml.Scalar

/-!
# Reading YAML

Block mappings and block lists are told apart by the columns of their entries; inside of brackets
and braces columns do not matter. A node on the line of its key may be neither a block mapping nor a
block list. Tags, anchors, aliases and keys marked by `?` are not read.

The readers of nested nodes take fuel; a small multiple of the text's length is enough, since a
nested node is shorter than the node around it.
-/

namespace IntervalSuite.Yaml

/-- The longest distance between the start of a key and its colon. -/
def maxKeyLength : Nat := 1024

/-- A key that starts at `start` can have its colon at `colon`: on the same line and near enough. -/
def closesKey (start colon : Cursor) : Bool :=
  start.line == colon.line && colon.column - start.column ≤ maxKeyLength

/-! ## Nodes in brackets and braces -/

mutual

/-- The node at a place inside of brackets or braces. -/
def flowNode? : Nat → Cursor → Option (Node × Cursor)
  | 0, _ => none
  | fuel + 1, cur => match cur.rest with
    | '[' :: _ =>
      (flowItems? fuel (skipFlowBlanks (cur.skip 1))).map fun (items, next) => (.list items, next)
    | '\x7b' :: _ =>
      (flowEntries? fuel (skipFlowBlanks (cur.skip 1))).map fun (entries, next) =>
        (.mapping entries, next)
    | '\'' :: _ | '"' :: _ =>
      (quoted? cur).map fun scanned => (.quoted (String.ofList scanned.text), scanned.next)
    | cs =>
      if startsPlain true cs then
        (plain? true 0 cur).map fun scanned => (.plain (String.ofList scanned.text), scanned.next)
      else none

/-- The node at a place inside of brackets or braces, the value behind its colon if it has one, and
the next token. -/
def flowPair? : Nat → Cursor → Option (Node × Option Node × Cursor)
  | 0, _ => none
  | fuel + 1, cur => do
    let (key, next) ← flowNode? fuel cur
    let colon := skipFlowBlanks next
    if colon.rest.head? ≠ some ':' then some (key, none, colon)
    else if !(closesKey cur colon) then none
    else
      let next := skipFlowBlanks (colon.skip 1)
      if next.rest.head?.any [',', ']', '\x7d'].contains then some (key, some .nothing, next)
      else
        let (value, next) ← flowNode? fuel next
        some (key, some value, skipFlowBlanks next)

/-- The items of a list behind its opening bracket. An item with a value is a mapping of one
entry. -/
def flowItems? : Nat → Cursor → Option (List Node × Cursor)
  | 0, _ => none
  | fuel + 1, cur =>
    if cur.rest.head? = some ']' then some ([], cur.skip 1)
    else do
      let (node, value, next) ← flowPair? fuel cur
      let item := match value with
        | some value => .mapping [(node, value)]
        | none => node
      match next.rest with
      | ',' :: _ =>
        let (items, next) ← flowItems? fuel (skipFlowBlanks (next.skip 1))
        some (item :: items, next)
      | ']' :: _ => some ([item], next.skip 1)
      | _ => none

/-- The entries of a mapping behind its opening brace. -/
def flowEntries? : Nat → Cursor → Option (List (Node × Node) × Cursor)
  | 0, _ => none
  | fuel + 1, cur =>
    if cur.rest.head? = some '\x7d' then some ([], cur.skip 1)
    else do
      let (key, value, next) ← flowPair? fuel cur
      let entry := (key, value.getD .nothing)
      match next.rest with
      | ',' :: _ =>
        let (entries, next) ← flowEntries? fuel (skipFlowBlanks (next.skip 1))
        some (entry :: entries, next)
      | '\x7d' :: _ => some ([entry], next.skip 1)
      | _ => none

end

/-! ## Nodes in blocks -/

/-- The plain or quoted scalar at a place, whose further lines start at the column `least` or right
of it. -/
def scalar? (least : Nat) (cur : Cursor) : Option (Node × Cursor) :=
  if cur.rest.head?.any ['\'', '"'].contains then
    (quoted? cur).map fun scanned => (.quoted (String.ofList scanned.text), scanned.next)
  else if startsPlain false cur.rest then
    (plain? false least cur).map fun scanned => (.plain (String.ofList scanned.text), scanned.next)
  else none

/-- The key of a block mapping at a place, and the place behind its colon. -/
def key? (cur : Cursor) : Option (Node × Cursor) := do
  let (key, next) ← scalar? (cur.column + 1) cur
  let colon := skipBlanks true next
  if colon.atIndicator ':' && closesKey cur colon then some (key, colon.skip 1) else none

mutual

/-- The node at a place, whose further lines start at the column `least` or right of it. On the line
of its key (`onKeyLine`) it may be neither a block list nor a block mapping. -/
def blockNode? : Nat → Nat → Bool → Cursor → Option (Node × Cursor)
  | 0, _, _, _ => none
  | fuel + 1, least, onKeyLine, cur =>
    if cur.atIndicator '-' then
      if onKeyLine then none
      else (blockItems? fuel cur.column false cur).map fun (items, next) => (.list items, next)
    else if !onKeyLine && (key? cur).isSome then
      (blockEntries? fuel cur.column cur).map fun (entries, next) => (.mapping entries, next)
    else do
      let (node, next) ← match cur.rest with
        | '[' :: _ | '\x7b' :: _ => flowNode? fuel cur
        | '|' :: _ | '>' :: _ =>
          (block? least cur).map fun scanned =>
            (.quoted (String.ofList scanned.text), scanned.next)
        | _ => scalar? least cur
      if (skipBlanks true next).atIndicator ':' then none else some (node, next)

/-- The value behind the colon of a key or the dash of an item in the column `column`; `dash` tells
which of the two it is. -/
def blockValue? : Nat → Nat → Bool → Cursor → Option (Node × Cursor)
  | 0, _, _, _ => none
  | fuel + 1, column, dash, cur =>
    let next := skipBlanks (!dash) cur
    if next.atEnd then some (.nothing, next)
    else if next.line == cur.line then blockNode? fuel (column + 1) (!dash) next
    else if column < next.column then blockNode? fuel (column + 1) false next
    else if !dash && next.column == column && next.atIndicator '-' then
      (blockItems? fuel column true next).map fun (items, next) => (.list items, next)
    else some (.nothing, next)

/-- The items of a block list in the column `column`. With `belowKey`, the list belongs to a key in
the same column, and the next key ends it. -/
def blockItems? : Nat → Nat → Bool → Cursor → Option (List Node × Cursor)
  | 0, _, _, _ => none
  | fuel + 1, column, belowKey, cur => do
    let (item, next) ← blockValue? fuel column true (cur.skip 1)
    let next := skipBlanks true next
    if next.atEnd || next.column < column then some ([item], next)
    else if next.column == column && next.atIndicator '-' then
      let (items, next) ← blockItems? fuel column belowKey next
      some (item :: items, next)
    else if next.column == column && belowKey then some ([item], next)
    else none

/-- The entries of a block mapping in the column `column`. -/
def blockEntries? : Nat → Nat → Cursor → Option (List (Node × Node) × Cursor)
  | 0, _, _ => none
  | fuel + 1, column, cur => do
    let (key, next) ← key? cur
    let (value, next) ← blockValue? fuel column false next
    let next := skipBlanks true next
    if next.atEnd || next.column < column then some ([(key, value)], next)
    else if next.column == column then
      let (entries, next) ← blockEntries? fuel column next
      some ((key, value) :: entries, next)
    else none

end

/-- Nothing but markers of a document's end follows. -/
def endsStream : Nat → Cursor → Bool
  | 0, _ => false
  | fuel + 1, cur =>
    let next := skipBlanks true cur
    next.rest.isEmpty || (next.atMarker '.' && endsStream fuel (next.skip 3))

/-- Reads a text that holds at most one document. The result is `none` if the text can not be read,
and `some none` if it holds no document. -/
def read? (source : String) : Option (Option Node) :=
  let text := normalizeBreaks source.toList
  let text := if text.head? = some '\ufeff' then text.drop 1 else text
  -- A nested node takes up at least one character, and costs at most four steps.
  let fuel := 4 * text.length + 8
  let start := skipBlanks false ⟨0, 0, text⟩
  if !(text.all isPrintable) || start.atMarker '.' then none
  else if start.rest.isEmpty then some none
  else
    let explicit := start.atMarker '-'
    let cur := if explicit then skipBlanks true (start.skip 3) else start
    let root := if explicit && cur.atEnd then some (.nothing, cur)
      else blockNode? fuel 0 (explicit && cur.line == start.line) cur
    root.bind fun (node, next) => if endsStream fuel next then some (some node) else none

end IntervalSuite.Yaml
