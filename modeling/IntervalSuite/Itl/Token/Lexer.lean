import IntervalSuite.Itl.Token
import IntervalSuite.Itl.Token.Number
import IntervalSuite.Text.Search

/-!
# From text to tokens

A source text is cut into pieces (`pieces`), each the text of a token, a blank, a comment that is
dropped, or a character that belongs to no token. Tokens and diagnostics are read off the pieces,
and a location is where the text of the pieces before it ends. Cutting never fails.
-/

namespace IntervalSuite.Itl

/-- `c` may start a word. -/
def isWordStart (c : Char) : Bool := c.isAlpha

/-- `c` may continue a word. -/
def isWordPart (c : Char) : Bool := c.isAlphanum || c == '_'

/-- The suffix of a special word: `word` without its signs is `base` and at most one suffix of a
floating constant. -/
def suffixChars? (word base : List Char) : Option (List Char) :=
  match base.isPrefixOf? (word.dropWhile fun c => c == '+' || c == '-') with
  | some [] => some []
  | some [c] => if isFloatSuffix c then some [c] else none
  | _ => none

/-- The suffix of the special word `word`, which consists of optional signs, `base` and the
suffix. -/
def specialSuffix? (word base : String) : Option String :=
  (suffixChars? word.toList base.toList).map String.ofList

/-- The token of a reserved word. -/
def keyword? (word : String) : Option Token :=
  if word = "testcase" then some .testcase
  else if word = "true" then some (.boolean true)
  else if word = "false" then some (.boolean false)
  else match Decoration.ofName? word with
    | some decoration => some (.decoration decoration)
    | none => (Overlap.ofName? word).map .overlap

/-- The token of a word. -/
def wordToken (word : String) : Token :=
  match keyword? word with
  | some token => token
  | none =>
    if (specialSuffix? word "inf").isSome then .infinity word
    else match [SpecialKind.nai, .empty, .entire].find? fun k =>
        (specialSuffix? word k.word).isSome with
      | some kind => .special kind word
      | none => .identifier word

/-- The word at the start of the text. -/
def leadingWord (cs : List Char) : List Char := cs.takeWhile isWordPart

/-- The text of a string literal behind its opening quote, up to its closing one. A backslash takes
the next character with it; a newline that no backslash takes ends the search. -/
def stringTail? : List Char → Option (List Char)
  | [] => none
  | ['\\'] => none
  | '\\' :: c :: cs => (stringTail? cs).map fun t => '\\' :: c :: t
  | '"' :: _ => some ['"']
  | '\n' :: _ => none
  | c :: cs => (stringTail? cs).map (c :: ·)

/-- A digit, or a point and a digit, stands at the start of the text. -/
def startsNumber : List Char → Bool
  | '.' :: c :: _ => c.isDigit
  | c :: _ => c.isDigit
  | [] => false

/-- The token of the numeric constant at the start of the text, with `sign` before it. -/
def numberToken (sign cs : List Char) : Token :=
  let constant := leadingConstant cs
  let text := String.ofList (sign ++ constant.text)
  if constant.isFloat then .float text else .integer text

/-- The token at the start of `c :: cs`, if there is one. -/
def leadingToken? (c : Char) (cs : List Char) : Option Token :=
  if c = '/' then
    match cs with
    | '/' :: _ => some (.comment .line (String.ofList ((c :: cs).takeWhile (· ≠ '\n'))))
    | '*' :: rest => (Text.takeThrough? ['*', '/'] rest).map fun t =>
        .comment .block (String.ofList ('/' :: '*' :: t))
    | _ => none
  else if c = '"' then (stringTail? cs).map fun t => .string (String.ofList ('"' :: t))
  else if c = '+' ∨ c = '-' then
    if startsNumber cs then some (numberToken [c] cs)
    else if cs.head? = some 'i' ∧ (suffixChars? (leadingWord cs) ['i', 'n', 'f']).isSome then
      some (.infinity (String.ofList (c :: leadingWord cs)))
    else none
  else if startsNumber (c :: cs) then some (numberToken [] (c :: cs))
  else if isWordStart c then some (wordToken (String.ofList (leadingWord (c :: cs))))
  else (Punct.ofChar? c).map .punct

/-- The dropped comment that `#` starts, given what follows it: `#* … *#`, or up to the end of the
line if that is not closed. -/
def hashComment (cs : List Char) : List Char :=
  let line := '#' :: cs.takeWhile (· ≠ '\n')
  match cs with
  | '*' :: rest => match Text.takeThrough? ['*', '#'] rest with
    | some t => '#' :: '*' :: t
    | none => line
  | _ => line

/-- A piece of a source text. -/
inductive Piece where
  | blank (c : Char)
  | dropped (comment : List Char)
  | token (t : Token)
  | illegal (c : Char)
  deriving DecidableEq, Repr

/-- The text of a piece. -/
def Piece.text : Piece → List Char
  | blank c => [c]
  | dropped comment => comment
  | token t => t.spelling.toList
  | illegal c => [c]

/-- `c` separates tokens. -/
def isSpace (c : Char) : Bool := c == ' ' || c == '\t' || c == '\r' || c == '\n'

/-- The first piece of `c :: cs`. -/
def leadingPiece (c : Char) (cs : List Char) : Piece :=
  if isSpace c then .blank c
  else if c = '#' then .dropped (hashComment cs)
  else match leadingToken? c cs with
    | some t => .token t
    | none => .illegal c

/-- The pieces of a source text. -/
def pieces : List Char → List Piece
  | [] => []
  | c :: cs =>
    let piece := leadingPiece c cs
    piece :: pieces (cs.drop (piece.text.length - 1))
termination_by cs => cs.length
decreasing_by grind

/-- The tokens among the pieces that start at `l`, and the end of file behind them. -/
def lexemesFrom (l : Location) : List Piece → List Lexeme
  | [] => [⟨.endOfFile, l⟩]
  | .token t :: ps => ⟨t, l⟩ :: lexemesFrom (l.after t.spelling.toList) ps
  | p :: ps => lexemesFrom (l.after p.text) ps

/-- The illegal characters among the pieces that start at `l`. -/
def diagnosticsFrom (l : Location) : List Piece → List Diagnostic
  | [] => []
  | .illegal c :: ps => ⟨c, l⟩ :: diagnosticsFrom (l.next c) ps
  | p :: ps => diagnosticsFrom (l.after p.text) ps

/-- The tokens of a source text, the end of file last. -/
def tokenize (source : String) : List Lexeme := lexemesFrom .start (pieces source.toList)

/-- The characters of a source text that belong to no token. -/
def diagnose (source : String) : List Diagnostic := diagnosticsFrom .start (pieces source.toList)

end IntervalSuite.Itl
