import IntervalSuite.Itl.Document.Parser

/-!
# A parser with an index

The rules of the parser, for a parser that does not take its tokens off a list but walks through a
vector of them. Its state is the vector and a position; it looks at the token at the position, and
steps to the next one.

Whatever such a parser takes for granted is checked: that a position is one of the vector, that a
round of a loop leaves fewer tokens, and that a case is excluded by what has been looked at before.
Where a check fails, the parser is trapped. That this never happens, and that these rules are those
of the parser, is shown in `IntervalSuite.Proofs.Itl.Safety`.
-/

namespace IntervalSuite.Itl

/-- The state of a parser that walks through its tokens. -/
structure Cursor where
  tokens : List Lexeme
  position : Nat

namespace Cursor

/-- The cursor at the first token of a source. -/
def start (source : String) : Cursor := ⟨tokenize source, 0⟩

/-- The cursor at the next position. -/
def next (c : Cursor) : Cursor := ⟨c.tokens, c.position + 1⟩

/-- The tokens from the position on. -/
def rest (c : Cursor) : List Lexeme := c.tokens.drop c.position

/-- The number of these tokens. -/
def left (c : Cursor) : Nat := c.tokens.length - c.position

/-- What a parser relies on, and what would go wrong without it. -/
inductive Trap where
  /-- The position is none of the vector. -/
  | outOfRange
  /-- A round of a loop has left all tokens where they are. -/
  | stalled
  /-- An interval does not start with a bracket. -/
  | noBracket
  /-- The word `entire` stands for an interval with bounds. -/
  | boundedEntire
  /-- A test has been read that declares no outputs. -/
  | noOutputs
  deriving DecidableEq

/-- Why a rule ends without a value. -/
inductive Stop where
  /-- The source has a fault. -/
  | fault (cause : Fault × Location)
  /-- The parser has a fault. -/
  | trap (trap : Trap)

/-- A rule of the grammar. -/
abbrev Rule (α : Type) : Type := StateT Cursor (Except Stop) α

variable {α : Type}

/-! ## Steps -/

/-- The token at an index. -/
def tokenAt (index : Nat) : Rule Lexeme := fun c =>
  match c.tokens[index]? with
  | some l => .ok (l, c)
  | none => .error (.trap .outOfRange)

/-- The token at the position. -/
def peek : Rule Lexeme := do tokenAt (← get).position

/-- The token in front of the position. -/
def previous : Rule Lexeme := do tokenAt ((← get).position - 1)

/-- Steps to the next position, which has to be one of the vector. -/
def step : Rule Unit := fun c =>
  if c.position + 1 < c.tokens.length then .ok ((), c.next) else .error (.trap .outOfRange)

/-- The end of the file has been reached. -/
def isAtEnd : Rule Bool := do return (← peek).token = .endOfFile

/-- The token at the position, which is passed unless it is the end of the file. -/
def advance : Rule Lexeme := do
  if !(← isAtEnd) then step
  previous

/-- Passes a token that stands for `a`. -/
def take (a : α) : Rule α := do
  let _ ← advance
  return a

/-- A fault at the position. -/
def failWith (fault : Fault) : Rule α := do throw (.fault (fault, (← peek).location))

/-- A fault at the next token, which is not what the rule expects. -/
def fail (expected : Expected) : Rule α := do failWith (.unexpected expected (← peek).token)

/-- Passes the token `token`, if it is the next one. -/
def accept (token : Token) : Rule Bool := do
  if (← peek).token = token then take true else return false

/-- The token `token`. -/
def expect (token : Token) (expected : Expected) : Rule Unit := do
  if ← accept token then return () else fail expected

/-- The values of the rounds of a loop, which ends with the first round that has none. -/
def rounds (round : Rule (Option α)) (c : Cursor) : Except Stop (List α × Cursor) :=
  match round c with
  | .error stop => .error stop
  | .ok (none, c') => .ok ([], c')
  | .ok (some a, c') =>
    if _ : c'.left < c.left then
      match rounds round c' with
      | .error stop => .error stop
      | .ok (as, c'') => .ok (a :: as, c'')
    else .error (.trap .stalled)
termination_by c.left

/-- A round of a loop over `rule` that goes on while the next token satisfies `more`. -/
def roundWhile (more : Token → Bool) (rule : Rule α) : Rule (Option α) := do
  if more (← peek).token then return some (← rule) else return none

/-- The values of the rounds of a loop over `rule` that goes on behind a round if the next token
satisfies `more`. -/
def repeatWhile (more : Token → Bool) (rule : Rule α) (c : Cursor) :
    Except Stop (List α × Cursor) :=
  match rule c with
  | .error stop => .error stop
  | .ok (a, c') =>
    if _ : c'.left < c.left then
      match peek c' with
      | .error stop => .error stop
      | .ok (l, _) =>
        if more l.token then
          match repeatWhile more rule c' with
          | .error stop => .error stop
          | .ok (as, c'') => .ok (a :: as, c'')
        else .ok ([a], c')
    else .error (.trap .stalled)
termination_by c.left

/-! ## Rules -/

/-- The comments in front of the next other token. -/
def comments : Rule (List Comment) := rounds do
  match ← peek with
  | ⟨.comment style text, location⟩ => take (some ⟨style, text, location⟩)
  | _ => return none

/-- A bound of an interval. -/
def bound : Rule (FloatType × Scalar) := do
  match (← peek).token with
  | .float text => take (Parser.number text)
  | .infinity text => take (Parser.infinity text)
  | .integer text =>
    if Parser.intSuffix text = "" then take (.double, .number text)
    else failWith (.suffixedBound text)
  | _ => fail .bound

/-- An optional decoration. -/
def decoration : Rule (Option Decoration) := do
  if ← accept (.punct .underscore) then
    match (← peek).token with
    | .decoration d => take (some d)
    | _ => fail .decoration
  else return none

/-- A special interval and its optional decoration. -/
def decorated (interval : Interval) : Rule Interval := do
  match ← decoration with
  | none => return interval
  | some d => match interval with
    | .special kind type _ => return .special kind type (some d)
    | .infSup .. => throw (.trap .boundedEntire)

/-- The part of an interval behind its opening bracket, which stands at `location`. -/
def intervalTail (location : Location) : Rule Interval := do
  match (← peek).token with
  | .special kind text =>
    let _ ← advance
    expect (.punct .closeBracket) .closeBracket
    let interval := Interval.special kind (Parser.specialType text kind.word) none
    if kind = .entire then decorated interval else return interval
  | _ =>
    let inf ← bound
    expect (.punct .comma) .comma
    let sup ← bound
    expect (.punct .closeBracket) .closeBracket
    match Interval.ofBounds inf sup none with
    | .error e => throw (.fault (.node e, location))
    | .ok interval => return interval.decorate (← decoration)

/-- An interval. -/
def interval : Rule Interval := do
  let location := (← peek).location
  if ← accept (.punct .openBracket) then intervalTail location else throw (.trap .noBracket)

/-- A literal. -/
def literal : Rule Literal := do
  match (← peek).token with
  | .punct .openBracket => return .interval (← interval)
  | .integer text =>
    let (type, unsigned) := IntType.ofSuffix (Parser.intSuffix text)
    take (.integer text type unsigned)
  | .float text => take (.real (Parser.number text).1 (Parser.number text).2)
  | .infinity text => take (.real (Parser.infinity text).1 (Parser.infinity text).2)
  | .string text => take (.string text)
  | .boolean value => take (.boolean value)
  | .overlap state => take (.overlap state)
  | _ => fail .literal

/-- One or more literals. -/
def literals : Rule (List Literal) := repeatWhile Parser.startsLiteral literal

/-- The name of an operation. -/
def operation : Rule String := do
  match (← peek).token with
  | .identifier name => take name
  | .infinity text => if text = "inf" then take text else fail .operation
  | _ => fail .operation

/-- The literals in front of the outputs. -/
def inputs : Rule (List Literal) := do
  if Parser.startsLiteral (← peek).token then literals else return []

/-- The tightest outputs, if they are there. -/
def tightest : Rule (Option (List Literal)) := do
  if ← accept (.punct .equals) then return some (← literals) else return none

/-- The accurate outputs, if they are there. -/
def accurate : Rule (Option (List Literal)) := do
  if ← accept (.punct .less) then
    expect (.punct .equals) .equalsAfterLess
    return some (← literals)
  else return none

/-- One test. That it declares outputs is looked at before its semicolon is read, and once more when
it is built. -/
def test : Rule Test := do
  let comments ← comments
  let location := (← peek).location
  let operation ← operation
  let inputs ← inputs
  let tightest ← tightest
  let accurate ← accurate
  if tightest.isNone && accurate.isNone then fail (.outputs operation)
  else
    expect (.punct .semicolon) .semicolon
    match Test.ofParts operation inputs tightest accurate comments location with
    | .ok test => return test
    | .error _ => throw (.trap .noOutputs)

/-- An identifier. -/
def identifier : Rule String := do
  match (← peek).token with
  | .identifier name => take name
  | _ => fail .identifier

/-- The identifiers behind the first one of a name. -/
def nameTail : Rule (List String) := rounds do
  if ← accept (.punct .dot) then return some (← identifier) else return none

/-- The name of a testcase. -/
def name : Rule (List String) := do
  let first ← identifier
  let parts ← nameTail
  return first :: parts

/-- A testcase behind its comments. -/
def testcase (comments : List Comment) : Rule Testcase := do
  let location := (← peek).location
  expect .testcase .testcase
  let name ← name
  expect (.punct .openBrace) .openBrace
  let tests ← repeatWhile (· ≠ .punct .closeBrace) test
  expect (.punct .closeBrace) .closeBrace
  return ⟨name, tests, comments, location⟩

/-- A testcase and the comments in front of it. -/
def commentedTestcase : Rule Testcase := do
  let comments ← comments
  testcase comments

/-- The document comment and the testcases. -/
def document (fileName : String) : Rule Document := do
  let leading ← comments
  let first ← testcase (leading.drop 1)
  let others ← rounds (roundWhile (· ≠ .endOfFile) commentedTestcase)
  return ⟨fileName, leading.head?, first :: others⟩

end Cursor

end IntervalSuite.Itl
