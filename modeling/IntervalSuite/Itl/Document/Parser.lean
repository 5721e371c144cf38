import IntervalSuite.Itl.Token.Lexer

/-!
# From tokens to a document

The grammar, where a comment stands in front of a testcase or a test and belongs to it, except that
the very first comment of a file belongs to the document:

```text
document  := comment* testcase (comment* testcase)* end-of-file
testcase  := "testcase" name "{" test+ "}"
name      := identifier ("." identifier)*
test      := comment* operation literal* ("=" literal+)? ("<" "=" literal+)? ";"
literal   := integer | float | infinity | string | boolean | overlap | interval
interval  := "[" special "]" | "[" "entire" "]" decoration? | "[" bound "," bound "]" decoration?
bound     := float | infinity | integer without a suffix
```

A test has at least one of its two output parts. The parser looks one token ahead and stops at the
first token that does not fit.
-/

namespace IntervalSuite.Itl

/-- What the parser looks for when it fails. -/
inductive Expected where
  | testcase
  | openBrace
  | closeBrace
  | equalsAfterLess
  | outputs (operation : String)
  | semicolon
  | operation
  | identifier
  | literal
  | comma
  | closeBracket
  | bound
  | decoration
  deriving DecidableEq, Repr

/-- The words for it in a message. -/
def Expected.text : Expected → String
  | testcase => "Expected 'testcase'"
  | openBrace => "Expected '\x7b' after testcase name"
  | closeBrace => "Expected '\x7d' after tests"
  | equalsAfterLess => "Expected '=' after '<'"
  | outputs op => "Expected '=' or '<=' after operands of '" ++ op ++ "'"
  | semicolon => "Expected ';' after test"
  | operation => "Expected operation name"
  | identifier => "Expected identifier"
  | literal => "Expected literal"
  | comma => "Expected ',' between interval bounds"
  | closeBracket => "Expected ']' to close interval"
  | bound => "Expected number or infinity as interval bound"
  | decoration => "Expected decoration after '_'"

/-- Why a source does not parse. -/
inductive Fault where
  | unexpected (expected : Expected) (found : Token)
  /-- An integer with a suffix stands as the bound of an interval. -/
  | suffixedBound (text : String)
  /-- A part of the document can not be built. -/
  | node (error : NodeError)
  deriving DecidableEq, Repr

/-- The text of the fault. -/
def Fault.message : Fault → String
  | unexpected expected found => expected.text ++ ", found " ++ found.describe
  | suffixedBound text => "Integer suffix not allowed in interval bound '" ++ text ++ "'"
  | node error => error.message

/-- A fault in a file and where it is. -/
structure ParseError where
  fault : Fault
  location : Location
  file : String
  deriving DecidableEq, Repr

/-- The whole text of the error. -/
def ParseError.message (e : ParseError) : String :=
  "Parse error in " ++ e.file ++ " at line " ++ toString e.location.line ++ ", column " ++
    toString e.location.column ++ ": " ++ e.fault.message

namespace Parser

/-- A rule of the grammar gives a value and the tokens behind it, or a fault and its place. -/
abbrev Attempt (α : Type) : Type := Except (Fault × Location) α

/-- The next lexeme; behind the last one there is only the end of the file. -/
def peek : List Lexeme → Lexeme
  | [] => ⟨.endOfFile, .start⟩
  | l :: _ => l

/-- A fault at the next token, which is not what the rule expects. -/
def fail {α : Type} (expected : Expected) (ts : List Lexeme) : Attempt (α × List Lexeme) :=
  .error (.unexpected expected (peek ts).token, (peek ts).location)

/-- The token `token`. -/
def expect (token : Token) (expected : Expected) (ts : List Lexeme) :
    Attempt (Unit × List Lexeme) :=
  match ts with
  | [] => fail expected ts
  | l :: rest => if l.token = token then .ok ((), rest) else fail expected ts

/-- The rule `p`, and again as long as the next token satisfies `more`. -/
def repeatWhile {α : Type} (more : Token → Bool) (p : List Lexeme → Attempt (α × List Lexeme))
    (ts : List Lexeme) : Attempt (List α × List Lexeme) :=
  match p ts with
  | .error e => .error e
  | .ok (a, rest) =>
    if _ : rest.length < ts.length ∧ more (peek rest).token then
      match repeatWhile more p rest with
      | .error e => .error e
      | .ok (as, rest) => .ok (a :: as, rest)
    else .ok ([a], rest)
termination_by ts.length
decreasing_by grind

/-- The comments in front of the next other token. -/
def comments : List Lexeme → List Comment × List Lexeme
  | ⟨.comment style text, location⟩ :: ts =>
    let (cs, rest) := comments ts
    (⟨style, text, location⟩ :: cs, rest)
  | ts => ([], ts)

/-! ## Literals -/

/-- The suffix of an integer as it is written. -/
def intSuffix (text : String) : String :=
  String.ofList (text.toList.reverse.takeWhile
    fun c => c == 'u' || c == 'U' || c == 'l' || c == 'L').reverse

/-- The suffix of a floating constant as it is written. -/
def floatSuffix (text : String) : String :=
  match text.toList.getLast? with
  | some c => if isFloatSuffix c then String.singleton c else ""
  | none => ""

/-- The format of the special word `text` that starts with `base`. -/
def specialType (text base : String) : FloatType :=
  FloatType.ofSuffix ((specialSuffix? text base).getD "")

/-- The infinity that a token spells, with its format. -/
def infinity (text : String) : FloatType × Scalar :=
  (specialType text "inf", .infinity (if text.toList.head? = some '-' then .minus else .plus))

/-- The floating constant that a token spells, with its format. -/
def number (text : String) : FloatType × Scalar :=
  (FloatType.ofSuffix (floatSuffix text), .number text)

/-- A literal can start with the token. -/
def startsLiteral : Token → Bool
  | .integer _ | .float _ | .string _ | .infinity _ | .boolean _ | .overlap _ => true
  | .punct p => p = .openBracket
  | _ => false

/-- A bound of an interval; an integer without a suffix is a double. -/
def bound (ts : List Lexeme) : Attempt ((FloatType × Scalar) × List Lexeme) :=
  match ts with
  | ⟨.float text, _⟩ :: rest => .ok (number text, rest)
  | ⟨.infinity text, _⟩ :: rest => .ok (infinity text, rest)
  | ⟨.integer text, location⟩ :: rest =>
    if intSuffix text = "" then .ok ((.double, .number text), rest)
    else .error (.suffixedBound text, location)
  | _ => fail .bound ts

/-- An optional decoration. -/
def decoration (ts : List Lexeme) : Attempt (Option Decoration × List Lexeme) :=
  match ts with
  | ⟨.punct .underscore, _⟩ :: rest => match rest with
    | ⟨.decoration d, _⟩ :: rest => .ok (some d, rest)
    | _ => fail .decoration rest
  | _ => .ok (none, ts)

/-- The part of an interval behind its opening bracket, which stands at `location`. -/
def intervalTail (location : Location) (ts : List Lexeme) : Attempt (Interval × List Lexeme) :=
  match ts with
  | ⟨.special kind text, _⟩ :: rest => do
    let (_, rest) ← expect (.punct .closeBracket) .closeBracket rest
    let interval := Interval.special kind (specialType text kind.word) none
    if kind = .entire then
      let (d, rest) ← decoration rest
      return (interval.decorate d, rest)
    else return (interval, rest)
  | _ => do
    let (inf, rest) ← bound ts
    let (_, rest) ← expect (.punct .comma) .comma rest
    let (sup, rest) ← bound rest
    let (_, rest) ← expect (.punct .closeBracket) .closeBracket rest
    match Interval.ofBounds inf sup none with
    | .error e => .error (.node e, location)
    | .ok interval =>
      let (d, rest) ← decoration rest
      return (interval.decorate d, rest)

/-- A literal. -/
def literal (ts : List Lexeme) : Attempt (Literal × List Lexeme) :=
  match ts with
  | ⟨.punct .openBracket, location⟩ :: rest => do
    let (interval, rest) ← intervalTail location rest
    return (.interval interval, rest)
  | ⟨.integer text, _⟩ :: rest =>
    let (type, unsigned) := IntType.ofSuffix (intSuffix text)
    .ok (.integer text type unsigned, rest)
  | ⟨.float text, _⟩ :: rest => .ok (.real (number text).1 (number text).2, rest)
  | ⟨.infinity text, _⟩ :: rest => .ok (.real (infinity text).1 (infinity text).2, rest)
  | ⟨.string text, _⟩ :: rest => .ok (.string text, rest)
  | ⟨.boolean value, _⟩ :: rest => .ok (.boolean value, rest)
  | ⟨.overlap state, _⟩ :: rest => .ok (.overlap state, rest)
  | _ => fail .literal ts

/-- One or more literals. -/
def literals (ts : List Lexeme) : Attempt (List Literal × List Lexeme) :=
  repeatWhile startsLiteral literal ts

/-! ## Structure -/

/-- The name of an operation: an identifier or the bare word `inf`. -/
def operation (ts : List Lexeme) : Attempt (String × List Lexeme) :=
  match ts with
  | ⟨.identifier name, _⟩ :: rest => .ok (name, rest)
  | ⟨.infinity text, _⟩ :: rest => if text = "inf" then .ok (text, rest) else fail .operation ts
  | _ => fail .operation ts

/-- The literals in front of the outputs. -/
def inputs (ts : List Lexeme) : Attempt (List Literal × List Lexeme) :=
  if startsLiteral (peek ts).token then literals ts else .ok ([], ts)

/-- The tightest outputs, if they are there. -/
def tightest (ts : List Lexeme) : Attempt (Option (List Literal) × List Lexeme) :=
  match ts with
  | ⟨.punct .equals, _⟩ :: rest => do
    let (outputs, rest) ← literals rest
    return (some outputs, rest)
  | _ => .ok (none, ts)

/-- The accurate outputs, if they are there. -/
def accurate (ts : List Lexeme) : Attempt (Option (List Literal) × List Lexeme) :=
  match ts with
  | ⟨.punct .less, _⟩ :: rest => do
    let (_, rest) ← expect (.punct .equals) .equalsAfterLess rest
    let (outputs, rest) ← literals rest
    return (some outputs, rest)
  | _ => .ok (none, ts)

/-- One test. -/
def test (ts : List Lexeme) : Attempt (Test × List Lexeme) := do
  let (comments, ts) := comments ts
  let location := (peek ts).location
  let (operation, ts) ← operation ts
  let (inputs, ts) ← inputs ts
  let (tightest, ts) ← tightest ts
  let (accurate, ts) ← accurate ts
  match Outputs.ofParts? tightest accurate with
  | none => fail (.outputs operation) ts
  | some outputs =>
    let (_, ts) ← expect (.punct .semicolon) .semicolon ts
    return (⟨operation, inputs, outputs, comments, location⟩, ts)

/-- The identifiers behind the first one of a name. -/
def nameTail : List Lexeme → Attempt (List String × List Lexeme)
  | ⟨.punct .dot, _⟩ :: ts => match ts with
    | ⟨.identifier part, _⟩ :: rest => do
      let (parts, rest) ← nameTail rest
      return (part :: parts, rest)
    | _ => fail .identifier ts
  | ts => .ok ([], ts)

/-- The name of a testcase. -/
def name (ts : List Lexeme) : Attempt (List String × List Lexeme) :=
  match ts with
  | ⟨.identifier part, _⟩ :: rest => do
    let (parts, rest) ← nameTail rest
    return (part :: parts, rest)
  | _ => fail .identifier ts

/-- A testcase behind its comments. -/
def testcase (comments : List Comment) (ts : List Lexeme) : Attempt (Testcase × List Lexeme) := do
  let location := (peek ts).location
  let (_, ts) ← expect .testcase .testcase ts
  let (name, ts) ← name ts
  let (_, ts) ← expect (.punct .openBrace) .openBrace ts
  let (tests, ts) ← repeatWhile (· ≠ .punct .closeBrace) test ts
  let (_, ts) ← expect (.punct .closeBrace) .closeBrace ts
  return (⟨name, tests, comments, location⟩, ts)

/-- A testcase and the comments in front of it. -/
def commentedTestcase (ts : List Lexeme) : Attempt (Testcase × List Lexeme) :=
  let (comments, ts) := comments ts
  testcase comments ts

/-- The testcases up to the end of the file. -/
def testcases (ts : List Lexeme) : Attempt (List Testcase × List Lexeme) :=
  if (peek ts).token = .endOfFile then .ok ([], ts)
  else repeatWhile (· ≠ .endOfFile) commentedTestcase ts

/-- The document comment and the testcases. -/
def document (fileName : String) (ts : List Lexeme) : Attempt (Document × List Lexeme) := do
  let (leading, ts) := comments ts
  let (first, ts) ← testcase (leading.drop 1) ts
  let (others, ts) ← testcases ts
  return (⟨fileName, leading.head?, first :: others⟩, ts)

end Parser

/-- The document that a list of tokens spells. -/
def parseTokens (fileName : String) (tokens : List Lexeme) : Except ParseError Document :=
  match Parser.document fileName tokens with
  | .ok (document, _) => .ok document
  | .error (fault, location) => .error ⟨fault, location, fileName⟩

/-- The document in a source text. -/
def parseDocument (source fileName : String) : Except ParseError Document :=
  parseTokens fileName (tokenize source)

end IntervalSuite.Itl
