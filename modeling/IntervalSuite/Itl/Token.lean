import IntervalSuite.Itl.Document

/-!
# Tokens

The tokens of a source text. A token that is a number, string, word or comment carries its text; the
others are known by their spelling.
-/

namespace IntervalSuite.Itl

/-- The punctuation characters. -/
inductive Punct where
  | openBrace
  | closeBrace
  | openBracket
  | closeBracket
  | semicolon
  | comma
  | dot
  | equals
  | less
  | underscore
  deriving DecidableEq, Repr

namespace Punct

/-- The character itself. -/
def char : Punct → Char
  | openBrace => '\x7b'
  | closeBrace => '\x7d'
  | openBracket => '['
  | closeBracket => ']'
  | semicolon => ';'
  | comma => ','
  | dot => '.'
  | equals => '='
  | less => '<'
  | underscore => '_'

/-- All punctuation. -/
def all : List Punct :=
  [openBrace, closeBrace, openBracket, closeBracket, semicolon, comma, dot, equals, less,
    underscore]

/-- The punctuation that a character is. -/
def ofChar? (c : Char) : Option Punct := all.find? (·.char = c)

end Punct

/-- A token of a source text. -/
inductive Token where
  | integer (text : String)
  | float (text : String)
  | string (text : String)
  /-- `inf` with an optional sign and suffix. -/
  | infinity (text : String)
  /-- The word of an interval without bounds, with an optional suffix. -/
  | special (kind : SpecialKind) (text : String)
  | identifier (text : String)
  | testcase
  | boolean (value : Bool)
  | decoration (value : Decoration)
  | overlap (state : Overlap)
  | comment (style : CommentStyle) (text : String)
  | punct (p : Punct)
  | endOfFile
  deriving DecidableEq, Repr

namespace Token

/-- The text of the token in the source. -/
def spelling : Token → String
  | integer text | float text | string text | infinity text | special _ text | identifier text
  | comment _ text => text
  | testcase => "testcase"
  | boolean value => if value then "true" else "false"
  | decoration value => value.name
  | overlap state => state.name
  | punct p => String.singleton p.char
  | endOfFile => ""

/-- The token in the words of an error message. -/
def describe : Token → String
  | integer text => "integer literal " ++ text
  | float text => "float literal " ++ text
  | string text => "string literal " ++ text
  | infinity text | special _ text => "'" ++ text ++ "'"
  | identifier text => "identifier '" ++ text ++ "'"
  | testcase => "'testcase'"
  | boolean value => if value then "'true'" else "'false'"
  | decoration value => "decoration '" ++ value.name ++ "'"
  | overlap state => "overlap relation '" ++ state.name ++ "'"
  | comment .line _ => "line comment"
  | comment .block _ => "block comment"
  | punct p => "'" ++ String.singleton p.char ++ "'"
  | endOfFile => "end of file"

end Token

/-- A token and where it stands. -/
structure Lexeme where
  token : Token
  location : Location
  deriving DecidableEq, Repr

/-- A character that belongs to no token. -/
structure Diagnostic where
  char : Char
  location : Location
  deriving DecidableEq, Repr

/-- The text of the diagnostic. -/
def Diagnostic.message (d : Diagnostic) : String :=
  "Illegal character '" ++ String.singleton d.char ++ "' in line " ++ toString d.location.line

end IntervalSuite.Itl
