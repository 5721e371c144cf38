import IntervalSuite.Text.Search

/-!
# Templates

A template is a text with placeholders `$NAME` and `${NAME}`, where a name is an identifier and
`$$` stands for a dollar sign. A template is read as a list of segments; a substitution binds one
name, fills the placeholders of that name, turns `$$` into `$` and leaves all else as it is.

A list of values is substituted one item at a time: every item but the last leaves the placeholder
behind it, without braces. So each occurrence of the placeholder receives the whole list, as long as
nothing next to it is read as a part of a placeholder.
-/

namespace IntervalSuite.Template

/-- `c` may start an identifier. -/
def isNameStart (c : Char) : Bool := c == '_' || c.isAlpha

/-- `c` may continue an identifier. -/
def isNamePart (c : Char) : Bool := isNameStart c || c.isDigit

/-- The identifier at the start of a text; empty if there is none. -/
def leadingName : List Char → List Char
  | [] => []
  | c :: cs => if isNameStart c then c :: cs.takeWhile isNamePart else []

/-- A piece of a template. -/
inductive Segment where
  /-- A character that stands for itself. -/
  | char (c : Char)
  /-- `$$`, which stands for a dollar sign. -/
  | dollar
  /-- `$name`, or `${name}` if `braced`. -/
  | hole (name : List Char) (braced : Bool)
  deriving DecidableEq, Repr

namespace Segment

/-- The segment as it is written. -/
def text : Segment → List Char
  | char c => [c]
  | dollar => ['$', '$']
  | hole name false => '$' :: name
  | hole name true => '$' :: '\x7b' :: (name ++ ['\x7d'])

/-- The segment with `value` in the place of the name `name`. -/
def fill (name value : List Char) : Segment → List Char
  | char c => [c]
  | dollar => ['$']
  | hole n braced => if n = name then value else text (hole n braced)

end Segment

/-- The segment that a dollar sign starts, given what follows the dollar sign. -/
def afterDollar? : List Char → Option Segment
  | [] => none
  | '$' :: _ => some .dollar
  | '\x7b' :: cs =>
    let name := leadingName cs
    if name ≠ [] ∧ (cs.drop name.length).head? = some '\x7d' then some (.hole name true) else none
  | cs => if leadingName cs ≠ [] then some (.hole (leadingName cs) false) else none

/-- The segments of a template, from left to right. -/
def segments : List Char → List Segment
  | [] => []
  | c :: cs =>
    if c = '$' then
      match afterDollar? cs with
      | some segment => segment :: segments (cs.drop (segment.text.length - 1))
      | none => .char c :: segments cs
    else .char c :: segments cs
termination_by cs => cs.length
decreasing_by all_goals grind

/-- The template with `value` in every placeholder of the name `name`. -/
def substitute (template name value : String) : String :=
  String.ofList ((segments template.toList).flatMap (Segment.fill name.toList value.toList))

/-- `$name` or `${name}` occurs in the text, be it inside of something longer. -/
def mentions (text name : String) : Bool :=
  Text.occursIn (Segment.hole name.toList false).text text.toList ||
    Text.occursIn (Segment.hole name.toList true).text text.toList

/-- Substitution of a value that is only computed if the template mentions the name. -/
def substituteWith {m : Type → Type} [Monad m] (template name : String) (value : m String) :
    m String :=
  if mentions template name then substitute template name <$> value
  else pure (substitute template name "")

/-- Substitution of a list of values with `delim` between two of them. -/
def substituteList (template name : String) (items : List String) (delim : String) : String :=
  match items with
  | [] => substitute template name ""
  | [item] => substitute template name item
  | item :: items =>
    substituteList (substitute template name (item ++ delim ++ "$" ++ name)) name items delim

end IntervalSuite.Template
