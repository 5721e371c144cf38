import IntervalSuite.Plugin.Configuration
import IntervalSuite.Plugin.Error
import IntervalSuite.Text.Blank

/-!
# Reading selectors

A selector is written as `*` (or not at all) for every configuration, or as triples of quoted names
such as `('cpp','*','*')` with semicolons between them. A name is an identifier or `*`. Blanks may
stand everywhere but inside of the quotes.
-/

namespace IntervalSuite.Plugin

/-- The name is an identifier. -/
def isIdentifier : List Char → Bool
  | [] => false
  | c :: cs => c.isAlpha && cs.all fun d => d.isAlphanum || d == '_'

/-- The text behind the character `c`, with the blanks around it. -/
def dropMark? (c : Char) (cs : List Char) : Option (List Char) :=
  match cs.dropWhile Text.isBlank with
  | [] => none
  | d :: cs => if d = c then some (cs.dropWhile Text.isBlank) else none

/-- The name in quotes at the start of a text, and the text behind it. -/
def quotedName? : List Char → Option (Option String × List Char)
  | '\'' :: cs =>
    let name := cs.takeWhile (· ≠ '\'')
    match cs.drop name.length with
    | [] => none
    | _ :: rest =>
      if name = ['*'] then some (none, rest)
      else if isIdentifier name then some (some (String.ofList name), rest)
      else none
  | _ => none

/-- The triple that a text spells. -/
def choice? (cs : List Char) : Option Choice := do
  let (language, cs) ← quotedName? (← dropMark? '(' cs)
  let (testLibrary, cs) ← quotedName? (← dropMark? ',' cs)
  let (arithLibrary, cs) ← quotedName? (← dropMark? ',' cs)
  let rest ← dropMark? ')' cs
  if rest.isEmpty then some ⟨language, testLibrary, arithLibrary⟩ else none

/-- The selector that a text spells. -/
def Selector.parse? (s : String) : Option Selector :=
  let trimmed := Text.trimChars s.toList
  if trimmed = [] ∨ trimmed = ['*'] then some .all
  else ((trimmed.splitOn ';').mapM choice?).map .choices

/-- The selector that a text spells, or else the error about the text. -/
def Selector.parse (s : String) : Except Error Selector :=
  match Selector.parse? s with
  | some selector => .ok selector
  | none => .error (.selector s)

end IntervalSuite.Plugin
