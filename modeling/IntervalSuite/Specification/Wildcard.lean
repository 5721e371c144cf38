import IntervalSuite.Text.Search

/-!
# Wildcards

In a key, `*` stands for any run of characters. A key matches a signature when some choice for its
wildcards makes it a prefix of the signature. The segments between the wildcards are looked for from
left to right, each at its first occurrence.
-/

namespace IntervalSuite.Wildcard

/-- The segments occur in the text one behind the other. -/
def inOrder : List (List Char) → List Char → Bool
  | [], _ => true
  | segment :: segments, text => match Text.dropThrough? segment text with
    | some rest => inOrder segments rest
    | none => false

/-- The pattern matches the text, from its start on. -/
def matchesChars (pattern text : List Char) : Bool :=
  match pattern.splitOn '*' with
  | [] => false
  | first :: segments => match first.isPrefixOf? text with
    | some rest => inOrder segments rest
    | none => false

/-- The key `pattern` matches the signature. -/
def wildcardMatches (pattern signature : String) : Bool :=
  matchesChars pattern.toList signature.toList

end IntervalSuite.Wildcard
