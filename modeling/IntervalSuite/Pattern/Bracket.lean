import IntervalSuite.Pattern.Regex
import IntervalSuite.Pattern.Scanning

/-!
# Reading escapes and classes

A backslash gives a character a meaning, or takes its meaning away. A class in brackets lists
characters, ranges and other classes; `&&`, `--` and `~~` combine the lists on their two sides.
-/

namespace IntervalSuite.Pattern

/-- What a single character or an escape stands for. -/
inductive Atom where
  | char (c : Char)
  | set (set : CharSet)
  | assertion (assertion : Assertion)
  deriving Repr

/-! ## Escapes -/

/-- The value of a hexadecimal digit. -/
def hexDigit? (c : Char) : Option Nat :=
  if c.isDigit then some (c.toNat - '0'.toNat)
  else if 'a' ≤ c ∧ c ≤ 'f' then some (c.toNat - 'a'.toNat + 10)
  else if 'A' ≤ c ∧ c ≤ 'F' then some (c.toNat - 'A'.toNat + 10)
  else none

/-- The character with the code point that hexadecimal digits spell. -/
def hexChar? (digits : List Char) : Option Char := do
  let code ← digits.foldlM (fun n c => (hexDigit? c).map (16 * n + ·)) 0
  if code < 0xD800 ∨ (0xDFFF < code ∧ code < 0x110000) then some (Char.ofNat code) else none

/-- The given number of hexadecimal digits. -/
def hexDigits? (verbose : Bool) : Nat → List Char → Option (List Char × List Char)
  | 0, cs => some ([], cs)
  | n + 1, cs => do
    let (c, rest) ← next? verbose cs
    if (hexDigit? c).isSome then
      (hexDigits? verbose n rest).map fun (digits, rest) => (c :: digits, rest)
    else none

/-- The hexadecimal digits in front of a closing brace, of which there is at least one. -/
def bracedDigits? (verbose : Bool) (cs : List Char) : Option (List Char × List Char) := do
  let (digits, rest) := gather verbose (fun c => (hexDigit? c).isSome) false cs
  let (c, rest) ← first? rest
  if c = '\x7d' ∧ digits ≠ [] then some (digits, rest) else none

/-- The digits of a code point: `width` of them, or digits in braces. -/
def codeDigits? (verbose : Bool) (width : Nat) : List Char → Option (List Char × List Char)
  | '\x7b' :: cs => bracedDigits? verbose cs
  | cs => hexDigits? verbose width cs

/-- The escape by code point. -/
def codePoint? (verbose : Bool) (width : Nat) (cs : List Char) : Option (Atom × List Char) := do
  let (digits, rest) ← codeDigits? verbose width (skip verbose cs)
  (hexChar? digits).map (.char ·, rest)

/-- The escapes of one letter for a character. -/
def charEscapes : List (Char × Char) :=
  [('a', '\x07'), ('f', '\x0c'), ('t', '\t'), ('n', '\n'), ('r', '\r'), ('v', '\x0b')]

/-- The escapes of one letter for a class. -/
def setEscapes : List (Char × CharSet) :=
  [('d', .digit), ('D', .compl .digit), ('s', .blank), ('S', .compl .blank), ('w', .word),
    ('W', .compl .word)]

/-- The escapes of one character for a condition. -/
def assertionEscapes : List (Char × Assertion) :=
  [('A', .start), ('z', .finish), ('b', .wordBoundary), ('B', .notWordBoundary), ('<', .wordStart),
    ('>', .wordFinish)]

/-- The escapes of one letter for a code point, with the number of digits. -/
def codePointEscapes : List (Char × Nat) := [('x', 2), ('u', 4), ('U', 8)]

/-- `c` stands for itself behind a backslash: it is punctuation. -/
def isPunctuation (c : Char) : Bool := c.toNat < 0x80 && !(c.isAlphanum) && c != '<' && c != '>'

/-- The escape behind a backslash. -/
def escape? (verbose : Bool) : List Char → Option (Atom × List Char)
  | [] => none
  | c :: cs =>
    if isPunctuation c then some (.char c, cs)
    else match charEscapes.lookup c, setEscapes.lookup c, assertionEscapes.lookup c with
      | some d, _, _ => some (.char d, cs)
      | _, some set, _ => some (.set set, cs)
      | _, _, some assertion => some (.assertion assertion, cs)
      | _, _, _ => (codePointEscapes.lookup c).bind fun width => codePoint? verbose width cs

/-! ## Classes -/

/-- The named classes of the form `[:name:]`. -/
def namedSets : List (String × CharSet) := [
  ("alnum", .ofRanges [('0', '9'), ('A', 'Z'), ('a', 'z')]),
  ("alpha", .ofRanges [('A', 'Z'), ('a', 'z')]),
  ("ascii", .range '\x00' '\x7f'),
  ("blank", .ofRanges [('\t', '\t'), (' ', ' ')]),
  ("cntrl", .ofRanges [('\x00', '\x1f'), ('\x7f', '\x7f')]),
  ("digit", .range '0' '9'),
  ("graph", .range '!' '~'),
  ("lower", .range 'a' 'z'),
  ("print", .range ' ' '~'),
  ("punct", .ofRanges [('!', '/'), (':', '@'), ('[', '\x60'), ('\x7b', '~')]),
  ("space", .ofRanges [('\t', '\r'), (' ', ' ')]),
  ("upper", .range 'A' 'Z'),
  ("word", .ofRanges [('0', '9'), ('A', 'Z'), ('_', '_'), ('a', 'z')]),
  ("xdigit", .ofRanges [('0', '9'), ('A', 'F'), ('a', 'f')])]

/-- The sign at the start of a class that takes its complement, if there is one. -/
def classSign : List Char → Bool × List Char
  | '^' :: cs => (true, cs)
  | cs => (false, cs)

/-- The named class behind its opening bracket. -/
def namedSet? : List Char → Option (CharSet × List Char)
  | ':' :: cs =>
    let (negated, cs) := classSign cs
    let rest := cs.dropWhile Char.isAlpha
    if rest.take 2 = [':', ']'] then
      (namedSets.lookup (String.ofList (cs.takeWhile Char.isAlpha))).map fun set =>
        (if negated then .compl set else set, rest.drop 2)
    else none
  | _ => none

/-- The set that an atom stands for in a class. -/
def Atom.set? : Atom → Option CharSet
  | char c => some (.single c)
  | set chars => some chars
  | assertion _ => none

/-- The range between two atoms. -/
def Atom.range? : Atom → Atom → Option CharSet
  | char lo, char hi => if lo ≤ hi then some (.range lo hi) else none
  | _, _ => none

/-- The atom that a character starts inside of a class. -/
def classAtom? (verbose : Bool) (c : Char) (cs : List Char) : Option (Atom × List Char) :=
  if c = '\\' then escape? verbose cs else some (.char c, cs)

/-- The text starts with a hyphen that makes a range: it does not stand in front of a closing bracket
or of another hyphen. -/
def makesRange (verbose : Bool) : List Char → Bool
  | '-' :: cs => peek verbose cs != some ']' && peek verbose cs != some '-'
  | _ => false

/-- The range from an atom on, or else the atom. -/
def classRange? (verbose : Bool) (first : Atom) (cs : List Char) : Option (CharSet × List Char) :=
  if makesRange verbose cs then do
    let (c, rest) ← next? verbose (cs.drop 1)
    let (last, rest) ← classAtom? verbose c rest
    (first.range? last).map (·, rest)
  else first.set?.map (·, cs)

/-- The range, or the single character or class, that a character starts inside of a class. -/
def classItem? (verbose : Bool) (c : Char) (cs : List Char) : Option (CharSet × List Char) := do
  let (first, rest) ← classAtom? verbose c cs
  classRange? verbose first (skip verbose rest)

/-- What has been read of a class: the operation and the set on its left, if there is one, and the
list on its right. -/
structure ClassState where
  pending : Option ((CharSet → CharSet → CharSet) × CharSet)
  union : CharSet

/-- The set that has been read, where `close` completes the operands. -/
def ClassState.result (close : CharSet → CharSet) (state : ClassState) : CharSet :=
  match state.pending with
  | some (op, left) => op (close left) (close state.union)
  | none => state.union

/-- The operations on classes, which are written as a doubled character. -/
def classOperations : List (Char × (CharSet → CharSet → CharSet)) :=
  [('&', .inter), ('-', .diff), ('~', .symmDiff)]

/-- The operation that a character stands for if it is doubled. -/
def classOperation? (c : Char) : List Char → Option ((CharSet → CharSet → CharSet) × List Char)
  | [] => none
  | d :: cs => if d = c then (classOperations.lookup c).map (·, cs) else none

/-- A closing bracket that stands for itself. -/
def classBracket : List Char → CharSet × List Char
  | ']' :: cs => (.single ']', cs)
  | cs => (.none, cs)

/-- What stands at the start of a class, where hyphens, or else a closing bracket, stand for
themselves. -/
def classStart (verbose : Bool) (cs : List Char) : CharSet × List Char :=
  let (hyphens, rest) := gather verbose (· == '-') false cs
  if hyphens.isEmpty then classBracket rest else (.single '-', rest)

mutual

/-- The class behind its opening bracket; `close` completes each set, up to case if case does not
matter. -/
def class? (verbose : Bool) (close : CharSet → CharSet) :
    Nat → List Char → Option (CharSet × List Char)
  | 0, _ => none
  | fuel + 1, cs =>
    let (negated, cs) := classSign (skip verbose cs)
    let (first, cs) := classStart verbose cs
    (classItems? verbose close fuel ⟨none, first⟩ cs).map fun (set, rest) =>
      (if negated then .compl (close set) else close set, rest)

/-- The rest of a class. -/
def classItems? (verbose : Bool) (close : CharSet → CharSet) :
    Nat → ClassState → List Char → Option (CharSet × List Char)
  | 0, _, _ => none
  | fuel + 1, state, cs => do
    let (c, rest) ← next? verbose cs
    if c = ']' then some (state.result close, rest)
    else match classOperation? c rest with
      | some (op, rest) =>
        classItems? verbose close fuel ⟨some (op, state.result close), .none⟩ rest
      | none => do
        let entry := if c = '[' then namedSet? rest <|> class? verbose close fuel rest
          else classItem? verbose c rest
        let (set, rest) ← entry
        classItems? verbose close fuel ⟨state.pending, .union state.union set⟩ rest

end

end IntervalSuite.Pattern
