/-!
# Numeric constants

Integer and floating constants in decimal and hexadecimal notation, with their suffixes. Each
function gives the part of the text that it recognises at the start, the empty text if there is
none.

- An integer is a run of digits with an optional suffix (`isIntSuffix`).
- A decimal floating constant has a point, an exponent, or both; a hexadecimal one needs an
  exponent.
- An exponent without digits belongs to no constant, and a hexadecimal number without the exponent
  ends before its point.
-/

namespace IntervalSuite.Itl

/-- `c` is a hexadecimal digit. -/
def isHexDigit (c : Char) : Bool :=
  c.isDigit || ('a' ≤ c && c ≤ 'f') || ('A' ≤ c && c ≤ 'F')

/-- `c` is a suffix of a floating constant. -/
def isFloatSuffix (c : Char) : Bool := c == 'f' || c == 'F' || c == 'l' || c == 'L'

/-- `c` marks an integer as unsigned. -/
def isUnsignedMark (c : Char) : Bool := c == 'u' || c == 'U'

/-- The text without the marks `u` at its ends. -/
def lengthPart (cs : List Char) : List Char :=
  ((cs.dropWhile isUnsignedMark).reverse.dropWhile isUnsignedMark).reverse

/-- The text is a suffix of an integer: a mark `u`, a length, or both in either order. -/
def isIntSuffix (cs : List Char) : Bool :=
  let marks := cs.countP isUnsignedMark
  !cs.isEmpty && marks ≤ 1 && (lengthPart cs).length + marks == cs.length &&
    [[], ['l'], ['L'], ['l', 'l'], ['L', 'L']].contains (lengthPart cs)

/-- The longest suffix of an integer at the start of the text. -/
def leadingIntSuffix (cs : List Char) : List Char :=
  match [3, 2, 1].find? fun n => n ≤ cs.length && isIntSuffix (cs.take n) with
  | some n => cs.take n
  | none => []

/-- The suffix of a floating constant at the start of the text. -/
def leadingFloatSuffix : List Char → List Char
  | [] => []
  | c :: _ => if isFloatSuffix c then [c] else []

/-- The sign at the start of the text. -/
def leadingSign : List Char → List Char
  | [] => []
  | c :: _ => if c = '+' ∨ c = '-' then [c] else []

/-- The exponent at the start of the text: one of the marks, an optional sign, and digits. -/
def leadingExponent (marks : List Char) : List Char → List Char
  | [] => []
  | m :: cs =>
    let sign := leadingSign cs
    let digits := (cs.drop sign.length).takeWhile Char.isDigit
    if m ∈ marks ∧ digits ≠ [] then m :: (sign ++ digits) else []

/-- A numeric constant as it is written. -/
structure Constant where
  text : List Char
  isFloat : Bool
  deriving DecidableEq, Repr

/-- The decimal constant at the start of the text. -/
def decimalConstant (cs : List Char) : Constant :=
  let whole := cs.takeWhile Char.isDigit
  let rest := cs.drop whole.length
  let fraction := match rest with
    | '.' :: more =>
      let digits := more.takeWhile Char.isDigit
      if digits ≠ [] ∨ whole ≠ [] then '.' :: digits else []
    | _ => []
  let exponent := leadingExponent ['e', 'E'] (rest.drop fraction.length)
  let body := whole ++ fraction ++ exponent
  if fraction ≠ [] ∨ exponent ≠ [] then
    ⟨body ++ leadingFloatSuffix (cs.drop body.length), true⟩
  else ⟨body ++ leadingIntSuffix (cs.drop body.length), false⟩

/-- The hexadecimal constant at the start of the text, where `mark` is `0x` or `0X` and `cs` follows
it. Without a digit there is only the leading zero. -/
def hexConstant (mark cs : List Char) : Constant :=
  let whole := cs.takeWhile isHexDigit
  let rest := cs.drop whole.length
  let fraction := match rest with
    | '.' :: more => '.' :: more.takeWhile isHexDigit
    | _ => []
  let hasDigits := whole ≠ [] ∨ 1 < fraction.length
  let exponent := if hasDigits then leadingExponent ['p', 'P'] (rest.drop fraction.length) else []
  let body := whole ++ fraction ++ exponent
  if exponent ≠ [] then ⟨mark ++ body ++ leadingFloatSuffix (cs.drop body.length), true⟩
  else if whole ≠ [] then ⟨mark ++ whole ++ leadingIntSuffix rest, false⟩
  else ⟨mark.take 1 ++ leadingIntSuffix (mark.drop 1 ++ cs), false⟩

/-- The numeric constant at the start of a text that starts with a digit, or with a point and a
digit. -/
def leadingConstant (cs : List Char) : Constant :=
  match cs with
  | '0' :: x :: c :: more =>
    if (x = 'x' ∨ x = 'X') ∧ (isHexDigit c ∨ c = '.') then hexConstant ['0', x] (c :: more)
    else decimalConstant cs
  | _ => decimalConstant cs

end IntervalSuite.Itl
