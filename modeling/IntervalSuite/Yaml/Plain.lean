/-!
# The values of plain scalars

A plain scalar stands for no value, a boolean or a number, if it is spelled like one, and else for
its own text. Integers are decimal without superfluous zeros, or hexadecimal, octal or binary behind
the marks `0x`, `0o` and `0b`. Numbers that are no 64-bit integers have no value here, and are no
texts either.
-/

namespace IntervalSuite.Yaml

/-- What a plain scalar stands for. -/
inductive PlainValue where
  | nothing
  | flag (value : Bool)
  | number (value : Int)
  | text
  /-- A number other than a 64-bit integer. -/
  | unsupported
  deriving DecidableEq, Repr

/-- The value of a digit below `base`. -/
def digit? (base : Nat) (c : Char) : Option Nat :=
  let value :=
    if c.isDigit then c.toNat - '0'.toNat
    else if 'a' ≤ c ∧ c ≤ 'f' then c.toNat - 'a'.toNat + 10
    else if 'A' ≤ c ∧ c ≤ 'F' then c.toNat - 'A'.toNat + 10
    else base
  if value < base then some value else none

/-- The number that digits spell; there has to be one. -/
def natural? (base : Nat) (digits : List Char) : Option Nat :=
  if digits.isEmpty then none
  else digits.foldlM (fun n c => (digit? base c).map (base * n + ·)) 0

/-- The base that the mark of an integer gives, and the digits behind the mark. -/
def markedBase? : List Char → Option (Nat × List Char)
  | '0' :: 'x' :: digits => some (16, digits)
  | '0' :: 'o' :: digits => some (8, digits)
  | '0' :: 'b' :: digits => some (2, digits)
  | _ => none

/-- Digits behind a superfluous zero. -/
def hasLeadingZero : List Char → Bool
  | '0' :: c :: cs => (c :: cs).all Char.isDigit
  | _ => false

/-- The 64-bit floating-point number nearest to `digits * 10 ^ exponent` is finite. -/
def roundsToFinite (digits : Nat) (exponent : Int) : Bool :=
  -- Half a unit in the last place above the largest finite number.
  let bound := (Nat.pow 2 54 - 1) * Nat.pow 2 970
  let places := (Nat.toDigits 10 digits).length + exponent
  if digits = 0 ∨ places ≤ 308 then true
  else if 309 < places then false
  else if 0 ≤ exponent then digits * Nat.pow 10 exponent.toNat < bound
  else digits < bound * Nat.pow 10 (-exponent).toNat

/-- The exponent behind the digits of a decimal number, zero if nothing stands there. -/
def exponent? : List Char → Option Int
  | [] => some 0
  | c :: cs =>
    if c ≠ 'e' ∧ c ≠ 'E' then none
    else match cs with
      | '+' :: digits => (natural? 10 digits).map Int.ofNat
      | '-' :: digits => (natural? 10 digits).map fun n => -(n : Int)
      | digits => (natural? 10 digits).map Int.ofNat

/-- A decimal number without a sign, with a fraction or an exponent if it has them, that is finite
as a 64-bit floating-point number. -/
def isFiniteDecimal (cs : List Char) : Bool :=
  let whole := cs.takeWhile Char.isDigit
  let (fraction, rest) := match cs.drop whole.length with
    | '.' :: rest => rest.span Char.isDigit
    | rest => ([], rest)
  match natural? 10 (whole ++ fraction), exponent? rest with
  | some digits, some exponent => roundsToFinite digits (exponent - fraction.length)
  | _, _ => false

/-- A floating-point number behind its sign. -/
def isFloat (sign : Option Char) (cs : List Char) : Bool :=
  let word := String.ofList cs
  [".inf", ".Inf", ".INF"].contains word ||
    (sign.isNone && [".nan", ".NaN", ".NAN"].contains word) || isFiniteDecimal cs

/-- The value of an integer with at most 128 bits. -/
def integerValue? (sign : Option Char) (n : Nat) : Option PlainValue :=
  if sign = some '-' then
    if n ≤ Nat.pow 2 63 then some (.number (-(n : Int)))
    else if n ≤ Nat.pow 2 127 then some .unsupported
    else none
  else if n < Nat.pow 2 63 then some (.number n)
  else if n < Nat.pow 2 128 then some .unsupported
  else none

/-- The value of a scalar without its sign, if it is spelled like a number, and else that of a
text. -/
def numberValue (sign : Option Char) (cs : List Char) : PlainValue :=
  match markedBase? cs with
  | some (base, digits) => ((natural? base digits).bind (integerValue? sign)).getD .text
  | none =>
    if hasLeadingZero cs then .text
    else ((natural? 10 cs).bind (integerValue? sign)).getD
      (if isFloat sign cs then .unsupported else .text)

/-- What the plain scalar `text` stands for. -/
def plainValue (text : String) : PlainValue :=
  if ["", "~", "null", "Null", "NULL"].contains text then .nothing
  else if ["true", "True", "TRUE"].contains text then .flag true
  else if ["false", "False", "FALSE"].contains text then .flag false
  else match text.toList with
    | '+' :: cs => numberValue (some '+') cs
    | '-' :: cs => numberValue (some '-') cs
    | cs => numberValue none cs

end IntervalSuite.Yaml
