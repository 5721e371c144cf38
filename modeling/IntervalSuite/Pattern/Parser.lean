import IntervalSuite.Pattern.Bracket

/-!
# Reading patterns

A pattern is a choice between sequences of terms, each of which may be repeated. A group in
parentheses is numbered, unless it starts with `?:`, and may have a name. Flags hold up to the end
of the group in which they are set. There are no back-references and no conditions on the text
around a match other than assertions.
-/

namespace IntervalSuite.Pattern

/-- The flags that change the meaning of what follows them. -/
structure Flags where
  /-- Case does not matter (`i`). -/
  caseless : Bool
  /-- `^` and `$` stand for the ends of lines (`m`). -/
  multiline : Bool
  /-- `.` stands for a newline too (`s`). -/
  dotAll : Bool
  /-- Repetitions are lazy, and greedy behind a question mark (`U`). -/
  swapGreed : Bool
  /-- Blanks and comments stand for nothing (`x`). -/
  verbose : Bool

/-- What the reader keeps besides the text: the flags, and the groups that have been opened. -/
structure Context where
  flags : Flags
  groups : Nat
  names : List (String × Nat)

/-- The set, up to case if case does not matter. -/
def Flags.close (flags : Flags) (set : CharSet) : CharSet :=
  if flags.caseless then .fold set else set

/-- The term for an atom. -/
def Flags.term (flags : Flags) : Atom → Regex
  | .char c => .set (flags.close (.single c))
  | .set set => .set set
  | .assertion assertion => .assertion assertion

/-- The term for a character outside of classes; repetition signs stand for nothing. -/
def Flags.plainTerm? (flags : Flags) (c : Char) : Option Regex :=
  if ['*', '+', '?', '\x7b'].contains c then none
  else if c = '.' then
    some (.set (if flags.dotAll then .compl .none else .compl (.single '\n')))
  else if c = '^' then some (.assertion (if flags.multiline then .lineStart else .start))
  else if c = '$' then some (.assertion (if flags.multiline then .lineFinish else .finish))
  else some (flags.term (.char c))

/-! ## Repetitions -/

/-- The largest number of repetitions that can be written. -/
def maxCount : Nat := 0xFFFFFFFF

/-- The number of repetitions that decimal digits spell. -/
def countOf? (digits : List Char) : Option Nat :=
  let n := digits.foldl (fun n c => 10 * n + (c.toNat - '0'.toNat)) 0
  if digits = [] ∨ maxCount < n then none else some n

/-- A number of repetitions between blanks. -/
def count? (verbose : Bool) (cs : List Char) : Option (Nat × List Char) :=
  let (digits, rest) := gather verbose Char.isDigit false (cs.dropWhile Text.isBlank)
  (countOf? digits).map (·, rest.dropWhile Text.isBlank)

/-- How often a term is repeated. -/
structure Bounds where
  least : Nat
  most : Option Nat

/-- The bounds behind their comma, up to the closing brace. -/
def upperBound? (verbose : Bool) (least : Nat) : List Char → Option (Bounds × List Char)
  | '\x7d' :: cs => some (⟨least, none⟩, cs)
  | cs => do
    let (most, rest) ← count? verbose cs
    let (c, rest) ← first? rest
    if c = '\x7d' ∧ least ≤ most then some (⟨least, some most⟩, rest) else none

/-- The bounds of a counted repetition behind the opening brace. -/
def bounds? (verbose : Bool) (cs : List Char) : Option (Bounds × List Char) := do
  let (least, rest) ← count? verbose cs
  let (c, rest) ← first? rest
  if c = '\x7d' then some (⟨least, some least⟩, rest)
  else if c = ',' then upperBound? verbose least (skip verbose rest)
  else none

/-- The repetition sign at the start of a text; `none` if there is no such sign. -/
def repetition? (verbose : Bool) : List Char → Option (Option Bounds × List Char)
  | '*' :: cs => some (some ⟨0, none⟩, cs)
  | '+' :: cs => some (some ⟨1, none⟩, cs)
  | '?' :: cs => some (some ⟨0, some 1⟩, cs)
  | '\x7b' :: cs => (bounds? verbose cs).map fun (bounds, rest) => (some bounds, skip verbose rest)
  | cs => some (none, cs)

/-- The question mark behind a repetition sign, and whether there is one. -/
def lazySign : List Char → Bool × List Char
  | '?' :: rest => (true, rest)
  | rest => (false, rest)

/-- The term with the repetition signs behind it; blanks behind them are passed over. -/
def repeated? (flags : Flags) : Nat → Regex → List Char → Option (Regex × List Char)
  | 0, _, _ => none
  | fuel + 1, term, cs => do
    match ← repetition? flags.verbose (skip flags.verbose cs) with
    | (none, rest) => some (term, rest)
    | (some bounds, rest) =>
      let (lazy, rest) := lazySign rest
      let greedy := lazy == flags.swapGreed
      repeated? flags fuel (.repetition term bounds.least bounds.most greedy) rest

/-! ## Groups -/

/-- The effect of one flag, switched on or off. -/
def Flags.set? (flags : Flags) (c : Char) (value : Bool) : Option Flags :=
  match c with
  | 'i' => some { flags with caseless := value }
  | 'm' => some { flags with multiline := value }
  | 's' => some { flags with dotAll := value }
  | 'U' => some { flags with swapGreed := value }
  | 'x' => some { flags with verbose := value }
  | 'u' => if value then some flags else none
  | _ => none

/-- The effect of flags behind each other, in which a hyphen switches off the flags behind it. No
flag is named twice, and a hyphen is not the last character. -/
def Flags.setAll? (flags : Flags) (seen : List Char) (value : Bool) : List Char → Option Flags
  | [] => some flags
  | c :: cs =>
    if seen.contains c then none
    else if c = '-' then
      if cs.isEmpty then none else flags.setAll? (c :: seen) false cs
    else (flags.set? c value).bind fun flags => flags.setAll? (c :: seen) value cs

/-- How a group starts. -/
inductive Opening where
  /-- A numbered group, which may have a name. -/
  | capture (name : Option String)
  /-- A group without a number, inside of which the flags hold. -/
  | plain (flags : Flags)
  /-- No group: the flags hold from here on. -/
  | flags (flags : Flags)

/-- `name` can be the name of a group. -/
def isGroupName : List Char → Bool
  | [] => false
  | c :: cs => (c == '_' || Text.isAlphabetic c) &&
      cs.all fun d => ['_', '.', '[', ']'].contains d || Text.isAlphanumeric d

/-- The name of a group up to the closing bracket. -/
def groupName? (cs : List Char) : Option (Opening × List Char) := do
  let ((name, _), rest) ← until? (· == '>') cs
  if isGroupName name then some (.capture (some (String.ofList name)), rest) else none

/-- The flags behind a question mark, and whether a group or nothing follows them. -/
def flagOpening? (flags : Flags) (cs : List Char) : Option (Opening × List Char) := do
  let ((letters, c), rest) ← until? (fun c => c == ':' || c == ')') cs
  let flags ← flags.setAll? [] true letters
  if c = ':' then some (.plain flags, rest)
  else if letters = [] then none
  else some (.flags flags, rest)

/-- The start of a group behind its parenthesis. -/
def opening? (flags : Flags) : List Char → Option (Opening × List Char)
  | '?' :: 'P' :: '<' :: cs => groupName? cs
  | '?' :: '<' :: cs => groupName? cs
  | '?' :: cs => flagOpening? flags cs
  | cs => some (.capture none, cs)

/-- The context inside of a numbered group; no name is given twice. -/
def Context.open? (ctx : Context) (name : Option String) : Option Context :=
  let index := ctx.groups + 1
  match name with
  | none => some ⟨ctx.flags, index, ctx.names⟩
  | some name =>
    if (ctx.names.lookup name).isSome then none
    else some ⟨ctx.flags, index, (name, index) :: ctx.names⟩

/-! ## Terms -/

mutual

/-- A choice between sequences. -/
def choice? : Nat → Context → List Char → Option ((Regex × Context) × List Char)
  | 0, _, _ => none
  | fuel + 1, ctx, cs => do
    let ((first, ctx), rest) ← sequence? fuel ctx (skip ctx.flags.verbose cs)
    match rest with
    | '|' :: rest =>
      let ((second, ctx), rest) ← choice? fuel ctx rest
      some ((.alt first second, ctx), rest)
    | rest => some ((first, ctx), rest)

/-- A sequence of repeated terms, in front of which there are no blanks to be passed over. -/
def sequence? : Nat → Context → List Char → Option ((Regex × Context) × List Char)
  | 0, _, _ => none
  | _ + 1, ctx, [] => some ((.empty, ctx), [])
  | fuel + 1, ctx, c :: cs =>
    if c = '|' ∨ c = ')' then some ((.empty, ctx), c :: cs)
    else do
      let ((term, ctx), rest) ← term? fuel ctx c cs
      match term with
      | none => sequence? fuel ctx (skip ctx.flags.verbose rest)
      | some term =>
        let (term, rest) ← repeated? ctx.flags fuel term rest
        let ((more, ctx), rest) ← sequence? fuel ctx rest
        some ((.seq term more, ctx), rest)

/-- The term that a character starts; there is none where flags are set. -/
def term? : Nat → Context → Char → List Char → Option ((Option Regex × Context) × List Char)
  | 0, _, _, _ => none
  | fuel + 1, ctx, c, cs =>
    if c = '(' then do
      let (opening, rest) ← opening? ctx.flags (skip ctx.flags.verbose cs)
      match opening with
      | .flags flags => some ((none, ⟨flags, ctx.groups, ctx.names⟩), rest)
      | .plain flags =>
        let ((body, inner), rest) ← choice? fuel ⟨flags, ctx.groups, ctx.names⟩ rest
        closed (some body, ⟨ctx.flags, inner.groups, inner.names⟩) rest
      | .capture name =>
        let start ← ctx.open? name
        let ((body, inner), rest) ← choice? fuel start rest
        closed (some (.group (ctx.groups + 1) body), ⟨ctx.flags, inner.groups, inner.names⟩) rest
    else if c = '[' then
      (class? ctx.flags.verbose ctx.flags.close fuel cs).map fun (set, rest) =>
        ((some (.set set), ctx), rest)
    else if c = '\\' then
      (escape? ctx.flags.verbose cs).map fun (atom, rest) =>
        ((some (ctx.flags.term atom), ctx), rest)
    else (ctx.flags.plainTerm? c).map fun term => ((some term, ctx), cs)
where
  /-- The group, if its closing parenthesis follows. -/
  closed (body : Option Regex × Context) : List Char → Option ((Option Regex × Context) × List Char)
    | ')' :: rest => some (body, rest)
    | _ => none

end

/-- The context at the start of a text: no flag is set. -/
def Context.start : Context := ⟨⟨false, false, false, false, false⟩, 0, []⟩

/-- The regular expression that a text spells, and the names of its groups. -/
def regex? (cs : List Char) : Option (Regex × List (String × Nat)) :=
  -- Every nested term takes up at least one character, and costs at most three steps.
  match choice? (3 * cs.length + 3) .start cs with
  | some ((regex, ctx), []) => some (regex, ctx.names)
  | _ => none

end IntervalSuite.Pattern
