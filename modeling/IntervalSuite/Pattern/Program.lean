import IntervalSuite.Pattern.Regex

/-!
# Programs of patterns

A regular expression is compiled to a program: a list of instructions that are carried out one after
the other, with jumps. A match is found where the program runs over its end. A split prefers its
first target, so the order of the targets tells greedy from lazy repetitions.

A repetition of a body that can be empty is entered before it is left, so that an empty round is
made once.
-/

namespace IntervalSuite.Pattern

/-- A step of a program. Targets are indices of instructions. -/
inductive Instruction where
  /-- Takes a character of the set. -/
  | take (set : CharSet)
  /-- Goes on if the assertion holds. -/
  | check (assertion : Assertion)
  /-- Notes the place under the given number. -/
  | mark (number : Nat)
  | jump (target : Nat)
  | split (first second : Nat)
  deriving Repr

/-- The number under which the start of a group is noted. -/
def startMark (group : Nat) : Nat := 2 * group

/-- The number under which the end of a group is noted. -/
def stopMark (group : Nat) : Nat := 2 * group + 1

/-- The split of a repetition between its body and what follows it. -/
def repetitionSplit (greedy : Bool) (body behind : Nat) : Instruction :=
  if greedy then .split body behind else .split behind body

/-- The body has matches of length zero. -/
def Regex.nullable : Regex → Bool
  | empty => true
  | set _ => false
  | assertion _ => true
  | group _ body => body.nullable
  | seq a b => a.nullable && b.nullable
  | alt a b => a.nullable || b.nullable
  | repetition body least _ _ => least == 0 || body.nullable

/-- The number of instructions of `n` optional rounds, each inside of the one before it. -/
def optionalSize (body : Nat) (n : Nat) : Nat := n * (body + 1)

/-- `n` rounds of a body, where `code` gives the body from a given index on. -/
def rounds (code : Nat → List Instruction) : Nat → Nat → List Instruction
  | 0, _ => []
  | n + 1, start =>
    let first := code start
    first ++ rounds code n (start + first.length)

/-- Up to `n` rounds of a body, each of which leads to the index `behind` if it is left out. -/
def optionalRounds (code : Nat → List Instruction) (greedy : Bool) (behind : Nat) :
    Nat → Nat → List Instruction
  | 0, _ => []
  | n + 1, start =>
    let first := code (start + 1)
    repetitionSplit greedy (start + 1) behind :: first ++
      optionalRounds code greedy behind n (start + 1 + first.length)

/-- At least one round of a body. -/
def roundsFromOne (code : Nat → List Instruction) (greedy : Bool) (start : Nat) :
    List Instruction :=
  let body := code start
  body ++ [repetitionSplit greedy start (start + body.length + 1)]

/-- A repetition of a body, where `code` gives the body from a given index on. -/
def repetitionCode (code : Nat → List Instruction) (nullable : Bool) (least : Nat)
    (most : Option Nat) (greedy : Bool) (start : Nat) : List Instruction :=
  match least, most with
  | 0, none =>
    let body := code (start + 1)
    let behind := start + 1 + body.length + 1
    if nullable then
      repetitionSplit greedy (start + 1) behind :: roundsFromOne code greedy (start + 1)
    else repetitionSplit greedy (start + 1) behind :: body ++ [.jump start]
  | n + 1, none =>
    let front := rounds code n start
    front ++ roundsFromOne code greedy (start + front.length)
  | n, some m =>
    let front := rounds code n start
    let start := start + front.length
    front ++
      optionalRounds code greedy (start + optionalSize (code start).length (m - n)) (m - n) start

/-- The instructions of a regular expression, the first of which has the index `start`. -/
def Regex.code : Regex → Nat → List Instruction
  | empty, _ => []
  | set s, _ => [.take s]
  | assertion a, _ => [.check a]
  | group i body, start => .mark (startMark i) :: body.code (start + 1) ++ [.mark (stopMark i)]
  | seq a b, start =>
    let first := a.code start
    first ++ b.code (start + first.length)
  | alt a b, start =>
    let first := a.code (start + 1)
    let other := start + 1 + first.length + 1
    let second := b.code other
    .split (start + 1) other :: first ++ [.jump (other + second.length)] ++ second
  | repetition body least most greedy, start =>
    repetitionCode body.code body.nullable least most greedy start

end IntervalSuite.Pattern
