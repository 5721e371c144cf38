import IntervalSuite.Pattern.Parser
import IntervalSuite.Pattern.Program

/-!
# Matching

A program is run by following its threads in the order of preference; the first thread that comes to
the end of the program gives the match. No instruction is carried out twice at the same place: the
first thread there has tried, or is still to try, all that a second one could.
-/

namespace IntervalSuite.Pattern

/-- A place in a text, and what a program has noted on the way to it. -/
structure Place where
  /-- The number of characters in front of the place. -/
  index : Nat
  /-- The character in front of the place. -/
  before : Option Char
  rest : List Char
  /-- The numbers with the indices of the places noted under them, the latest first. -/
  marks : List (Nat × Nat)

/-- The place behind the next character. -/
def Place.advance (place : Place) (c : Char) (cs : List Char) : Place :=
  ⟨place.index + 1, some c, cs, place.marks⟩

/-- The place with a note under the given number. -/
def Place.mark (place : Place) (number : Nat) : Place :=
  ⟨place.index, place.before, place.rest, (number, place.index) :: place.marks⟩

/-- The threads that an instruction leads to, in the order of preference. -/
def Instruction.threads (instruction : Instruction) (counter : Nat) (place : Place) :
    List (Nat × Place) :=
  match instruction with
  | take set => match place.rest with
    | [] => []
    | c :: cs => if set.mem c then [(counter + 1, place.advance c cs)] else []
  | check assertion =>
    if assertion.holds place.before place.rest.head? then [(counter + 1, place)] else []
  | mark number => [(counter + 1, place.mark number)]
  | jump target => [(target, place)]
  | split first second => [(first, place), (second, place)]

/-- Follows threads, each of them an instruction's index and a place, up to the first one that comes
to the end of the program. The pairs in `seen` have been followed before. -/
def follow (program : List Instruction) : Nat → List (Nat × Nat) → List (Nat × Place) → Option Place
  | 0, _, _ => none
  | _, _, [] => none
  | fuel + 1, seen, (counter, place) :: threads =>
    if seen.contains (counter, place.index) then follow program fuel seen threads
    else match program[counter]? with
      | none => some place
      | some instruction =>
        follow program fuel ((counter, place.index) :: seen)
          (instruction.threads counter place ++ threads)

/-- The end of the preferred match at a place. -/
def matchAt? (program : List Instruction) (place : Place) : Option Place :=
  -- Each instruction is carried out at most once at each place, and leads to at most two threads.
  follow program (2 * (program.length + 1) * (place.rest.length + 1) + 2) [] [(0, place)]

/-- The first match at or behind a place: where it starts, and where it ends. -/
def find? (program : List Instruction) (index : Nat) (before : Option Char) (rest : List Char) :
    Option (Place × Place) :=
  let here : Place := ⟨index, before, rest, []⟩
  match matchAt? program here, rest with
  | some stop, _ => some (here, stop)
  | none, [] => none
  | none, c :: cs => find? program (index + 1) (some c) cs
termination_by structural rest

end IntervalSuite.Pattern

namespace IntervalSuite

/-- A pattern: a program and the names of its groups. -/
structure Pattern where
  program : List Pattern.Instruction
  names : List (String × Nat)
  deriving Repr

/-- The pattern that a text spells. -/
def Pattern.parse? (source : String) : Option Pattern :=
  (Pattern.regex? source.toList).map fun (regex, names) => ⟨regex.code 0, names⟩

end IntervalSuite
