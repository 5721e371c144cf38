/-!
# Tables of code points

Properties and mappings of characters are given as tables: a property as a list of ranges, a mapping
as a list of shifts, each of which moves every `stride`-th code point of a range by the same amount.
-/

namespace IntervalSuite.Text

/-- The code point of `c` lies in one of the ranges, both ends included. -/
def inRanges (ranges : List (Nat × Nat)) (c : Char) : Bool :=
  ranges.any fun r => r.1 ≤ c.toNat && c.toNat ≤ r.2

/-- Moves the code points `lo`, `lo + stride`, … up to `hi` by `delta`. -/
structure Shift where
  lo : Nat
  hi : Nat
  stride : Nat
  delta : Int

namespace Shift

/-- `n` is one of the code points that the shift moves. -/
def moves (s : Shift) (n : Nat) : Bool :=
  s.lo ≤ n && n ≤ s.hi && (n - s.lo) % s.stride == 0

/-- Where the shift moves the code point `n`, if it does. -/
def image? (s : Shift) (n : Nat) : Option Nat :=
  if s.moves n then some (n + s.delta).toNat else none

/-- The code point that the shift moves to `n`, if there is one. -/
def source? (s : Shift) (n : Nat) : Option Nat :=
  let m := (n - s.delta).toNat
  if s.moves m then some m else none

end Shift

/-- The image of `c` under a mapping that sends some characters to sequences, others along a shift,
and all others to themselves. -/
def mapCase (sequences : List (Nat × List Nat)) (shifts : List Shift) (c : Char) : List Char :=
  match sequences.lookup c.toNat with
  | some codes => codes.map Char.ofNat
  | none => [Char.ofNat ((shifts.findSome? (·.image? c.toNat)).getD c.toNat)]

end IntervalSuite.Text
