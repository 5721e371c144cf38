import IntervalSuite.Specification
import IntervalSuite.Specification.Wildcard

/-!
# Resolution of operations

An operation is looked up by its signature. A key equal to the signature wins; otherwise the keys of
the operation that match the signature are candidates, of which the longest wins, and of several
longest ones the first in alphabetical order.
-/

namespace IntervalSuite.Specification

/-- The key that a signature resolves to. -/
inductive Resolution where
  | exact (key : String)
  | wildcard (key : String)
  deriving DecidableEq, Repr

/-- The key of a resolution. -/
def Resolution.key : Resolution → String
  | exact key => key
  | wildcard key => key

/-- Key `a` is preferred to key `b`: it has more bytes, or as many and comes first. -/
def preferred (a b : String) : Bool :=
  b.utf8ByteSize < a.utf8ByteSize || (a.utf8ByteSize == b.utf8ByteSize && a < b)

/-- The key that is preferred to all others. -/
def favourite? : List String → Option String
  | [] => none
  | key :: keys => match favourite? keys with
    | none => some key
    | some other => some (if preferred other key then other else key)

/-- The key for `signature`; wildcards are tried in the keys that start with `stem`. -/
def resolve (spec : Specification) (stem signature : String) : Option Resolution :=
  if spec.contains signature then some (.exact signature)
  else
    let candidates := (spec.keysFrom stem).filter (Wildcard.wildcardMatches · signature)
    (favourite? candidates).map .wildcard

end IntervalSuite.Specification
