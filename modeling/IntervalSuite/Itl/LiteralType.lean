/-!
# Types of literals

A literal has a type, which an operation's signature names. The type of a number follows from its
suffix: an integer is an `int`, `long` or `long_long` by the number of `l` in its suffix, and a
floating constant is a `float` or `long_double` only by the upper-case suffixes `F` and `L`.
-/

namespace IntervalSuite.Itl

/-- The floating-point formats. -/
inductive FloatType where
  | float
  | double
  | longDouble
  deriving DecidableEq, Repr

namespace FloatType

/-- The name of the format in keys and signatures. -/
def name : FloatType → String
  | float => "float"
  | double => "double"
  | longDouble => "long_double"

/-- The format that a suffix selects: a suffix in lower case selects none. -/
def ofSuffix (suffix : String) : FloatType :=
  if suffix = "F" then float else if suffix = "L" then longDouble else double

end FloatType

/-- The widths of integers. -/
inductive IntType where
  | int
  | long
  | longLong
  deriving DecidableEq, Repr

namespace IntType

/-- The name of the width in keys and signatures. -/
def name : IntType → String
  | int => "int"
  | long => "long"
  | longLong => "long_long"

/-- The width that a suffix selects, and whether it makes the number unsigned. -/
def ofSuffix (suffix : String) : IntType × Bool :=
  let longs := suffix.toList.countP fun c => c == 'l' || c == 'L'
  (if longs = 0 then int else if longs = 1 then long else longLong,
    suffix.toList.any fun c => c == 'u' || c == 'U')

end IntType

/-- The type of a literal. -/
inductive LiteralType where
  | integer (type : IntType)
  | real (type : FloatType)
  | string
  | boolean
  | overlap
  | interval (type : FloatType)
  deriving DecidableEq, Repr

/-- The name of the type in signatures. -/
def LiteralType.name : LiteralType → String
  | integer type => type.name
  | real type => type.name
  | string => "string"
  | boolean => "BooleanLiteralNode"
  | overlap => "OverlapLiteralNode"
  | interval type => "interval<" ++ type.name ++ ">"

end IntervalSuite.Itl
