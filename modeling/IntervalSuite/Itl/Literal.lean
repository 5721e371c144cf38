import IntervalSuite.Itl.LiteralType

/-!
# Literals

The values that a test gives to an operation and expects from it. Numbers stay as they are written.
The two bounds of an interval share one floating-point format, so the interval stores it once;
`Interval.ofBounds` refuses bounds of different formats.
-/

namespace IntervalSuite.Itl

/-- The sign of an infinity. -/
inductive Sign where
  | plus
  | minus
  deriving DecidableEq, Repr

/-- The decorations of an interval. -/
inductive Decoration where
  | trivial
  | defined
  | continuous
  | common
  | illFormed
  deriving DecidableEq, Repr

namespace Decoration

/-- The keyword of the decoration. -/
def name : Decoration → String
  | trivial => "trv"
  | defined => "def"
  | continuous => "dac"
  | common => "com"
  | illFormed => "ill"

/-- All decorations. -/
def all : List Decoration := [trivial, defined, continuous, common, illFormed]

/-- The decoration of a keyword. -/
def ofName? (word : String) : Option Decoration := all.find? (·.name = word)

end Decoration

/-- The sixteen states in which two intervals overlap. -/
inductive Overlap where
  | bothEmpty
  | firstEmpty
  | secondEmpty
  | before
  | meets
  | overlaps
  | starts
  | containedBy
  | finishes
  | equal
  | finishedBy
  | contains
  | startedBy
  | overlappedBy
  | metBy
  | after
  deriving DecidableEq, Repr

namespace Overlap

/-- The keyword of the state. -/
def name : Overlap → String
  | bothEmpty => "bothEmpty"
  | firstEmpty => "firstEmpty"
  | secondEmpty => "secondEmpty"
  | before => "before"
  | meets => "meets"
  | overlaps => "overlaps"
  | starts => "starts"
  | containedBy => "containedBy"
  | finishes => "finishes"
  | equal => "equal"
  | finishedBy => "finishedBy"
  | contains => "contains"
  | startedBy => "startedBy"
  | overlappedBy => "overlappedBy"
  | metBy => "metBy"
  | after => "after"

/-- All states. -/
def all : List Overlap :=
  [bothEmpty, firstEmpty, secondEmpty, before, meets, overlaps, starts, containedBy, finishes,
    equal, finishedBy, contains, startedBy, overlappedBy, metBy, after]

/-- The state of a keyword. -/
def ofName? (word : String) : Option Overlap := all.find? (·.name = word)

end Overlap

/-- A floating constant as it is written, or an infinity. -/
inductive Scalar where
  | number (text : String)
  | infinity (sign : Sign)
  deriving DecidableEq, Repr

/-- The intervals without bounds. -/
inductive SpecialKind where
  | empty
  | entire
  | nai
  deriving DecidableEq, Repr

/-- The word for the interval, in a source and in the keys of a specification. -/
def SpecialKind.word : SpecialKind → String
  | empty => "empty"
  | entire => "entire"
  | nai => "nai"

/-- Why a part of a document can not be built. -/
inductive NodeError where
  /-- The bounds of an interval have different formats. -/
  | boundTypes (inf sup : FloatType)
  /-- A test declares no outputs. -/
  | missingOutputs (operation : String)
  deriving DecidableEq, Repr

/-- The text of the error. -/
def NodeError.message : NodeError → String
  | boundTypes inf sup =>
    "can not instantiate infsup interval with bounds of type " ++ inf.name ++ " and " ++ sup.name
  | missingOutputs operation =>
    "test '" ++ operation ++ "' declares neither tightest nor accurate outputs"

/-- An interval literal. -/
inductive Interval where
  | infSup (type : FloatType) (inf sup : Scalar) (decoration : Option Decoration)
  | special (kind : SpecialKind) (type : FloatType) (decoration : Option Decoration)
  deriving DecidableEq, Repr

namespace Interval

/-- The interval between two bounds, each given with its format. -/
def ofBounds (inf sup : FloatType × Scalar) (decoration : Option Decoration) :
    Except NodeError Interval :=
  if inf.1 = sup.1 then .ok (infSup inf.1 inf.2 sup.2 decoration)
  else .error (.boundTypes inf.1 sup.1)

/-- The format of the bounds. -/
def type : Interval → FloatType
  | infSup type _ _ _ => type
  | special _ type _ => type

/-- The decoration, if there is one. -/
def decoration : Interval → Option Decoration
  | infSup _ _ _ decoration => decoration
  | special _ _ decoration => decoration

/-- The interval with a decoration. -/
def decorate (decoration : Option Decoration) : Interval → Interval
  | infSup type inf sup _ => infSup type inf sup decoration
  | special kind type _ => special kind type decoration

end Interval

/-- A value in a test. -/
inductive Literal where
  | integer (text : String) (type : IntType) (unsigned : Bool)
  | real (type : FloatType) (value : Scalar)
  /-- A string as it is written, with its quotes. -/
  | string (text : String)
  | boolean (value : Bool)
  | overlap (state : Overlap)
  | interval (value : Interval)
  deriving DecidableEq, Repr

/-- The type of a literal. -/
def Literal.type : Literal → LiteralType
  | integer _ type _ => .integer type
  | real type _ => .real type
  | string _ => .string
  | boolean _ => .boolean
  | overlap _ => .overlap
  | interval value => .interval value.type

/-- The names of the literals' types, with commas between them. -/
def typeSignature (literals : List Literal) : String :=
  ",".intercalate (literals.map (·.type.name))

end IntervalSuite.Itl
