/-!
# Configurations

A configuration names one target: a language, a test library and an arithmetic library. A choice of
configurations leaves some of the three names open.
-/

namespace IntervalSuite.Plugin

/-- One target. -/
structure Configuration where
  language : String
  testLibrary : String
  arithLibrary : String
  deriving DecidableEq, Repr

/-- A configuration as it is written. -/
def Configuration.text (c : Configuration) : String :=
  s!"('{c.language}', '{c.testLibrary}', '{c.arithLibrary}')"

/-- A triple of names, in which `none` leaves the name open. -/
structure Choice where
  language : Option String
  testLibrary : Option String
  arithLibrary : Option String
  deriving DecidableEq, Repr

/-- Which configurations are wanted. -/
inductive Selector where
  | all
  | choices (choices : List Choice)
  deriving DecidableEq, Repr

/-- The choices that a selector consists of. -/
def Selector.toList : Selector → List Choice
  | all => [⟨none, none, none⟩]
  | choices cs => cs

end IntervalSuite.Plugin
