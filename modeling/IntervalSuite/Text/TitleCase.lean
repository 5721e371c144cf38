import IntervalSuite.Text.Alphabetic
import IntervalSuite.Text.CaseMapping

/-!
# Title case

The first letter of every run of letters in upper case, the others in lower case.
-/

namespace IntervalSuite.Text

/-- Title case of the characters, where `inWord` tells that a letter stands before them. -/
def titleChars (inWord : Bool) : List Char → List Char
  | [] => []
  | c :: cs =>
    if isAlphabetic c then
      (if inWord then lowerCase c else upperCase c) ++ titleChars true cs
    else c :: titleChars false cs

/-- Every run of letters capitalised. -/
def titleCase (s : String) : String := String.ofList (titleChars false s.toList)

end IntervalSuite.Text
