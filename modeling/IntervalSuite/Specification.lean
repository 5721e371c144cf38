/-!
# Specifications

A target is described by three sheets of keys and values: one for the language, one for the test
library, one for the arithmetic library. A specification holds them in one namespace, where a mark
in front of each key tells the sheet that it comes from.

* `get?` is the view of a specification: every other query is said through it or through `keys`.
* No key is stored twice (`Specification.nodup`).
-/

namespace IntervalSuite

/-- A value that a key of a specification can have. -/
inductive Value where
  | flag (value : Bool)
  | number (value : Int)
  | text (value : String)
  /-- The key is written without a value. -/
  | nothing
  deriving DecidableEq, Repr

namespace Value

/-- The kind of a value, as error messages call it. -/
def kind : Value → String
  | flag _ => "a boolean"
  | number _ => "a number"
  | text _ => "text"
  | nothing => "no value"

/-- The text that a value stands for in a template. -/
def render : Value → String
  | flag true => "true"
  | flag false => "false"
  | number n => toString n
  | text s => s
  | nothing => ""

end Value

/-- The keys and values of one sheet, in the order in which they are written. -/
abbrev Sheet := List (String × Value)

/-- The last value of each key. -/
def Sheet.lastOfEach : Sheet → Sheet
  | [] => []
  | e :: es => if es.any (·.1 == e.1) then lastOfEach es else e :: lastOfEach es

theorem Sheet.mem_of_mem_lastOfEach {sheet : Sheet} {e : String × Value}
    (h : e ∈ sheet.lastOfEach) : e ∈ sheet := by
  fun_induction lastOfEach sheet with
  | case1 => exact h
  | case2 _ _ _ ih => exact List.mem_cons_of_mem _ (ih h)
  | case3 _ _ _ ih => grind

/-- Every key is kept once. -/
theorem Sheet.nodup_lastOfEach (sheet : Sheet) : (sheet.lastOfEach.map Prod.fst).Nodup := by
  fun_induction lastOfEach sheet with
  | case1 => simp
  | case2 _ _ _ ih => exact ih
  | case3 e es h ih =>
    simp only [List.map_cons, List.nodup_cons, List.mem_map]
    refine ⟨fun ⟨d, hd, hde⟩ => h ?_, ih⟩
    exact List.any_eq_true.2 ⟨d, mem_of_mem_lastOfEach hd, by simp [hde]⟩

/-- The description of one target. -/
structure Specification where
  entries : Sheet
  nodup : (entries.map Prod.fst).Nodup

namespace Specification

/-- The keys of a sheet behind a mark. -/
def marked (mark : String) (sheet : Sheet) : Sheet :=
  sheet.map fun (key, value) => (mark ++ key, value)

/-- The specification that three sheets give. A key that a sheet repeats has its last value. -/
def ofSheets (language test arithmetic : Sheet) : Specification :=
  let all := marked "lang_" language ++ marked "test_" test ++ marked "arith_" arithmetic
  ⟨all.lastOfEach, all.nodup_lastOfEach⟩

/-- The value under a key. -/
def get? (spec : Specification) (key : String) : Option Value := spec.entries.lookup key

/-- All keys. -/
def keys (spec : Specification) : List String := spec.entries.map Prod.fst

/-- The key is stored. -/
def contains (spec : Specification) (key : String) : Bool := spec.keys.contains key

/-- The keys that start with `start`. -/
def keysFrom (spec : Specification) (start : String) : List String :=
  spec.keys.filter fun key => start.toList.isPrefixOf key.toList

/-- A key could not be used. -/
inductive LookupError where
  | missing (key : String)
  /-- The key holds a value of the kind `found`, and one of the kind `expected` is needed. -/
  | kind (key expected found : String)
  deriving DecidableEq, Repr

/-- The text of an error. -/
def LookupError.message : LookupError → String
  | missing key => s!"specification key '{key}' is missing"
  | kind key expected found => s!"specification key '{key}' holds {found}, expected {expected}"

/-- The value under a key that has to be there. -/
def require (spec : Specification) (key : String) : Except LookupError Value :=
  match spec.get? key with
  | some value => .ok value
  | none => .error (.missing key)

/-- The text under a key, in which numbers and booleans are rendered. -/
def text (spec : Specification) (key : String) : Except LookupError String :=
  Value.render <$> spec.require key

/-- The boolean under a key. -/
def flag (spec : Specification) (key : String) : Except LookupError Bool := do
  match ← spec.require key with
  | .flag b => .ok b
  | value => .error (.kind key "a boolean" value.kind)

/-- The number under a key. -/
def number (spec : Specification) (key : String) : Except LookupError Int := do
  match ← spec.require key with
  | .number n => .ok n
  | value => .error (.kind key "a number" value.kind)

end Specification

end IntervalSuite
