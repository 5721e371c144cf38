import IntervalSuite.Generation.Target
import IntervalSuite.Itl.Literal
import IntervalSuite.Template

/-!
# Rendering literals

Numbers, strings and names are spelled as the hooks of the target say; intervals, infinities,
booleans and overlap states have templates in the specification.
-/

namespace IntervalSuite.Generation

/-- A number in the template of its type, if the language has one. -/
def renderNumber (target : Target) (number type : String) : String :=
  match target.spec.get? ("lang_literal_" ++ type) with
  | some template => Template.substitute template.render "NUM" number
  | none => number

/-- A floating constant or an infinity. -/
def renderScalar (target : Target) (type : Itl.FloatType) : Itl.Scalar → Except Error String
  | .number text => .ok (renderNumber target (target.respelling .float text) type.name)
  | .infinity .plus => target.text ("arith_infinity_plus_" ++ type.name)
  | .infinity .minus => target.text ("arith_infinity_minus_" ++ type.name)

/-- A decoration. -/
def renderDecoration (target : Target) (decoration : Itl.Decoration) : Except Error String :=
  target.text ("arith_decorator_" ++ decoration.name)

/-- An interval. -/
def renderInterval (target : Target) : Itl.Interval → Except Error String
  | .special kind type none => target.text s!"arith_{kind.word}_interval_{type.name}"
  | .special kind type (some decoration) => do
    let template ← target.text s!"arith_decorated_{kind.word}_interval_{type.name}"
    return Template.substitute template "DEC" (← renderDecoration target decoration)
  | .infSup type inf sup none => do
    let inf ← renderScalar target type inf
    let sup ← renderScalar target type sup
    let template ← target.text s!"arith_inf_sup_interval_{type.name}"
    return Template.substitute (Template.substitute template "ARG1" inf) "ARG2" sup
  | .infSup type inf sup (some decoration) => do
    let inf ← renderScalar target type inf
    let sup ← renderScalar target type sup
    let template ← target.text s!"arith_decorated_inf_sup_interval_{type.name}"
    let text := Template.substitute (Template.substitute template "ARG1" inf) "ARG2" sup
    return Template.substitute text "DEC" (← renderDecoration target decoration)

/-- A literal in the target language. -/
def renderLiteral (target : Target) : Itl.Literal → Except Error String
  | .integer text type unsigned =>
    .ok (renderNumber target (target.respelling .integer text)
      (if unsigned then "unsigned_" ++ type.name else type.name))
  | .real type value => renderScalar target type value
  | .string text => .ok (target.respelling .string text)
  | .boolean true => target.text "lang_boolean_true"
  | .boolean false => target.text "lang_boolean_false"
  | .overlap state => target.text ("arith_overlap_" ++ state.name)
  | .interval value => renderInterval target value

end IntervalSuite.Generation
