import FrontEnd.Syntax.Statement

/-!
What can be wrong with a program that is built correctly: names that are declared twice or not at
all, values that may not change, and types that do not fit.
-/

namespace FrontEnd

/-- A fault in the use of names and types. A type is `none` where it is not known. -/
inductive SemanticProblem where
  | duplicateSymbol (name scope : String)
  | undeclaredVariable (name scope : String)
  | undeclaredFunction (name : String)
  | constantAssigned (name : String)
  | constantStepped (direction : StepDirection) (name : String)
  | stepNotNumeric (direction : StepDirection) (name : String) (type : Option ValueType)
  | noReturnValue (function : String)
  | operandsNotNumeric (operator : String) (left right : Option ValueType)
  | operandsNotOrdered (operator : String) (left right : Option ValueType)
  | elementMismatch (element : String) (found expected : ValueType)
  | argumentCount (function : String) (expected found : Nat)
  /-- Arguments are numbered from one. -/
  | argumentMismatch (number : Nat) (function : String) (expected : ValueType)
      (found : Option ValueType)
deriving DecidableEq

def SemanticProblem.message : SemanticProblem → String
  | duplicateSymbol name scope => s!"symbol '{name}' already exists in scope '{scope}'"
  | undeclaredVariable name scope => s!"undeclared variable '{name}' in scope '{scope}'"
  | undeclaredFunction name => s!"undeclared function '{name}'"
  | constantAssigned name => s!"cannot assign to constant '{name}'"
  | constantStepped direction name => s!"cannot {direction.text} constant '{name}'"
  | stepNotNumeric direction name type =>
    s!"cannot {direction.text} '{name}' of type {ValueType.describe type}"
  | noReturnValue function => s!"function '{function}' does not return a value"
  | operandsNotNumeric operator left right =>
    s!"operator '{operator}' requires numeric operands, found {ValueType.describe left}"
      ++ s!" and {ValueType.describe right}"
  | operandsNotOrdered operator left right =>
    s!"operator '{operator}' cannot order {ValueType.describe left}"
      ++ s!" and {ValueType.describe right} values"
  | elementMismatch element found expected =>
    s!"array element '{element}' is {found.text}, expected {expected.text} like the first element"
  | argumentCount function expected found =>
    s!"function '{function}' expects {expected} argument(s), found {found}"
  | argumentMismatch number function expected found =>
    s!"argument {number} of '{function}' must be {expected.text}, found {ValueType.describe found}"

end FrontEnd
