import FrontEnd.ValueType
import FrontEnd.Syntax.Value

/-!
Declarations, statements and functions. Each keeps the reserved words and names it was written with,
as tokens; brackets, separators and terminators are not kept.
-/

namespace FrontEnd

/-- A variable may have a first value. -/
structure VariableDeclaration where
  keyword : Token
  name : Token
  value : Option Value

/-- A constant has a value from the start. -/
structure ConstantDeclaration where
  keyword : Token
  name : Token
  value : Value

/-- The declaration of a name for values. -/
inductive Declaration where
  | ofVariable (declaration : VariableDeclaration)
  | ofConstant (declaration : ConstantDeclaration)

namespace Declaration

def name : Declaration → Token
  | ofVariable declaration => declaration.name
  | ofConstant declaration => declaration.name

/-- What the name starts with, if anything. -/
def value? : Declaration → Option Value
  | ofVariable declaration => declaration.value
  | ofConstant declaration => some declaration.value

/-- Whether the name may be given another value later. -/
def isMutable : Declaration → Bool
  | ofVariable _ => true
  | ofConstant _ => false

end Declaration

/-- One up or one down. -/
inductive StepDirection where
  | increment
  | decrement
deriving DecidableEq

def StepDirection.text : StepDirection → String
  | increment => "increment"
  | decrement => "decrement"

inductive Statement where
  | print (keyword : Token) (payload : Payload)
  | ret (keyword : Token) (payload : Payload)
  | read (keyword : Token) (payload : Payload)
  | decision (keyword : Token) (condition : Operand) (body : List Statement)
      (alternative : Option (List Statement))
  | declare (declaration : Declaration)
  | assign (target : Token) (value : Value)
  /-- A loop tests its condition after the body. -/
  | loop (keyword : Token) (body : List Statement) (condition : Operand)
  | call (call : Call)
  | step (direction : StepDirection) (target operator : Token)

/-- A parameter: the reserved word for its type, that type, and its name. -/
structure Parameter where
  keyword : Token
  type : ValueType
  name : Token
deriving DecidableEq

structure FunctionDeclaration where
  keyword : Token
  name : Token
  parameters : List Parameter
  body : List Statement

def FunctionDeclaration.parameterTypes (function : FunctionDeclaration) : List ValueType :=
  function.parameters.map Parameter.type

/-- A whole program: first the declarations, then the functions, then the statements. -/
structure CompilationUnit where
  declarations : List Declaration
  functions : List FunctionDeclaration
  statements : List Statement

end FrontEnd
