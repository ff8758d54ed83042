import FrontEnd.Analysis.Inference
import FrontEnd.Diagnostic.Basic

/-!
Checks on the parts of actions. Each of them reads what can be named at its place and gives the
diagnostics it finds there, from left to right.

A name that is not declared is reported where it stands and left out of the checks on operators and
arguments; a declared name without a type takes part in them.
-/

namespace FrontEnd

/-- A name that is not declared in the scope. -/
def Token.isUndeclared (env : Environment) (token : Token) : Bool :=
  token.kind = .identifier && (env.value? token.lexeme).isNone

def Token.undeclaredVariable (env : Environment) (token : Token) : Diagnostic :=
  .ofMeaning (.undeclaredVariable token.lexeme env.scope.label) token

namespace Operand

/-- A name by itself that is not declared. -/
def isUndeclared (env : Environment) : Operand → Bool
  | token t => t.isUndeclared env
  | _ => false

/-- Arithmetic needs a number on one side, and an ordering that admits equality must not have a text
on either side. All other operators take any types. -/
def checkOperator (env : Environment) (left : Operand) (operator : Token) (right : Operand) :
    List Diagnostic :=
  let leftType := left.type? env
  let rightType := right.type? env
  if left.isUndeclared env || right.isUndeclared env then []
  else
    match OperatorClass.ofKind? operator.kind with
    | some .arithmetic =>
      if leftType.any ValueType.isNumeric || rightType.any ValueType.isNumeric then []
      else [.ofMeaning (.operandsNotNumeric operator.lexeme leftType rightType) operator]
    | some (.relational comparison) =>
      if comparison.isInclusiveOrdering
          && (leftType.any ValueType.isTextual || rightType.any ValueType.isTextual) then
        [.ofMeaning (.operandsNotOrdered operator.lexeme leftType rightType) operator]
      else []
    | _ => []

/-- Undeclared names and operators whose sides do not fit them, the sides before the operator. -/
def check (env : Environment) : Operand → List Diagnostic
  | binary left operator right =>
    left.check env ++ right.check env ++ checkOperator env left operator right
  | unary _ operand => operand.check env
  | token t => if t.isUndeclared env then [t.undeclaredVariable env] else []
  | numeric _ => []

end Operand

namespace ArrayElement

/-- Elements whose type is known must have the type of the first element, if that is known. -/
def mismatches (env : Environment) : List ArrayElement → List Diagnostic
  | [] => []
  | first :: rest =>
    match first.type? env with
    | none => []
    | some expected => rest.filterMap fun element =>
      ((element.type? env).filter (· ≠ expected)).map fun found =>
        .ofMeaning (.elementMismatch element.firstToken.lexeme found expected) element.firstToken

mutual

/-- First what is wrong inside the elements, and then the elements that do not fit the first one. -/
def check (env : Environment) : ArrayElement → List Diagnostic
  | .operand o => o.check env
  | .array _ elements => checkAll env elements ++ mismatches env elements

/-- What is wrong inside elements, one after the other. -/
def checkAll (env : Environment) : List ArrayElement → List Diagnostic
  | [] => []
  | element :: rest => element.check env ++ checkAll env rest

end

end ArrayElement

namespace Call

/-- An argument must have exactly the type of its parameter. -/
def checkArgument (env : Environment) (function : Token) (number : Nat) (argument : Operand)
    (expected : ValueType) : List Diagnostic :=
  let found := argument.type? env
  if argument.isUndeclared env || found = some expected then []
  else [.ofMeaning (.argumentMismatch number function.lexeme expected found) argument.firstToken]

/-- The number of arguments, and then the types of those that have a parameter. -/
def checkParameters (env : Environment) (call : Call) (parameterTypes : List ValueType) :
    List Diagnostic :=
  let count :=
    if call.arguments.length = parameterTypes.length then []
    else [.ofMeaning
      (.argumentCount call.name.lexeme parameterTypes.length call.arguments.length) call.name]
  count ++ (call.arguments.zip parameterTypes).zipIdx.flatMap fun ((argument, expected), i) =>
    checkArgument env call.name (i + 1) argument expected

/-- The function and its parameters first, and then what is wrong inside the arguments. -/
def check (env : Environment) (call : Call) : List Diagnostic :=
  let signature := match env.function? call.name.lexeme with
    | none => [.ofMeaning (.undeclaredFunction call.name.lexeme) call.name]
    | some function => call.checkParameters env function.role.parameterTypes
  signature ++ call.arguments.flatMap (Operand.check env)

/-- A call that stands for a value must be of a function that gives something back. -/
def checkReturn (env : Environment) (call : Call) : List Diagnostic :=
  if (env.function? call.name.lexeme).any fun function => function.type.isNone then
    [.ofMeaning (.noReturnValue call.name.lexeme) call.name]
  else []

end Call

/-- What is wrong with a value that is given to a name. -/
def Value.check (env : Environment) : Value → List Diagnostic
  | call c => c.check env ++ c.checkReturn env
  | array a => a.toElement.check env
  | operand o => o.check env

/-- What is wrong with what a statement takes. A call need not give anything back here. -/
def Payload.check (env : Environment) : Payload → List Diagnostic
  | call c => c.check env
  | operand o => o.check env

end FrontEnd
