import FrontEnd.Symbol.Table
import FrontEnd.Syntax.Statement

/-!
The types of operands and values, as far as the table of symbols tells. A type is `none` where it
cannot be known: for a name that is not declared or has no type yet, for a call of a function that
gives nothing back, and for an empty array.
-/

namespace FrontEnd

/-- What can be named at a place: the table, and the scope that the place belongs to. -/
structure Environment where
  table : SymbolTable
  scope : Scope

namespace Environment

/-- The value of the given name in the scope. -/
def value? (env : Environment) (name : String) : Option Symbol :=
  env.table.value? name env.scope

/-- The function of the given name. -/
def function? (env : Environment) (name : String) : Option Symbol :=
  env.table.function? name

end Environment

/-- What an operator does, as far as types go. -/
inductive OperatorClass where
  | concat
  | logical
  | relational (operator : RelationalOperator)
  | arithmetic
deriving DecidableEq

namespace OperatorClass

def ofKind? : TokenKind → Option OperatorClass
  | .concat => some concat
  | .logical _ => some logical
  | .relational operator => some (relational operator)
  | .arithmetic _ => some arithmetic
  | _ => none

/-- Arithmetic gives a decimal as soon as one side is a decimal, and an integer in all other cases,
even if a side has no type. -/
def resultType (left right : Option ValueType) : OperatorClass → ValueType
  | concat => .string
  | logical => .boolean
  | relational _ => .boolean
  | arithmetic => if left = some .decimal ∨ right = some .decimal then .decimal else .integer

end OperatorClass

/-- The type of a name or a literal. -/
def Token.type? (env : Environment) (token : Token) : Option ValueType :=
  match token.kind with
  | .identifier => (env.value? token.lexeme).bind Symbol.type
  | .integer => some .integer
  | .decimal => some .decimal
  | .string => some .string
  | .char => some .char
  | _ => none

def NumericValue.type (value : NumericValue) : ValueType :=
  if value.isDecimal then .decimal else .integer

def Operand.type? (env : Environment) : Operand → Option ValueType
  | binary left operator right =>
    (OperatorClass.ofKind? operator.kind).map (·.resultType (left.type? env) (right.type? env))
  | unary operator operand =>
    (OperatorClass.ofKind? operator.kind).map (·.resultType none (operand.type? env))
  | token t => t.type? env
  | numeric value => some value.type

/-- What the called function gives back. -/
def Call.type? (env : Environment) (call : Call) : Option ValueType :=
  (env.function? call.name.lexeme).bind Symbol.type

/-- The type of an operand, or of the first operand inside an array. -/
def ArrayElement.type? (env : Environment) : ArrayElement → Option ValueType
  | operand o => o.type? env
  | array _ [] => none
  | array _ (first :: _) => first.type? env

def ArrayLiteral.type? (env : Environment) (array : ArrayLiteral) : Option ValueType :=
  array.toElement.type? env

def Value.type? (env : Environment) : Value → Option ValueType
  | call c => c.type? env
  | array a => a.type? env
  | operand o => o.type? env

def Payload.type? (env : Environment) : Payload → Option ValueType
  | call c => c.type? env
  | operand o => o.type? env

end FrontEnd
