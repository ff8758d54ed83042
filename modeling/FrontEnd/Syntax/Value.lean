import FrontEnd.Syntax.Operand

/-!
What stands on the right of an equals sign, and what a keyword statement takes: calls, arrays and
operands. A call or an array is never part of an operand.
-/

namespace FrontEnd

/-- A function's name and what it is given. -/
structure Call where
  name : Token
  arguments : List Operand
deriving DecidableEq

/-- An element of an array: an operand or an array again, known by its opening bracket. -/
inductive ArrayElement where
  | operand (operand : Operand)
  | array (bracket : Token) (elements : List ArrayElement)

def ArrayElement.firstToken : ArrayElement → Token
  | operand value => value.firstToken
  | array bracket _ => bracket

/-- An array as it is written. -/
structure ArrayLiteral where
  bracket : Token
  elements : List ArrayElement

/-- An array as an element of another one. -/
def ArrayLiteral.toElement (array : ArrayLiteral) : ArrayElement :=
  .array array.bracket array.elements

/-- What a declaration or an assignment gives to a name. -/
inductive Value where
  | call (call : Call)
  | array (array : ArrayLiteral)
  | operand (operand : Operand)

def Value.firstToken : Value → Token
  | call c => c.name
  | array a => a.bracket
  | operand o => o.firstToken

/-- What is printed, read or given back. -/
inductive Payload where
  | call (call : Call)
  | operand (operand : Operand)
deriving DecidableEq

end FrontEnd
