import FrontEnd.Token.Basic

/-!
Operands: names, literals and the operations on them. An operation keeps its operator as a token, so
that a message can point at it.
-/

namespace FrontEnd

/-- A number with an optional sign, which is a token of its own. -/
structure NumericValue where
  sign : Option Token
  number : Token
deriving DecidableEq

namespace NumericValue

def isDecimal (value : NumericValue) : Bool :=
  value.number.kind = .decimal

def firstToken (value : NumericValue) : Token :=
  value.sign.getD value.number

/-- The number with its sign in front, whatever stood between them. -/
def text (value : NumericValue) : String :=
  value.sign.elim "" Token.lexeme ++ value.number.lexeme

end NumericValue

/-- A value that can be computed without a call. -/
inductive Operand where
  | binary (left : Operand) (operator : Token) (right : Operand)
  | unary (operator : Token) (operand : Operand)
  /-- A name, a string or a character. -/
  | token (token : Token)
  | numeric (value : NumericValue)
deriving DecidableEq

namespace Operand

/-- The leftmost token. -/
def firstToken : Operand → Token
  | binary left _ _ => left.firstToken
  | unary operator _ => operator
  | token t => t
  | numeric value => value.firstToken

/-- The operand with every operation in parentheses. -/
def text : Operand → String
  | binary left operator right => s!"({left.text} {operator.lexeme} {right.text})"
  | unary operator operand => s!"({operator.lexeme}{operand.text})"
  | token t => t.lexeme
  | numeric value => value.text

end Operand

end FrontEnd
