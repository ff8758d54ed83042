import FrontEnd.Parsing.Basic
import FrontEnd.Parsing.Operand
import FrontEnd.Syntax.Value

/-!
Parsers for calls, arrays and the values built from them. What starts like a call is tried as a call
first, then as an array, and as an operand last.
-/

namespace FrontEnd.Parser

def operand : Parser Operand :=
  ofFunction readOperand?

/-- A name and arguments in parentheses. -/
def call : Parser Call := do
  let name ← token .identifier
  let _ ← token .leftParen
  let site ← commit .call
  let arguments ← site.separated .nextArgument operand
  let _ ← site.require (.argumentsClosing name.lexeme) (token .rightParen)
  return ⟨name, arguments⟩

/-- Elements in brackets. -/
def arrayOf (element : Parser ArrayElement) : Parser ArrayLiteral := do
  let bracket ← token .leftBracket
  let site ← commit .array
  let elements ← site.separated .nextElement element
  let _ ← site.require .arrayClosing (token .rightBracket)
  return ⟨bracket, elements⟩

/-- An element of an array, with arrays nested less deeply than the bound. -/
def elementWithin : Nat → Parser ArrayElement
  | 0 => reject
  | bound + 1 =>
    firstOf [ArrayLiteral.toElement <$> arrayOf (elementWithin bound), .operand <$> operand]

def array : Parser ArrayLiteral :=
  bounded fun bound => arrayOf (elementWithin bound)

/-- What may follow an equals sign. -/
def value : Parser Value :=
  firstOf [.call <$> call, .array <$> array, .operand <$> operand]

/-- What a keyword statement takes. -/
def payload : Parser Payload :=
  firstOf [.call <$> call, .operand <$> operand]

end FrontEnd.Parser
