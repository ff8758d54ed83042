import FrontEnd.Token.Basic

/-!
What the grammar can complain about: something it expected in a construct it had already recognized,
or a token at which no construct can go on.
-/

namespace FrontEnd

/-- The constructs that hold a block of statements. -/
inductive BlockOwner where
  | function
  | decision
  | alternative
  | loop
deriving DecidableEq

def BlockOwner.text : BlockOwner → String
  | function => "function body"
  | decision => "the conditional body"
  | alternative => "the else body"
  | loop => "the loop body"

/-- What may be missing from a construct. A spelling or name is kept where the message quotes it. -/
inductive Expected where
  | declaredName (keyword : String)
  | initialValue
  | variableEnd
  | constantEquals
  | constantEnd
  | functionName (keyword : String)
  | parametersOpening
  | nextParameter
  | parametersClosing
  | parameterName (typeWord : String)
  | blockOpening (owner : BlockOwner)
  | blockClosing (owner : BlockOwner)
  | payload (keyword : String)
  | payloadEnd (keyword : String)
  | conditionOpening (keyword : String)
  | condition
  | conditionClosing
  | loopKeyword
  | loopConditionOpening
  | loopCondition
  | loopConditionClosing
  | loopEnd
  | assignedValue (target : String)
  | assignmentEnd
  | nextArgument
  | argumentsClosing (function : String)
  | nextElement
  | arrayClosing
deriving DecidableEq

def Expected.text : Expected → String
  | declaredName keyword => s!"identifier after '{keyword}'"
  | initialValue => "value after '='"
  | variableEnd => "'#' after variable declaration"
  | constantEquals => "'=' in constant declaration"
  | constantEnd => "'#' after constant declaration"
  | functionName keyword => s!"function name after '{keyword}'"
  | parametersOpening => "'(' after function name"
  | nextParameter => "parameter after ','"
  | parametersClosing => "')' after parameters"
  | parameterName typeWord => s!"parameter name after '{typeWord}'"
  | blockOpening owner => s!"'\x7b' to open {owner.text}"
  | blockClosing owner => s!"'\x7d' to close {owner.text}"
  | payload keyword => s!"value after '{keyword}'"
  | payloadEnd keyword => s!"'#' after '{keyword}' statement"
  | conditionOpening keyword => s!"'(' after '{keyword}'"
  | condition => "condition"
  | conditionClosing => "')' after condition"
  | loopKeyword => "'mientras' after loop body"
  | loopConditionOpening => "'(' after 'mientras'"
  | loopCondition => "loop condition"
  | loopConditionClosing => "')' after loop condition"
  | loopEnd => "'#' after loop"
  | assignedValue target => s!"value to assign to '{target}'"
  | assignmentEnd => "'#' after assignment"
  | nextArgument => "argument after ','"
  | argumentsClosing function => s!"')' to close call to '{function}'"
  | nextElement => "array element after ','"
  | arrayClosing => "']' to close array"

/-- A fault in the order of the tokens, with the token where it shows. -/
inductive SyntaxProblem where
  | missing (expected : Expected) (found : Token)
  | unexpected (found : Token)
  | unrecognized (found : Token)
deriving DecidableEq

namespace SyntaxProblem

/-- The token where the problem shows. -/
def found : SyntaxProblem → Token
  | missing _ token | unexpected token | unrecognized token => token

def message : SyntaxProblem → String
  | missing expected found => s!"expected {expected.text}, found {found.text}"
  | unexpected found => s!"unexpected {found.text}"
  | unrecognized found => s!"unrecognized input {found.text}"

end SyntaxProblem

end FrontEnd
