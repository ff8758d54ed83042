import FrontEnd.Location

/-!
Tokens: what kind of word a piece of the source is, how it was written, and where it stands.

The language has reserved words with a Spanish and an English spelling each, so a reserved word is
known by its meaning and its spelling stays in the lexeme.
-/

namespace FrontEnd

/-- The reserved words, by meaning. -/
inductive Keyword where
  /-- Opens a function declaration. -/
  | action
  | string
  | char
  | integer
  | decimal
  | boolean
  /-- Opens a decision. -/
  | branch
  /-- Opens the alternative of a decision. -/
  | otherwise
  /-- Opens a loop. -/
  | loop
  /-- Opens the condition that closes a loop. -/
  | whilst
  /-- Declares a variable. -/
  | var
  /-- Declares a constant. -/
  | const
  /-- Gives back the value of a function. -/
  | ret
  | print
  | read
deriving DecidableEq

inductive ArithmeticOperator where
  | add | sub | mul | div | rem
deriving DecidableEq

inductive AssignmentOperator where
  | set | addTo | subtractFrom
deriving DecidableEq

inductive RelationalOperator where
  | less | lessEqual | greater | greaterEqual | equal | notEqual
deriving DecidableEq

/-- The comparisons that ask for an order and admit equality. -/
def RelationalOperator.isInclusiveOrdering : RelationalOperator → Bool
  | lessEqual | greaterEqual => true
  | less | greater | equal | notEqual => false

inductive LogicalOperator where
  | or | and | not
deriving DecidableEq

/-- What a token is, apart from its spelling. -/
inductive TokenKind where
  | identifier
  | integer
  | decimal
  | string
  | char
  | keyword (word : Keyword)
  | arithmetic (operator : ArithmeticOperator)
  | assignment (operator : AssignmentOperator)
  | relational (operator : RelationalOperator)
  | logical (operator : LogicalOperator)
  | increment
  | decrement
  | concat
  /-- The sign `#` that ends a statement. -/
  | terminator
  | leftParen
  | rightParen
  | leftBrace
  | rightBrace
  | leftBracket
  | rightBracket
  | comma
  | semicolon
  | colon
  | blockComment
  | lineComment
  /-- Text that belongs to no other kind. -/
  | unknown
  | endOfInput
deriving DecidableEq

namespace TokenKind

/-- The name of the kind in messages and listings. -/
def text : TokenKind → String
  | identifier => "identifier"
  | integer => "integer literal"
  | decimal => "decimal literal"
  | string => "string literal"
  | char => "char literal"
  | keyword _ => "reserved word"
  | arithmetic _ => "arithmetic operator"
  | assignment _ => "assignment operator"
  | relational _ => "relational operator"
  | logical _ => "logical operator"
  | increment => "increment operator"
  | decrement => "decrement operator"
  | concat => "concatenation operator"
  | terminator => "terminator"
  | leftParen => "'('"
  | rightParen => "')'"
  | leftBrace => "'\x7b'"
  | rightBrace => "'\x7d'"
  | leftBracket => "'['"
  | rightBracket => "']'"
  | comma => "','"
  | semicolon => "';'"
  | colon => "':'"
  | blockComment => "block comment"
  | lineComment => "line comment"
  | unknown => "unknown"
  | endOfInput => "end of input"

/-- Comments are tokens, but the grammar does not see them. -/
def isComment : TokenKind → Bool
  | blockComment | lineComment => true
  | _ => false

end TokenKind

/-- A word of the source. -/
structure Token where
  kind : TokenKind
  lexeme : String
  location : Location
deriving DecidableEq

namespace Token

def isComment (token : Token) : Bool :=
  token.kind.isComment

/-- A token as messages quote it. -/
def text (token : Token) : String :=
  if token.kind = .endOfInput then token.kind.text else s!"'{token.lexeme}'"

/-- The token that stands for the end of a text. -/
def ending (location : Location) : Token :=
  ⟨.endOfInput, "", location⟩

end Token

end FrontEnd
