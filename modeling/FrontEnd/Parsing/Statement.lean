import FrontEnd.Parsing.Value
import FrontEnd.Syntax.Statement

/-!
Parsers for declarations and statements. The terminator `#` ends declarations, keyword statements,
assignments and loops; after a call or a step it may be left out.
-/

namespace FrontEnd.Parser

def variableDeclaration : Parser VariableDeclaration := do
  let word ← keyword .var
  let site ← commit .variableDeclaration
  let name ← site.require (.declaredName word.lexeme) (token .identifier)
  let first ← following (.assignment .set) (site.require .initialValue value)
  let _ ← site.require .variableEnd (token .terminator)
  return ⟨word, name, first⟩

def constantDeclaration : Parser ConstantDeclaration := do
  let word ← keyword .const
  let site ← commit .constantDeclaration
  let name ← site.require (.declaredName word.lexeme) (token .identifier)
  let _ ← site.require .constantEquals (token (.assignment .set))
  let first ← site.require .initialValue value
  let _ ← site.require .constantEnd (token .terminator)
  return ⟨word, name, first⟩

def declaration : Parser Declaration :=
  firstOf [.ofVariable <$> variableDeclaration, .ofConstant <$> constantDeclaration]

/-- A reserved word with a call or an operand after it. -/
def keywordStatement (meaning : Keyword) (rule : Rule) : Parser (Token × Payload) := do
  let word ← keyword meaning
  let site ← commit rule
  let taken ← site.require (.payload word.lexeme) payload
  let _ ← site.require (.payloadEnd word.lexeme) (token .terminator)
  return (word, taken)

/-- Statements in braces, as a part of a construct. -/
def block (statement : Parser Statement) (site : Site) (owner : BlockOwner) :
    Parser (List Statement) := do
  let _ ← site.require (.blockOpening owner) (token .leftBrace)
  let statements ← many statement
  let _ ← site.require (.blockClosing owner) (token .rightBrace)
  return statements

def decision (statement : Parser Statement) : Parser Statement := do
  let word ← keyword .branch
  let site ← commit .decision
  let _ ← site.require (.conditionOpening word.lexeme) (token .leftParen)
  let condition ← site.require .condition operand
  let _ ← site.require .conditionClosing (token .rightParen)
  let body ← block statement site .decision
  let alternative ← following (.keyword .otherwise) (block statement site .alternative)
  return .decision word condition body alternative

def loop (statement : Parser Statement) : Parser Statement := do
  let word ← keyword .loop
  let site ← commit .loop
  let body ← block statement site .loop
  let _ ← site.require .loopKeyword (keyword .whilst)
  let _ ← site.require .loopConditionOpening (token .leftParen)
  let condition ← site.require .loopCondition operand
  let _ ← site.require .loopConditionClosing (token .rightParen)
  let _ ← site.require .loopEnd (token .terminator)
  return .loop word body condition

def assignment : Parser Statement := do
  let target ← token .identifier
  let _ ← token (.assignment .set)
  let site ← commit .assignment
  let given ← site.require (.assignedValue target.lexeme) value
  let _ ← site.require .assignmentEnd (token .terminator)
  return .assign target given

def callStatement : Parser Statement := do
  let called ← call
  let _ ← optional (token .terminator)
  return .call called

def step (direction : StepDirection) (operatorKind : TokenKind) : Parser Statement := do
  let target ← token .identifier
  let operator ← token operatorKind
  let _ ← optional (token .terminator)
  return .step direction target operator

/-- A statement, with blocks nested less deeply than the bound. -/
def statementWithin : Nat → Parser Statement
  | 0 => reject
  | bound + 1 =>
    firstOf [
      (fun (word, taken) => .print word taken) <$> keywordStatement .print .print,
      (fun (word, taken) => .ret word taken) <$> keywordStatement .ret .ret,
      (fun (word, taken) => .read word taken) <$> keywordStatement .read .read,
      decision (statementWithin bound),
      (fun declared => .declare (.ofVariable declared)) <$> variableDeclaration,
      (fun declared => .declare (.ofConstant declared)) <$> constantDeclaration,
      assignment,
      loop (statementWithin bound),
      callStatement,
      step .increment .increment,
      step .decrement .decrement]

end FrontEnd.Parser
