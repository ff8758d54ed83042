import FrontEnd.Outline.Basic
import FrontEnd.Syntax.Statement

/-!
The outline of a program. Each construct is a node that names it, and its parts are below it in the
order in which they are written. Lists of statements stand under a node of their own.
-/

namespace FrontEnd

def Token.outline (token : Token) : Outline :=
  .leaf s!"{token.kind.text}: {token.lexeme}"

def NumericValue.outline (value : NumericValue) : Outline :=
  .leaf s!"Numeric value: {value.text}"

def Operand.outline : Operand → Outline
  | binary left operator right =>
    .node "Expression" [left.outline, .leaf s!"Operator: {operator.lexeme}", right.outline]
  | unary operator operand =>
    .node "Expression" [.leaf s!"Operator: {operator.lexeme}", operand.outline]
  | token t => t.outline
  | numeric value => value.outline

def Call.outline (call : Call) : Outline :=
  .node s!"Function call: {call.name.lexeme}"
    (call.arguments.map fun argument => .node "Argument" [argument.outline])

mutual

def ArrayElement.outline : ArrayElement → Outline
  | .operand value => value.outline
  | .array _ elements => .node "Array" (ArrayElement.outlines elements)

/-- The outlines of elements, one for each. -/
def ArrayElement.outlines : List ArrayElement → List Outline
  | [] => []
  | element :: rest => element.outline :: ArrayElement.outlines rest

end

def ArrayLiteral.outline (array : ArrayLiteral) : Outline :=
  array.toElement.outline

def Value.outline : Value → Outline
  | call c => c.outline
  | array a => a.outline
  | operand o => o.outline

def Payload.outline : Payload → Outline
  | call c => c.outline
  | operand o => o.outline

def Declaration.outline : Declaration → Outline
  | ofVariable declaration =>
    .node s!"Variable declaration: {declaration.name.lexeme}"
      (declaration.value.map Value.outline).toList
  | ofConstant declaration =>
    .node s!"Constant declaration: {declaration.name.lexeme}" [declaration.value.outline]

mutual

def Statement.outline : Statement → Outline
  | .print _ payload => .node "Print" [payload.outline]
  | .ret _ payload => .node "Return" [payload.outline]
  | .read _ payload => .node "Read" [payload.outline]
  | .decision _ condition body alternative =>
    .node "Decision"
      (.node "Condition" [condition.outline] :: .node "Then" (Statement.outlines body)
        :: Statement.alternativeOutline alternative)
  | .declare declaration => declaration.outline
  | .assign target value => .node s!"Assignment: {target.lexeme}" [value.outline]
  | .loop _ body condition =>
    .node "Do-while loop"
      [.node "Body" (Statement.outlines body), .node "Condition" [condition.outline]]
  | .call c => c.outline
  | .step .increment target _ => .leaf s!"Increment: {target.lexeme}"
  | .step .decrement target _ => .leaf s!"Decrement: {target.lexeme}"

/-- The outlines of statements, one for each. -/
def Statement.outlines : List Statement → List Outline
  | [] => []
  | statement :: rest => statement.outline :: Statement.outlines rest

/-- An alternative is shown whenever it is written, even with nothing in it. -/
def Statement.alternativeOutline : Option (List Statement) → List Outline
  | none => []
  | some body => [.node "Else" (Statement.outlines body)]

end

def Parameter.outline (parameter : Parameter) : Outline :=
  .leaf s!"Parameter: {parameter.type.text} {parameter.name.lexeme}"

def FunctionDeclaration.outline (function : FunctionDeclaration) : Outline :=
  .node s!"Function declaration: {function.name.lexeme}"
    [.node "Parameters" (function.parameters.map Parameter.outline),
     .node "Body" (Statement.outlines function.body)]

/-- A node for the items, unless there are none. -/
def Outline.group (label : String) : List Outline → List Outline
  | [] => []
  | items => [.node label items]

def CompilationUnit.outline (unit : CompilationUnit) : Outline :=
  .node "Compilation unit"
    (Outline.group "Declarations" (unit.declarations.map Declaration.outline)
      ++ Outline.group "Functions" (unit.functions.map FunctionDeclaration.outline)
      ++ Outline.group "Statements" (Statement.outlines unit.statements))

end FrontEnd
