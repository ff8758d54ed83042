import FrontEnd.Syntax.Statement

/-!
Programs with other tokens. What two programs have in common, apart from what is left out of their
tokens, is that they become equal when it is.
-/

namespace FrontEnd

namespace Token

/-- The token apart from its place. -/
def withoutPlace (token : Token) : Token :=
  ⟨token.kind, token.lexeme, ⟨0, 0, ⟨0, 0⟩⟩⟩

/-- The token apart from its place and, if it is a reserved word, from the language it is written
in. -/
def essence (token : Token) : Token :=
  match token.kind with
  | .keyword word => ⟨.keyword word, "", ⟨0, 0, ⟨0, 0⟩⟩⟩
  | _ => token.withoutPlace

end Token

variable (f : Token → Token)

def NumericValue.mapTokens (value : NumericValue) : NumericValue :=
  ⟨value.sign.map f, f value.number⟩

def Operand.mapTokens : Operand → Operand
  | binary left operator right => .binary left.mapTokens (f operator) right.mapTokens
  | unary operator operand => .unary (f operator) operand.mapTokens
  | token t => .token (f t)
  | numeric value => .numeric (value.mapTokens f)

def Call.mapTokens (call : Call) : Call :=
  ⟨f call.name, call.arguments.map (Operand.mapTokens f)⟩

mutual

def ArrayElement.mapTokens : ArrayElement → ArrayElement
  | .operand o => .operand (o.mapTokens f)
  | .array bracket elements => .array (f bracket) (ArrayElement.mapTokensAll elements)

def ArrayElement.mapTokensAll : List ArrayElement → List ArrayElement
  | [] => []
  | element :: rest => element.mapTokens :: ArrayElement.mapTokensAll rest

end

def ArrayLiteral.mapTokens (array : ArrayLiteral) : ArrayLiteral :=
  ⟨f array.bracket, ArrayElement.mapTokensAll f array.elements⟩

def Value.mapTokens : Value → Value
  | call c => .call (c.mapTokens f)
  | array a => .array (a.mapTokens f)
  | operand o => .operand (o.mapTokens f)

def Payload.mapTokens : Payload → Payload
  | call c => .call (c.mapTokens f)
  | operand o => .operand (o.mapTokens f)

def VariableDeclaration.mapTokens (declaration : VariableDeclaration) : VariableDeclaration :=
  ⟨f declaration.keyword, f declaration.name, declaration.value.map (Value.mapTokens f)⟩

def ConstantDeclaration.mapTokens (declaration : ConstantDeclaration) : ConstantDeclaration :=
  ⟨f declaration.keyword, f declaration.name, declaration.value.mapTokens f⟩

def Declaration.mapTokens : Declaration → Declaration
  | ofVariable declaration => .ofVariable (declaration.mapTokens f)
  | ofConstant declaration => .ofConstant (declaration.mapTokens f)

mutual

def Statement.mapTokens : Statement → Statement
  | .print keyword payload => .print (f keyword) (payload.mapTokens f)
  | .ret keyword payload => .ret (f keyword) (payload.mapTokens f)
  | .read keyword payload => .read (f keyword) (payload.mapTokens f)
  | .decision keyword condition body alternative =>
    .decision (f keyword) (condition.mapTokens f) (Statement.mapTokensAll body)
      (Statement.mapTokensAlternative alternative)
  | .declare declaration => .declare (declaration.mapTokens f)
  | .assign target value => .assign (f target) (value.mapTokens f)
  | .loop keyword body condition =>
    .loop (f keyword) (Statement.mapTokensAll body) (condition.mapTokens f)
  | .call c => .call (c.mapTokens f)
  | .step direction target operator => .step direction (f target) (f operator)

def Statement.mapTokensAll : List Statement → List Statement
  | [] => []
  | statement :: rest => statement.mapTokens :: Statement.mapTokensAll rest

def Statement.mapTokensAlternative : Option (List Statement) → Option (List Statement)
  | none => none
  | some body => some (Statement.mapTokensAll body)

end

def Parameter.mapTokens (parameter : Parameter) : Parameter :=
  ⟨f parameter.keyword, parameter.type, f parameter.name⟩

def FunctionDeclaration.mapTokens (function : FunctionDeclaration) : FunctionDeclaration :=
  ⟨f function.keyword, f function.name, function.parameters.map (Parameter.mapTokens f),
    Statement.mapTokensAll f function.body⟩

def CompilationUnit.mapTokens (unit : CompilationUnit) : CompilationUnit :=
  ⟨unit.declarations.map (Declaration.mapTokens f),
    unit.functions.map (FunctionDeclaration.mapTokens f),
    Statement.mapTokensAll f unit.statements⟩

end FrontEnd
