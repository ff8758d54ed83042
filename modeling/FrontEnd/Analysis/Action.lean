import FrontEnd.Symbol.Basic
import FrontEnd.Syntax.Statement

/-!
What a program does, one action after the other. Analysis does not need the nesting of statements:
the parts of a decision and of a loop follow each other in the order in which they are written, a
condition before the branches of a decision and after the body of a loop.
-/

namespace FrontEnd

/-- A statement without statements inside. -/
inductive Action where
  | declare (declaration : Declaration)
  | assign (target : Token) (value : Value)
  | step (direction : StepDirection) (target : Token)
  /-- Computes something: for printing, for reading, as a condition, or as a call of its own. -/
  | use (payload : Payload)
  /-- Gives back the value of a function. -/
  | ret (payload : Payload)

mutual

/-- The actions of a statement in the order in which they are written. -/
def Statement.actions : Statement → List Action
  | .print _ payload => [.use payload]
  | .ret _ payload => [.ret payload]
  | .read _ payload => [.use payload]
  | .decision _ condition body alternative =>
    .use (.operand condition)
      :: (Statement.actionsOf body ++ Statement.actionsOfAlternative alternative)
  | .declare declaration => [.declare declaration]
  | .assign target value => [.assign target value]
  | .loop _ body condition => Statement.actionsOf body ++ [.use (.operand condition)]
  | .call c => [.use (.call c)]
  | .step direction target _ => [.step direction target]

/-- The actions of statements, one after the other. -/
def Statement.actionsOf : List Statement → List Action
  | [] => []
  | statement :: rest => statement.actions ++ Statement.actionsOf rest

/-- The actions of the alternative of a decision, if it has one. -/
def Statement.actionsOfAlternative : Option (List Statement) → List Action
  | none => []
  | some body => Statement.actionsOf body

end

namespace Action

/-- What the action declares, if it is a declaration. -/
def declaration? : Action → Option Declaration
  | declare declaration => some declaration
  | _ => none

/-- What the action gives back, if it is a return. -/
def returned? : Action → Option Payload
  | ret payload => some payload
  | _ => none

end Action

namespace FunctionDeclaration

/-- The scope of what is declared inside. -/
def scope (function : FunctionDeclaration) : Scope :=
  .function function.name.lexeme

/-- The actions of the body. -/
def actions (function : FunctionDeclaration) : List Action :=
  Statement.actionsOf function.body

/-- What the first return in the body gives back, however deep it stands. -/
def firstReturn? (function : FunctionDeclaration) : Option Payload :=
  function.actions.findSome? Action.returned?

end FunctionDeclaration

/-- The actions of a program with the scopes in which they are done: the declarations, the bodies of
the functions, the statements. -/
def CompilationUnit.actions (unit : CompilationUnit) : List (Scope × Action) :=
  unit.declarations.map (fun declaration => (.unit, .declare declaration))
    ++ unit.functions.flatMap (fun function => function.actions.map fun action =>
      (function.scope, action))
    ++ (Statement.actionsOf unit.statements).map fun action => (.unit, action)

end FrontEnd
