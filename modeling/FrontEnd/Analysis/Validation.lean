import FrontEnd.Analysis.Action
import FrontEnd.Analysis.Check
import FrontEnd.Analysis.Pass

/-!
Checking what a program does against the table of symbols, action by action. Only assignments change
the table: a variable takes the type of the value that it is given.
-/

namespace FrontEnd

/-- The target of an assignment must be a declared variable. -/
def checkTarget (env : Environment) (target : Token) : List Diagnostic :=
  match env.value? target.lexeme with
  | none => [target.undeclaredVariable env]
  | some symbol =>
    if symbol.isMutable then [] else [.ofMeaning (.constantAssigned target.lexeme) target]

/-- The target of a step must be a declared variable with a number in it. -/
def checkStep (env : Environment) (direction : StepDirection) (target : Token) : List Diagnostic :=
  match env.value? target.lexeme with
  | none => [target.undeclaredVariable env]
  | some symbol =>
    (if symbol.isMutable then []
      else [.ofMeaning (.constantStepped direction target.lexeme) target])
    ++ (if symbol.type.any ValueType.isNumeric then []
      else [.ofMeaning (.stepNotNumeric direction target.lexeme symbol.type) target])

/-- A variable takes the type of the value it is given, if that is known. -/
def retypeTarget (env : Environment) (target : Token) (value : Value) : SymbolTable :=
  match env.value? target.lexeme, value.type? env with
  | some symbol, some type =>
    if symbol.isMutable then (env.table.retype? symbol.key (some type)).getD env.table
    else env.table
  | _, _ => env.table

namespace Action

/-- What is wrong with an action at its place. -/
def check (env : Environment) : Action → List Diagnostic
  | declare declaration => declaration.value?.elim [] (Value.check env)
  | assign target value => checkTarget env target ++ value.check env
  | step direction target => checkStep env direction target
  | use payload => payload.check env
  | ret payload => payload.check env

/-- The table after an action. -/
def effect (env : Environment) : Action → SymbolTable
  | assign target value => retypeTarget env target value
  | _ => env.table

def pass (scope : Scope) (action : Action) : Pass := fun table =>
  ⟨action.effect ⟨table, scope⟩, action.check ⟨table, scope⟩⟩

end Action

/-- Checks everything that a program does. -/
def CompilationUnit.validate (unit : CompilationUnit) : Pass :=
  .sequence (unit.actions.map fun (scope, action) => action.pass scope)

end FrontEnd
