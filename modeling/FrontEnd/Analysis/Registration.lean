import FrontEnd.Analysis.Action
import FrontEnd.Analysis.Inference
import FrontEnd.Analysis.Pass

/-!
Registering what a program declares, in the order in which it is declared. A function comes after
its parameters and what its body declares, because its type is that of its first return. A type is
inferred once, from what is registered up to then.
-/

namespace FrontEnd

/-- Something to register, with the scope it belongs to. -/
inductive Registration where
  | declaration (scope : Scope) (declaration : Declaration)
  | parameter (scope : Scope) (parameter : Parameter)
  | function (function : FunctionDeclaration)

namespace Registration

/-- The symbol to register, with its type as it is inferred from the table. -/
def symbol (table : SymbolTable) : Registration → Symbol
  | declaration scope d =>
    .value d.name scope (d.value?.bind (Value.type? ⟨table, scope⟩)) d.isMutable
  | parameter scope p => .value p.name scope (some p.type) true
  | function f =>
    .function f.name .unit (f.firstReturn?.bind (Payload.type? ⟨table, f.scope⟩)) f.parameterTypes

def pass (registration : Registration) : Pass := fun table =>
  Pass.declare (registration.symbol table) table

end Registration

/-- What a list of actions declares. -/
def Action.registrations (scope : Scope) (actions : List Action) : List Registration :=
  (actions.filterMap Action.declaration?).map (.declaration scope)

def FunctionDeclaration.registrations (function : FunctionDeclaration) : List Registration :=
  function.parameters.map (.parameter function.scope)
    ++ Action.registrations function.scope function.actions
    ++ [.function function]

/-- Everything that a program declares, in the order of registration. -/
def CompilationUnit.registrations (unit : CompilationUnit) : List Registration :=
  unit.declarations.map (.declaration .unit)
    ++ unit.functions.flatMap FunctionDeclaration.registrations
    ++ Action.registrations .unit (Statement.actionsOf unit.statements)

/-- Registers everything that a program declares. -/
def CompilationUnit.register (unit : CompilationUnit) : Pass :=
  .sequence (unit.registrations.map Registration.pass)

end FrontEnd
