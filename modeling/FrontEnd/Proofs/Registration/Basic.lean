import FrontEnd.Analysis.Registration
import FrontEnd.Proofs.Symbol.Table
import FrontEnd.Proofs.Syntax.Leaves

/-!
What is registered, and what registering one thing does. The declarations of a program have an
order: those outside of functions, function by function its parameters, what its body declares at
any depth and the function itself, and then what the statements declare. Each goes into the table
under its key, or is reported if the key is taken.
-/

namespace FrontEnd

/-! ### The declarations of a program -/

/-- What a function declares: its parameters and what its body declares, in its own scope, and then
the function itself. -/
def FunctionDeclaration.declared (function : FunctionDeclaration) : List Registration :=
  function.parameters.map (.parameter (.function function.name.lexeme))
    ++ (Statement.declarationsOf function.body).map (.declaration (.function function.name.lexeme))
    ++ [.function function]

/-- What a program declares, in the order in which it is registered. -/
def CompilationUnit.declared (unit : CompilationUnit) : List Registration :=
  unit.declarations.map (.declaration .unit)
    ++ unit.functions.flatMap FunctionDeclaration.declared
    ++ (Statement.declarationsOf unit.statements).map (.declaration .unit)

theorem FunctionDeclaration.registrations_eq_declared (function : FunctionDeclaration) :
    function.registrations = function.declared := by
  rw [registrations, declared, Action.registrations, actions, Statement.filterMap_declaration?]
  rfl

theorem CompilationUnit.registrations_eq_declared (unit : CompilationUnit) :
    unit.registrations = unit.declared := by
  rw [registrations, declared, Action.registrations, Statement.filterMap_declaration?,
    funext FunctionDeclaration.registrations_eq_declared]

/-! ### One declaration -/

namespace Registration

/-- The key of what is registered. -/
def key : Registration → Key
  | declaration scope d => .value d.name.lexeme scope
  | parameter scope p => .value p.name.lexeme scope
  | function f => .function f.name.lexeme

/-- The scope in which the type is inferred. -/
def scope : Registration → Scope
  | declaration scope _ => scope
  | parameter scope _ => scope
  | function f => f.scope

theorem key_symbol (registration : Registration) (table : SymbolTable) :
    (registration.symbol table).key = registration.key := by
  cases registration <;> rfl

end Registration

theorem table_declare (symbol : Symbol) (table : SymbolTable) :
    (Pass.declare symbol table).table = (table.insert symbol).2 := rfl

theorem diagnostics_declare_of_free {table : SymbolTable} {symbol : Symbol}
    (hfree : table.find? symbol.key = none) : (Pass.declare symbol table).diagnostics = [] := by
  simp [Pass.declare, SymbolTable.register, (SymbolTable.insert_of_free hfree).1]

theorem diagnostics_declare_of_taken {table : SymbolTable} {symbol : Symbol}
    (htaken : table.find? symbol.key ≠ none) :
    (Pass.declare symbol table).diagnostics = [symbol.duplicate] := by
  simp [Pass.declare, SymbolTable.register, (SymbolTable.insert_of_taken htaken).1]

theorem diagnostics_declare_eq_nil_iff {table : SymbolTable} {symbol : Symbol} :
    (Pass.declare symbol table).diagnostics = [] ↔ table.find? symbol.key = none := by
  by_cases hfree : table.find? symbol.key = none
  · simp [diagnostics_declare_of_free hfree, hfree]
  · simp [diagnostics_declare_of_taken hfree, hfree]

theorem find?_declare {table : SymbolTable} {symbol : Symbol}
    (hfree : table.find? symbol.key = none) (key : Key) :
    (Pass.declare symbol table).table.find? key =
      if symbol.key = key then some symbol else table.find? key :=
  SymbolTable.find?_insert hfree key

theorem find?_declare_of_taken {table : SymbolTable} {symbol : Symbol}
    (htaken : table.find? symbol.key ≠ none) (key : Key) :
    (Pass.declare symbol table).table.find? key = table.find? key := by
  rw [table_declare, SymbolTable.find?_eq_find?_toList, (SymbolTable.insert_of_taken htaken).2,
    ← SymbolTable.find?_eq_find?_toList]

end FrontEnd
