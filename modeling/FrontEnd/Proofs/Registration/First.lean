import FrontEnd.Analysis.Unit
import FrontEnd.Proofs.Isolation.Passes

/-!
The first registration of a key decides. Its symbol is typed from what was registered before it, and
no later registration of the key changes it.
-/

namespace FrontEnd

/-- The table just before something is registered under the key for the first time. -/
def Registration.tableBefore (registrations : List Registration) (table : SymbolTable) (key : Key) :
    SymbolTable :=
  (Pass.sequence ((registrations.takeWhile fun r => r.key ≠ key).map Registration.pass) table).table

theorem find?_pass_of_some {table : SymbolTable} {key : Key} {symbol : Symbol}
    (hfound : table.find? key = some symbol) (registration : Registration) :
    (registration.pass table).table.find? key = some symbol := by
  by_cases hfree : table.find? (registration.symbol table).key = none
  · rw [Registration.pass, find?_declare hfree, if_neg, hfound]
    rintro rfl
    rw [hfree] at hfound
    cases hfound
  · rw [Registration.pass, find?_declare_of_taken hfree, hfound]

theorem find?_register_of_some {table : SymbolTable} {key : Key} {symbol : Symbol}
    (hfound : table.find? key = some symbol) (registrations : List Registration) :
    (Pass.sequence (registrations.map Registration.pass) table).table.find? key = some symbol := by
  induction registrations generalizing table with
  | nil => exact hfound
  | cons registration rest ih => exact ih (find?_pass_of_some hfound registration)

/-- Of all that is registered under a key, the table keeps the first one. -/
theorem find?_register {table : SymbolTable} {key : Key} (hfree : table.find? key = none)
    (registrations : List Registration) :
    (Pass.sequence (registrations.map Registration.pass) table).table.find? key =
      (registrations.find? fun r => r.key = key).map fun r =>
        r.symbol (Registration.tableBefore registrations table key) := by
  induction registrations generalizing table with
  | nil => exact hfree
  | cons registration rest ih =>
    have hkey := registration.key_symbol table
    by_cases hsame : registration.key = key
    · have hsymbolFree : table.find? (registration.symbol table).key = none := by
        rwa [hkey, hsame]
      have hfound : (registration.pass table).table.find? key =
          some (registration.symbol table) := by
        rw [Registration.pass, find?_declare hsymbolFree, if_pos (hkey.trans hsame)]
      have hbefore : Registration.tableBefore (registration :: rest) table key = table := by
        simp [Registration.tableBefore, hsame, Pass.skip]
      rw [List.find?_cons_of_pos (by simpa using hsame), Option.map_some, hbefore]
      exact find?_register_of_some hfound rest
    · have hstillFree : (registration.pass table).table.find? key = none := by
        by_cases hsymbolFree : table.find? (registration.symbol table).key = none
        · rw [Registration.pass, find?_declare hsymbolFree, if_neg (by rwa [hkey]), hfree]
        · rw [Registration.pass, find?_declare_of_taken hsymbolFree, hfree]
      have hbefore : Registration.tableBefore (registration :: rest) table key =
          Registration.tableBefore rest (registration.pass table).table key := by
        simp [Registration.tableBefore, hsame, Pass.andThen]
      rw [List.find?_cons_of_neg (by simpa using hsame), hbefore]
      exact ih hstillFree

/-! ### Functions -/

/-- Whether the key is that of a function, and not that of a value. -/
def Key.isFunction (key : Key) : Bool :=
  key.scope.isNone

theorem find?_function_eq_none {registrations : List Registration}
    (hvalues : ∀ registration ∈ registrations, registration.key.isFunction = false)
    (name : String) : registrations.find? (fun r => r.key = .function name) = none := by
  rw [List.find?_eq_none]
  intro registration hmem hkey
  have hvalue := hvalues registration hmem
  rw [of_decide_eq_true hkey] at hvalue
  cases hvalue

theorem Action.find?_function_registrations (name : String) (scope : Scope)
    (actions : List Action) :
    (Action.registrations scope actions).find? (fun r => r.key = .function name) = none := by
  refine find?_function_eq_none (fun registration hmem => ?_) name
  obtain ⟨declaration, -, rfl⟩ := List.mem_map.mp hmem
  rfl

theorem FunctionDeclaration.find?_function_registrations (name : String)
    (function : FunctionDeclaration) :
    function.registrations.find? (fun r => r.key = .function name) =
      if function.name.lexeme = name then some (.function function) else none := by
  have hparameters : (function.parameters.map (Registration.parameter function.scope)).find?
      (fun r => r.key = .function name) = none := by
    refine find?_function_eq_none (fun registration hmem => ?_) name
    obtain ⟨parameter, -, rfl⟩ := List.mem_map.mp hmem
    rfl
  rw [registrations, List.find?_append, List.find?_append, hparameters,
    Action.find?_function_registrations]
  simp [Registration.key, Key.function]

theorem FunctionDeclaration.find?_flatMap_registrations (name : String)
    (functions : List FunctionDeclaration) :
    (functions.flatMap registrations).find? (fun r => r.key = .function name) =
      (functions.find? fun function => function.name.lexeme = name).map .function := by
  induction functions with
  | nil => rfl
  | cons function rest ih =>
    rw [List.flatMap_cons, List.find?_append, function.find?_function_registrations, ih]
    by_cases hname : function.name.lexeme = name
    · rw [if_pos hname, Option.some_or, List.find?_cons_of_pos (by simpa using hname),
        Option.map_some]
    · rw [if_neg hname, Option.none_or, List.find?_cons_of_neg (by simpa using hname)]

namespace CompilationUnit

variable (unit : CompilationUnit)

theorem find?_function_registrations (name : String) :
    unit.registrations.find? (fun r => r.key = .function name) =
      (unit.functions.find? fun function => function.name.lexeme = name).map .function := by
  have hdeclarations : (unit.declarations.map (Registration.declaration .unit)).find?
      (fun r => r.key = .function name) = none := by
    refine find?_function_eq_none (fun registration hmem => ?_) name
    obtain ⟨declaration, -, rfl⟩ := List.mem_map.mp hmem
    rfl
  rw [registrations, List.find?_append, List.find?_append, hdeclarations,
    Action.find?_function_registrations, Option.none_or, Option.or_none,
    FunctionDeclaration.find?_flatMap_registrations]

/-- What a function gives back, as far as its first return tells when it is registered. -/
def returnTypeOf (function : FunctionDeclaration) : Option ValueType :=
  function.returns.head?.bind (Payload.type? ⟨Registration.tableBefore unit.registrations ∅
    (.function function.name.lexeme), function.scope⟩)

/-- Of the functions with one name the first one is registered. -/
theorem function?_register (name : String) :
    (unit.register ∅).table.function? name =
      (unit.functions.find? fun function => function.name.lexeme = name).map fun function =>
        .function function.name .unit (unit.returnTypeOf function) function.parameterTypes := by
  have hfree : (∅ : SymbolTable).find? (.function name) = none := by
    simp [SymbolTable.find?_eq_find?_toList]
  have hfound : (unit.register ∅).table.function? name = _ :=
    find?_register hfree unit.registrations
  rw [hfound, find?_function_registrations, Option.map_map]
  cases hfunction : unit.functions.find? fun function => function.name.lexeme = name with
  | none => rfl
  | some function =>
    have hname : function.name.lexeme = name := by simpa using List.find?_some hfunction
    simp [Registration.symbol, returnTypeOf, function.firstReturn?_eq_head?_returns, hname]

/-- Validation leaves the functions as they are. -/
theorem function?_sequence_actions (actions : List (Scope × Action)) (table : SymbolTable)
    (name : String) :
    (Pass.sequence (actions.map fun (scope, action) => action.pass scope) table).table.function?
      name = table.function? name := by
  have hspares : (Pass.sequence (actions.map fun (scope, action) => action.pass scope)).Spares
      Key.isFunction := by
    refine Pass.spares_sequence fun pass hpass => ?_
    obtain ⟨⟨scope, action⟩, -, rfl⟩ := List.mem_map.mp hpass
    exact action.pass_spares fun _ => rfl
  have hkey : Key.isFunction (.function name) = true := rfl
  rw [SymbolTable.function?, SymbolTable.function?, SymbolTable.find?_eq_find?_part hkey,
    hspares table, ← SymbolTable.find?_eq_find?_part hkey]

end CompilationUnit

end FrontEnd
