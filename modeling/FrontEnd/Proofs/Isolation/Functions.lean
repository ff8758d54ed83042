import FrontEnd.Proofs.Isolation.Passes
import FrontEnd.Proofs.Symbol.Scope

/-!
Functions are isolated from the rest of a program. Analysis goes through the declarations, the
functions and the statements one after the other, twice; what it finds in the functions, and what it
knows of them in the end, is what it would find and know if there were nothing but the functions.
-/

namespace FrontEnd

/-- Whether the key is that of a function or of a value inside of one. -/
def Key.isOfFunctions (key : Key) : Bool :=
  key.scope.all fun scope => scope.functionName?.isSome

/-- Whether the symbol is a function or a value inside of one. -/
def Symbol.isOfFunctions (symbol : Symbol) : Bool :=
  match symbol.role with
  | .function _ => true
  | .value => symbol.scope.functionName?.isSome

theorem Symbol.isOfFunctions_key (symbol : Symbol) :
    symbol.key.isOfFunctions = symbol.isOfFunctions := by
  obtain ⟨name, role, type, isMutable, scope, location⟩ := symbol
  cases role <;> rfl

theorem Key.isOfFunctions_value_unit (name : String) :
    (Key.value name .unit).isOfFunctions = false := by
  simp [isOfFunctions, value, Scope.functionName?_unit]

theorem FunctionDeclaration.visibleIn_scope (function : FunctionDeclaration) :
    function.scope.VisibleIn Key.isOfFunctions where
  value name := by simp [scope, Key.isOfFunctions, Key.value, Scope.functionName?_function]
  function name := rfl

namespace CompilationUnit

/-! ### The parts of a program -/

/-- The declarations of a program, and nothing else of it. -/
def declarationPart (unit : CompilationUnit) : CompilationUnit :=
  ⟨unit.declarations, [], []⟩

/-- The functions of a program, and nothing else of it. -/
def functionPart (unit : CompilationUnit) : CompilationUnit :=
  ⟨[], unit.functions, []⟩

/-- The statements of a program, and nothing else of it. -/
def statementPart (unit : CompilationUnit) : CompilationUnit :=
  ⟨[], [], unit.statements⟩

theorem register_eq_andThen (unit : CompilationUnit) :
    unit.register = unit.declarationPart.register.andThen
      (unit.functionPart.register.andThen unit.statementPart.register) := by
  simp only [register, ← Pass.sequence_append, ← List.map_append]
  simp [registrations, declarationPart, functionPart, statementPart, Statement.actionsOf,
    Action.registrations]

theorem validate_eq_andThen (unit : CompilationUnit) :
    unit.validate = unit.declarationPart.validate.andThen
      (unit.functionPart.validate.andThen unit.statementPart.validate) := by
  simp only [validate, ← Pass.sequence_append, ← List.map_append]
  simp [actions, declarationPart, functionPart, statementPart, Statement.actionsOf]

/-- What each stage of analysis finds and leaves. -/
structure Stages where
  declarationsRegistered : Analysis
  functionsRegistered : Analysis
  statementsRegistered : Analysis
  declarationsValidated : Analysis
  functionsValidated : Analysis
  statementsValidated : Analysis

/-- The stages of analysis, each from the table that the one before leaves. -/
def stages (unit : CompilationUnit) : Stages :=
  let declarationsRegistered := unit.declarationPart.register ∅
  let functionsRegistered := unit.functionPart.register declarationsRegistered.table
  let statementsRegistered := unit.statementPart.register functionsRegistered.table
  let declarationsValidated := unit.declarationPart.validate statementsRegistered.table
  let functionsValidated := unit.functionPart.validate declarationsValidated.table
  let statementsValidated := unit.statementPart.validate functionsValidated.table
  { declarationsRegistered, functionsRegistered, statementsRegistered
    declarationsValidated, functionsValidated, statementsValidated }

/-! ### What the stages read and change -/

theorem registrations_functionPart {unit : CompilationUnit} {registration : Registration}
    (hmem : registration ∈ unit.functionPart.registrations) :
    registration.key.isOfFunctions = true ∧ registration.scope.VisibleIn Key.isOfFunctions := by
  have hfunctions : registration ∈ unit.functions.flatMap FunctionDeclaration.registrations := by
    simpa [registrations, functionPart, Statement.actionsOf, Action.registrations] using hmem
  obtain ⟨function, -, hfunction⟩ := List.mem_flatMap.mp hfunctions
  have hvisible := function.visibleIn_scope
  rcases List.mem_append.mp hfunction with hlocal | hself
  · rcases List.mem_append.mp hlocal with hparameter | hdeclared
    · obtain ⟨parameter, -, rfl⟩ := List.mem_map.mp hparameter
      exact ⟨hvisible.value _, hvisible⟩
    · obtain ⟨declaration, -, rfl⟩ := List.mem_map.mp hdeclared
      exact ⟨hvisible.value _, hvisible⟩
  · obtain rfl := List.mem_singleton.mp hself
    exact ⟨hvisible.function _, hvisible⟩

theorem register_functionPart_dependsOn (unit : CompilationUnit) :
    unit.functionPart.register.DependsOn Key.isOfFunctions := by
  refine Pass.dependsOn_sequence (List.forall_mem_map.mpr fun registration hmem => ?_)
  obtain ⟨hkey, hvisible⟩ := registrations_functionPart hmem
  exact Registration.pass_dependsOn hvisible hkey

theorem register_functionPart_spares (unit : CompilationUnit) :
    unit.functionPart.register.Spares fun key => !key.isOfFunctions := by
  refine Pass.spares_sequence (List.forall_mem_map.mpr fun registration hmem => ?_)
  exact Registration.pass_spares (by simp [(registrations_functionPart hmem).1])

theorem register_declarationPart_spares (unit : CompilationUnit) :
    unit.declarationPart.register.Spares Key.isOfFunctions := by
  refine Pass.spares_sequence (List.forall_mem_map.mpr fun registration hmem => ?_)
  have hdeclared : registration ∈ unit.declarations.map (.declaration .unit) := by
    simpa [registrations, declarationPart, Statement.actionsOf, Action.registrations] using hmem
  obtain ⟨declaration, -, rfl⟩ := List.mem_map.mp hdeclared
  exact Registration.pass_spares (Key.isOfFunctions_value_unit _)

theorem register_statementPart_spares (unit : CompilationUnit) :
    unit.statementPart.register.Spares Key.isOfFunctions := by
  refine Pass.spares_sequence (List.forall_mem_map.mpr fun registration hmem => ?_)
  have hdeclared : registration ∈
      Action.registrations .unit (Statement.actionsOf unit.statements) := by
    simpa [registrations, statementPart] using hmem
  obtain ⟨declaration, -, rfl⟩ := List.mem_map.mp hdeclared
  exact Registration.pass_spares (Key.isOfFunctions_value_unit _)

theorem actions_functionPart {unit : CompilationUnit} {scope : Scope} {action : Action}
    (hmem : (scope, action) ∈ unit.functionPart.actions) :
    ∃ function : FunctionDeclaration, scope = function.scope := by
  have hfunctions : (scope, action) ∈ unit.functions.flatMap fun function =>
      function.actions.map fun action => (function.scope, action) := by
    simpa [actions, functionPart, Statement.actionsOf] using hmem
  obtain ⟨function, -, hfunction⟩ := List.mem_flatMap.mp hfunctions
  obtain ⟨other, -, hentry⟩ := List.mem_map.mp hfunction
  exact ⟨function, (Prod.mk.inj hentry).1.symm⟩

theorem validate_functionPart_dependsOn (unit : CompilationUnit) :
    unit.functionPart.validate.DependsOn Key.isOfFunctions := by
  refine Pass.dependsOn_sequence (List.forall_mem_map.mpr fun ⟨scope, action⟩ hmem => ?_)
  obtain ⟨function, rfl⟩ := actions_functionPart hmem
  exact action.pass_dependsOn function.visibleIn_scope

theorem validate_functionPart_spares (unit : CompilationUnit) :
    unit.functionPart.validate.Spares fun key => !key.isOfFunctions := by
  refine Pass.spares_sequence (List.forall_mem_map.mpr fun ⟨scope, action⟩ hmem => ?_)
  obtain ⟨function, rfl⟩ := actions_functionPart hmem
  exact action.pass_spares fun name => by simp [function.visibleIn_scope.value name]

/-- What is done outside of functions cannot change what belongs to them. -/
theorem validate_spares_of_unit {unit : CompilationUnit}
    (hscope : ∀ entry ∈ unit.actions, entry.1 = .unit) :
    unit.validate.Spares Key.isOfFunctions := by
  refine Pass.spares_sequence (List.forall_mem_map.mpr fun ⟨scope, action⟩ hmem => ?_)
  obtain rfl : scope = .unit := hscope _ hmem
  exact action.pass_spares Key.isOfFunctions_value_unit

theorem validate_declarationPart_spares (unit : CompilationUnit) :
    unit.declarationPart.validate.Spares Key.isOfFunctions := by
  refine validate_spares_of_unit fun entry hmem => ?_
  obtain ⟨declaration, -, rfl⟩ := List.mem_map.mp (show entry ∈ unit.declarations.map
    (fun declaration => (Scope.unit, Action.declare declaration)) by
      simpa [actions, declarationPart, Statement.actionsOf] using hmem)
  rfl

theorem validate_statementPart_spares (unit : CompilationUnit) :
    unit.statementPart.validate.Spares Key.isOfFunctions := by
  refine validate_spares_of_unit fun entry hmem => ?_
  obtain ⟨action, -, rfl⟩ := List.mem_map.mp (show entry ∈ (Statement.actionsOf unit.statements).map
    (fun action => (Scope.unit, action)) by simpa [actions, statementPart] using hmem)
  rfl

/-! ### Isolation -/

theorem toList_functionPart_analyze (unit : CompilationUnit) :
    unit.functionPart.analyze.table.part Key.isOfFunctions =
      unit.functionPart.analyze.table.toList := by
  have hspares := unit.register_functionPart_spares.andThen unit.validate_functionPart_spares
  have hrest : unit.functionPart.analyze.table.part (fun key => !key.isOfFunctions) = [] :=
    hspares ∅
  refine List.filter_eq_self.mpr fun symbol hmem => ?_
  simpa using List.filter_eq_nil_iff.mp hrest symbol hmem

/-- The diagnostics of a program are those of the stages, one after the other. Those found while
the functions are registered and validated are all that the functions give as a program of their
own, and the symbols of the functions are in the end those of that program. -/
theorem functions_isolated (unit : CompilationUnit) :
    unit.analyze.diagnostics =
        unit.stages.declarationsRegistered.diagnostics ++
        unit.stages.functionsRegistered.diagnostics ++
        unit.stages.statementsRegistered.diagnostics ++
        unit.stages.declarationsValidated.diagnostics ++
        unit.stages.functionsValidated.diagnostics ++
        unit.stages.statementsValidated.diagnostics ∧
      unit.stages.functionsRegistered.diagnostics ++ unit.stages.functionsValidated.diagnostics =
        unit.functionPart.analyze.diagnostics ∧
      unit.analyze.table.toList.filter Symbol.isOfFunctions =
        unit.functionPart.analyze.table.toList := by
  have hanalyze : unit.analyze = (unit.declarationPart.register.andThen
      (unit.functionPart.register.andThen unit.statementPart.register)).andThen
        (unit.declarationPart.validate.andThen
          (unit.functionPart.validate.andThen unit.statementPart.validate)) ∅ := by
    rw [analyze, register_eq_andThen, validate_eq_andThen]
  -- from the empty table, the functions are registered as they are after the declarations
  obtain ⟨hregistered, hregisteredPart⟩ :=
    unit.register_functionPart_dependsOn (unit.register_declarationPart_spares ∅)
  have hbefore : unit.stages.declarationsValidated.table.part Key.isOfFunctions =
      (unit.functionPart.register ∅).table.part Key.isOfFunctions :=
    (unit.validate_declarationPart_spares _).trans
      ((unit.register_statementPart_spares _).trans hregisteredPart)
  obtain ⟨hvalidated, hvalidatedPart⟩ := unit.validate_functionPart_dependsOn hbefore
  refine ⟨?_, ?_, ?_⟩
  · rw [hanalyze]
    simp [Pass.andThen, stages]
  · calc unit.stages.functionsRegistered.diagnostics ++ unit.stages.functionsValidated.diagnostics
      _ = (unit.functionPart.register ∅).diagnostics ++
          (unit.functionPart.validate (unit.functionPart.register ∅).table).diagnostics :=
        congr (congrArg _ hregistered) hvalidated
      _ = unit.functionPart.analyze.diagnostics := rfl
  · have hlast : unit.analyze.table.part Key.isOfFunctions =
        unit.functionPart.analyze.table.part Key.isOfFunctions := by
      rw [hanalyze]
      exact (unit.validate_statementPart_spares _).trans hvalidatedPart
    rw [← toList_functionPart_analyze, ← hlast, SymbolTable.part]
    simp only [Symbol.isOfFunctions_key]

end CompilationUnit

end FrontEnd
