import FrontEnd.Analysis.Validation
import FrontEnd.Proofs.Naming.Uses
import FrontEnd.Proofs.Symbol.Table

/-!
What validation says about names. Each check finds the faults of the uses in what it checks, one for
each use at fault and in their order, whatever else it finds. Assignments change types only, so that
what is declared stays the same from the first action to the last.
-/

namespace FrontEnd

/-- Every fault of a use is a problem about names. -/
theorem Occurrence.isAboutNames_of_fault? {declared : Declared} {occurrence : Occurrence}
    {d : Diagnostic} (hfault : occurrence.fault? declared = some d) : d.isAboutNames = true := by
  obtain ⟨problem, hproblem, rfl⟩ := Option.map_eq_some_iff.mp hfault
  show problem.isAboutNames = true
  unfold problem? Declared.valueProblem? Declared.callProblem? at hproblem
  grind [SemanticProblem.isAboutNames]

/-- What the diagnostics say about names are the faults of the uses. -/
def Reflects (declared : Declared) (diagnostics : List Diagnostic)
    (occurrences : List Occurrence) : Prop :=
  diagnostics.filter Diagnostic.isAboutNames =
    occurrences.filterMap (Occurrence.fault? declared)

namespace Reflects

variable {declared : Declared}

theorem nil : Reflects declared [] [] := rfl

theorem append {first second : List Diagnostic} {before after : List Occurrence}
    (hfirst : Reflects declared first before) (hsecond : Reflects declared second after) :
    Reflects declared (first ++ second) (before ++ after) := by
  unfold Reflects at *
  rw [List.filter_append, List.filterMap_append, hfirst, hsecond]

/-- Something else is found on top, which no use of a name tells. -/
theorem append_silent {first second : List Diagnostic} {occurrences : List Occurrence}
    (hfirst : Reflects declared first occurrences) (hsecond : Reflects declared second []) :
    Reflects declared (first ++ second) occurrences := by
  have hboth := hfirst.append hsecond
  rwa [List.append_nil] at hboth

theorem flatMap {α : Type} {found : α → List Diagnostic} {occurrences : α → List Occurrence}
    (hitem : ∀ item, Reflects declared (found item) (occurrences item)) (items : List α) :
    Reflects declared (items.flatMap found) (items.flatMap occurrences) := by
  induction items with
  | nil => exact .nil
  | cons item rest ih => exact (hitem item).append ih

theorem flatMap_silent {α : Type} {found : α → List Diagnostic}
    (hitem : ∀ item, Reflects declared (found item) []) (items : List α) :
    Reflects declared (items.flatMap found) [] := by
  induction items with
  | nil => exact .nil
  | cons item rest ih => exact (hitem item).append_silent ih

theorem ite {condition : Prop} [Decidable condition] {first second : List Diagnostic}
    {occurrences : List Occurrence} (hfirst : Reflects declared first occurrences)
    (hsecond : Reflects declared second occurrences) :
    Reflects declared (if condition then first else second) occurrences := by
  split
  · exact hfirst
  · exact hsecond

/-- Diagnostics on problems that no use of a name can have. -/
theorem of_forall {diagnostics : List Diagnostic}
    (hother : ∀ d ∈ diagnostics, d.isAboutNames = false) : Reflects declared diagnostics [] :=
  List.filter_eq_nil_iff.mpr fun d hd => by simp [hother d hd]

theorem ofOther {problem : SemanticProblem} (hother : problem.isAboutNames = false)
    (token : Token) : Reflects declared [.ofMeaning problem token] [] :=
  of_forall fun _ hd => List.mem_singleton.mp hd ▸ hother

/-- The fault of one use, if it has one. -/
theorem single (declared : Declared) (occurrence : Occurrence) :
    Reflects declared (occurrence.fault? declared).toList [occurrence] := by
  unfold Reflects
  cases hfault : occurrence.fault? declared with
  | none => rw [List.filterMap_cons_none hfault]; rfl
  | some d =>
    rw [List.filterMap_cons_some hfault, Option.toList_some,
      List.filter_cons_of_pos (Occurrence.isAboutNames_of_fault? hfault)]
    rfl

end Reflects

section

variable (env : Environment)

/-! ### Single uses -/

/-- What is found on a name for a value, where nothing but the use of a constant depends on the
use. -/
theorem variable_reflects (name : Token) (use : Use) (onConstant : Option SemanticProblem)
    (huse : Occurrence.problem? (.ofTable env.table) ⟨env.scope, name, use⟩ =
      Declared.valueProblem? (.ofTable env.table) env.scope name.lexeme onConstant) :
    Reflects (.ofTable env.table)
      (match env.value? name.lexeme with
        | none => [name.undeclaredVariable env]
        | some symbol =>
          if symbol.isMutable then [] else onConstant.toList.map (Diagnostic.ofMeaning · name))
      [⟨env.scope, name, use⟩] := by
  have hmutable : (Declared.ofTable env.table).isMutable? name.lexeme env.scope =
      (env.value? name.lexeme).map Symbol.isMutable := rfl
  have hsingle := Reflects.single (.ofTable env.table) ⟨env.scope, name, use⟩
  rw [Occurrence.fault?, huse, Declared.valueProblem?, hmutable] at hsingle
  cases hvalue : env.value? name.lexeme with
  | none =>
    rw [hvalue] at hsingle
    exact hsingle
  | some symbol =>
    rw [hvalue, Option.map_some] at hsingle
    cases hconstant : symbol.isMutable <;> cases onConstant <;>
      simpa [hconstant] using hsingle

/-- What is found on the name of a call. -/
theorem function_reflects (name : Token) (found : Nat) :
    Reflects (.ofTable env.table)
      (match env.function? name.lexeme with
        | none => [.ofMeaning (.undeclaredFunction name.lexeme) name]
        | some function =>
          if found = function.role.parameterTypes.length then []
          else [.ofMeaning
            (.argumentCount name.lexeme function.role.parameterTypes.length found) name])
      [⟨env.scope, name, .call found⟩] := by
  have hcount : (Declared.ofTable env.table).parameterCount? name.lexeme =
      (env.function? name.lexeme).map fun function => function.role.parameterTypes.length := rfl
  have huse : Occurrence.problem? (.ofTable env.table) ⟨env.scope, name, .call found⟩ =
      Declared.callProblem? (.ofTable env.table) name.lexeme found := rfl
  have hsingle := Reflects.single (.ofTable env.table) ⟨env.scope, name, .call found⟩
  rw [Occurrence.fault?, huse, Declared.callProblem?, hcount] at hsingle
  cases hfunction : env.function? name.lexeme with
  | none =>
    rw [hfunction] at hsingle
    exact hsingle
  | some function =>
    rw [hfunction, Option.map_some] at hsingle
    by_cases hlength : found = function.role.parameterTypes.length <;>
      simpa [hlength] using hsingle

theorem checkTarget_reflects (target : Token) :
    Reflects (.ofTable env.table) (checkTarget env target) [⟨env.scope, target, .assign⟩] :=
  variable_reflects env target .assign (some (.constantAssigned target.lexeme)) rfl

theorem checkStep_reflects (direction : StepDirection) (target : Token) :
    Reflects (.ofTable env.table) (checkStep env direction target)
      [⟨env.scope, target, .step direction⟩] := by
  have htarget := variable_reflects env target (.step direction)
    (some (.constantStepped direction target.lexeme)) rfl
  unfold checkStep
  cases hvalue : env.value? target.lexeme with
  | none =>
    rw [hvalue] at htarget
    exact htarget
  | some symbol =>
    rw [hvalue] at htarget
    exact htarget.append_silent (.ite .nil (.ofOther rfl target))

theorem Token.check_reflects (t : Token) :
    Reflects (.ofTable env.table) (Operand.check env (.token t))
      (Operand.occurrences env.scope (.token t)) := by
  rw [Operand.check, Operand.occurrences, isUndeclared]
  by_cases hname : t.kind = .identifier
  · have hread := variable_reflects env t .read none rfl
    cases hvalue : env.value? t.lexeme <;> simpa [hname, hvalue] using hread
  · simpa [hname] using Reflects.nil

/-! ### Operands and arrays -/

theorem Operand.checkOperator_reflects (left : Operand) (operator : Token) (right : Operand) :
    Reflects (.ofTable env.table) (checkOperator env left operator right) [] := by
  unfold checkOperator
  refine .ite .nil ?_
  split
  · exact .ite .nil (.ofOther rfl operator)
  · exact .ite (.ofOther rfl operator) .nil
  · exact .nil

theorem Operand.check_reflects (operand : Operand) :
    Reflects (.ofTable env.table) (operand.check env) (operand.occurrences env.scope) := by
  induction operand with
  | binary left operator right ihleft ihright =>
    exact (ihleft.append ihright).append_silent (checkOperator_reflects env left operator right)
  | unary operator operand ih => exact ih
  | token t => exact t.check_reflects env
  | numeric value => exact .nil

namespace ArrayElement

theorem mismatches_reflects (elements : List ArrayElement) :
    Reflects (.ofTable env.table) (mismatches env elements) [] := by
  unfold mismatches
  split
  · exact .nil
  · split
    · exact .nil
    · refine .of_forall fun d hd => ?_
      obtain ⟨element, -, hfound⟩ := List.mem_filterMap.mp hd
      obtain ⟨found, -, rfl⟩ := Option.map_eq_some_iff.mp hfound
      rfl

mutual

theorem check_reflects (element : ArrayElement) :
    Reflects (.ofTable env.table) (element.check env) (element.occurrences env.scope) := by
  match element with
  | .operand o =>
    rw [check, occurrences]
    exact o.check_reflects env
  | .array _ elements =>
    rw [check, occurrences]
    exact (checkAll_reflects elements).append_silent (mismatches_reflects env elements)

theorem checkAll_reflects (elements : List ArrayElement) :
    Reflects (.ofTable env.table) (checkAll env elements) (occurrencesOf env.scope elements) := by
  match elements with
  | [] =>
    rw [checkAll, occurrencesOf]
    exact .nil
  | element :: rest =>
    rw [checkAll, occurrencesOf]
    exact (check_reflects element).append (checkAll_reflects rest)

end

end ArrayElement

/-! ### Calls and values -/

namespace Call

theorem checkArgument_reflects (function : Token) (number : Nat) (argument : Operand)
    (expected : ValueType) :
    Reflects (.ofTable env.table) (checkArgument env function number argument expected) [] :=
  .ite .nil (.ofOther rfl argument.firstToken)

theorem checkParameters_reflects {call : Call} {function : Symbol}
    (hfunction : env.function? call.name.lexeme = some function) :
    Reflects (.ofTable env.table) (call.checkParameters env function.role.parameterTypes)
      [⟨env.scope, call.name, .call call.arguments.length⟩] := by
  have hname := function_reflects env call.name call.arguments.length
  rw [hfunction] at hname
  refine hname.append_silent (.flatMap_silent ?_ _)
  rintro ⟨⟨argument, expected⟩, i⟩
  exact checkArgument_reflects env call.name (i + 1) argument expected

theorem check_reflects (call : Call) :
    Reflects (.ofTable env.table) (call.check env) (call.occurrences env.scope) := by
  have harguments := Reflects.flatMap (Operand.check_reflects env) call.arguments
  unfold check
  cases hfunction : env.function? call.name.lexeme with
  | none =>
    have hname := function_reflects env call.name call.arguments.length
    rw [hfunction] at hname
    exact hname.append harguments
  | some function => exact (checkParameters_reflects env hfunction).append harguments

theorem checkReturn_reflects (call : Call) :
    Reflects (.ofTable env.table) (call.checkReturn env) [] :=
  .ite (.ofOther rfl call.name) .nil

end Call

theorem Value.check_reflects (value : Value) :
    Reflects (.ofTable env.table) (value.check env) (value.occurrences env.scope) := by
  cases value with
  | call c => exact (c.check_reflects env).append_silent (c.checkReturn_reflects env)
  | array a => exact a.toElement.check_reflects env
  | operand o => exact o.check_reflects env

theorem Payload.check_reflects (payload : Payload) :
    Reflects (.ofTable env.table) (payload.check env) (payload.occurrences env.scope) := by
  cases payload with
  | call c => exact c.check_reflects env
  | operand o => exact o.check_reflects env

theorem Declaration.check_reflects (declaration : Declaration) :
    Reflects (.ofTable env.table) (declaration.value?.elim [] (Value.check env))
      (declaration.occurrences env.scope) := by
  cases declaration with
  | ofVariable declaration =>
    rw [value?, occurrences]
    cases declaration.value with
    | none => exact .nil
    | some value => exact value.check_reflects env
  | ofConstant declaration => exact declaration.value.check_reflects env

/-! ### Actions -/

/-- The uses in an action. -/
def Action.occurrences (scope : Scope) : Action → List Occurrence
  | declare declaration => declaration.occurrences scope
  | assign target value => ⟨scope, target, .assign⟩ :: value.occurrences scope
  | step direction target => [⟨scope, target, .step direction⟩]
  | use payload => payload.occurrences scope
  | ret payload => payload.occurrences scope

theorem Action.check_reflects (action : Action) :
    Reflects (.ofTable env.table) (action.check env) (action.occurrences env.scope) := by
  cases action with
  | declare declaration => exact declaration.check_reflects env
  | assign target value => exact (checkTarget_reflects env target).append (value.check_reflects env)
  | step direction target => exact checkStep_reflects env direction target
  | use payload => exact payload.check_reflects env
  | ret payload => exact payload.check_reflects env

/-- Another type for a symbol changes neither what is declared nor what may change. -/
theorem Declared.ofTable_retype? (table : SymbolTable) (key : Key) (type : Option ValueType) :
    Declared.ofTable ((table.retype? key type).getD table) = .ofTable table := by
  have hmutable : ∀ symbol : Symbol, (symbol.retypeAt key type).isMutable = symbol.isMutable := by
    intro symbol
    unfold Symbol.retypeAt
    split <;> rfl
  have hrole : ∀ symbol : Symbol, (symbol.retypeAt key type).role = symbol.role := by
    intro symbol
    unfold Symbol.retypeAt
    split <;> rfl
  simp only [ofTable, SymbolTable.value?, SymbolTable.function?, SymbolTable.find?_retype?,
    Option.map_map, Function.comp_def, hmutable, hrole]

theorem Action.ofTable_effect (action : Action) :
    Declared.ofTable (action.effect env) = .ofTable env.table := by
  cases action with
  | assign target value =>
    rw [effect, retypeTarget]
    split
    · split
      · exact Declared.ofTable_retype? ..
      · rfl
    · rfl
  | _ => rfl

end

/-! ### The whole program -/

mutual

/-- The walk meets the uses of the actions of a statement, action by action. -/
theorem Statement.occurrences_eq_flatMap (scope : Scope) (statement : Statement) :
    statement.occurrences scope = statement.actions.flatMap (Action.occurrences scope) := by
  match statement with
  | .print .. | .ret .. | .read .. | .declare .. | .assign .. | .call .. | .step .. =>
    rw [Statement.actions, List.flatMap_singleton, Statement.occurrences]
    rfl
  | .decision keyword condition body alternative =>
    rw [Statement.actions, Statement.occurrences, List.flatMap_cons, List.flatMap_append,
      Statement.occurrencesOf_eq_flatMap scope body,
      Statement.occurrencesOfAlternative_eq_flatMap scope alternative]
    rfl
  | .loop keyword body condition =>
    rw [Statement.actions, Statement.occurrences, List.flatMap_append, List.flatMap_singleton,
      Statement.occurrencesOf_eq_flatMap scope body]
    rfl

theorem Statement.occurrencesOf_eq_flatMap (scope : Scope) (statements : List Statement) :
    Statement.occurrencesOf scope statements =
      (Statement.actionsOf statements).flatMap (Action.occurrences scope) := by
  match statements with
  | [] => rw [Statement.occurrencesOf, Statement.actionsOf, List.flatMap_nil]
  | statement :: rest =>
    rw [Statement.occurrencesOf, Statement.actionsOf, List.flatMap_append,
      Statement.occurrences_eq_flatMap scope statement,
      Statement.occurrencesOf_eq_flatMap scope rest]

theorem Statement.occurrencesOfAlternative_eq_flatMap (scope : Scope)
    (alternative : Option (List Statement)) :
    Statement.occurrencesOfAlternative scope alternative =
      (Statement.actionsOfAlternative alternative).flatMap (Action.occurrences scope) := by
  match alternative with
  | none =>
    rw [Statement.occurrencesOfAlternative, Statement.actionsOfAlternative, List.flatMap_nil]
  | some body =>
    rw [Statement.occurrencesOfAlternative, Statement.actionsOfAlternative,
      Statement.occurrencesOf_eq_flatMap scope body]

end

theorem Pass.sequence_reflects (actions : List (Scope × Action)) (table : SymbolTable) :
    Reflects (.ofTable table)
      (sequence (actions.map fun (scope, action) => action.pass scope) table).diagnostics
      (actions.flatMap fun (scope, action) => action.occurrences scope) := by
  induction actions generalizing table with
  | nil => exact .nil
  | cons first rest ih =>
    obtain ⟨scope, action⟩ := first
    have hafter := ih (action.effect ⟨table, scope⟩)
    rw [action.ofTable_effect] at hafter
    exact (action.check_reflects ⟨table, scope⟩).append hafter

namespace CompilationUnit

theorem occurrences_eq_flatMap (unit : CompilationUnit) :
    unit.occurrences = unit.actions.flatMap fun (scope, action) => action.occurrences scope := by
  have hbodies : FunctionDeclaration.occurrences = fun function =>
      function.actions.flatMap (Action.occurrences function.scope) :=
    funext fun function => Statement.occurrencesOf_eq_flatMap function.scope function.body
  simp only [occurrences, actions, List.flatMap_append, List.flatMap_map, List.flatMap_assoc,
    Statement.occurrencesOf_eq_flatMap, hbodies]
  rfl

/-- What validation says about names is the fault of each use of a name that has one, in the order
of the walk, which meets every token of the program at most once. What the table declares at the
start decides it: the types that variables take on the way do not matter. -/
theorem aboutNames_diagnostics_validate (unit : CompilationUnit) (table : SymbolTable) :
    (unit.validate table).diagnostics.filter Diagnostic.isAboutNames =
        unit.occurrences.filterMap (Occurrence.fault? (.ofTable table)) ∧
      (unit.occurrences.map Occurrence.name).Sublist unit.tokens := by
  refine ⟨?_, unit.occurrences_standAlong⟩
  rw [occurrences_eq_flatMap]
  exact Pass.sequence_reflects unit.actions table

end CompilationUnit

end FrontEnd
