import FrontEnd.Analysis.Action

/-!
The statements that have no statements inside. With the decisions and loops around them left out
they stand in a row, as they are written. What a program declares, what it assigns and what it gives
back is read off this row. The actions that analysis goes through come in the same order, with the
conditions of decisions and loops among them.
-/

namespace FrontEnd

/-- A value given to a name, in the scope where this is done. -/
structure Assignment where
  scope : Scope
  target : Token
  value : Value

/-! ### Leaves -/

mutual

/-- The statements without statements inside, at any depth and from left to right. -/
def Statement.leaves : Statement → List Statement
  | .decision _ _ body alternative =>
    Statement.leavesOf body ++ Statement.leavesOfAlternative alternative
  | .loop _ body _ => Statement.leavesOf body
  | leaf@(.print _ _) | leaf@(.ret _ _) | leaf@(.read _ _) | leaf@(.declare _) | leaf@(.assign _ _)
  | leaf@(.call _) | leaf@(.step _ _ _) => [leaf]

/-- The leaves of statements, one statement after the other. -/
def Statement.leavesOf : List Statement → List Statement
  | [] => []
  | statement :: rest => statement.leaves ++ Statement.leavesOf rest

/-- The leaves of the alternative of a decision, if it has one. -/
def Statement.leavesOfAlternative : Option (List Statement) → List Statement
  | none => []
  | some body => Statement.leavesOf body

end

namespace Statement

/-- What the statement itself declares. -/
def declaration? : Statement → Option Declaration
  | declare declaration => some declaration
  | _ => none

/-- What the statement itself assigns. -/
def assignment? (scope : Scope) : Statement → Option Assignment
  | assign target value => some ⟨scope, target, value⟩
  | _ => none

/-- What the statement itself gives back. -/
def returned? : Statement → Option Payload
  | ret _ payload => some payload
  | _ => none

/-- The declarations in statements, at any depth and from left to right. -/
def declarationsOf (statements : List Statement) : List Declaration :=
  (leavesOf statements).filterMap declaration?

/-- The assignments in statements, at any depth and from left to right. -/
def assignmentsOf (scope : Scope) (statements : List Statement) : List Assignment :=
  (leavesOf statements).filterMap (assignment? scope)

end Statement

/-- What the returns in the body of a function give back, at any depth and from left to right. -/
def FunctionDeclaration.returns (function : FunctionDeclaration) : List Payload :=
  (Statement.leavesOf function.body).filterMap Statement.returned?

/-- The assignments of a program, function by function and then those of the statements. -/
def CompilationUnit.assignments (unit : CompilationUnit) : List Assignment :=
  unit.functions.flatMap (fun function => Statement.assignmentsOf function.scope function.body)
    ++ Statement.assignmentsOf .unit unit.statements

/-! ### Leaves and actions -/

/-- What a statement without statements inside does. -/
def Statement.action? : Statement → Option Action
  | .print _ payload => some (.use payload)
  | .ret _ payload => some (.ret payload)
  | .read _ payload => some (.use payload)
  | .declare declaration => some (.declare declaration)
  | .assign target value => some (.assign target value)
  | .call c => some (.use (.call c))
  | .step direction target _ => some (.step direction target)
  | .decision .. | .loop .. => none

section

variable {α : Type} {select : Action → Option α} {pick : Statement → Option α}

/-- What is picked from leaves is what is selected from their actions, and no condition of a
decision or a loop is selected. -/
structure Picks (select : Action → Option α) (pick : Statement → Option α) : Prop where
  condition : ∀ operand : Operand, select (.use (.operand operand)) = none
  leaf : ∀ statement : Statement, statement.action?.bind select = pick statement

mutual

theorem Statement.filterMap_actions (hpicks : Picks select pick) (statement : Statement) :
    statement.actions.filterMap select = statement.leaves.filterMap pick := by
  match statement with
  | .print _ _ | .ret _ _ | .read _ _ | .declare _ | .assign _ _ | .call _ | .step _ _ _ =>
    rw [Statement.actions, Statement.leaves, List.filterMap_cons, List.filterMap_cons,
      ← hpicks.leaf]
    rfl
  | .decision keyword condition body alternative =>
    rw [Statement.actions, Statement.leaves, List.filterMap_cons_none (hpicks.condition condition),
      List.filterMap_append, List.filterMap_append, Statement.filterMap_actionsOf hpicks body,
      Statement.filterMap_actionsOfAlternative hpicks alternative]
  | .loop keyword body condition =>
    rw [Statement.actions, Statement.leaves, List.filterMap_append,
      List.filterMap_cons_none (hpicks.condition condition), List.filterMap_nil, List.append_nil,
      Statement.filterMap_actionsOf hpicks body]

theorem Statement.filterMap_actionsOf (hpicks : Picks select pick) (statements : List Statement) :
    (Statement.actionsOf statements).filterMap select =
      (Statement.leavesOf statements).filterMap pick := by
  match statements with
  | [] => rw [Statement.actionsOf, Statement.leavesOf, List.filterMap_nil, List.filterMap_nil]
  | statement :: rest =>
    rw [Statement.actionsOf, Statement.leavesOf, List.filterMap_append, List.filterMap_append,
      Statement.filterMap_actions hpicks statement, Statement.filterMap_actionsOf hpicks rest]

theorem Statement.filterMap_actionsOfAlternative (hpicks : Picks select pick)
    (alternative : Option (List Statement)) :
    (Statement.actionsOfAlternative alternative).filterMap select =
      (Statement.leavesOfAlternative alternative).filterMap pick := by
  match alternative with
  | none =>
    rw [Statement.actionsOfAlternative, Statement.leavesOfAlternative, List.filterMap_nil,
      List.filterMap_nil]
  | some body =>
    rw [Statement.actionsOfAlternative, Statement.leavesOfAlternative,
      Statement.filterMap_actionsOf hpicks body]

end

end

namespace Action

/-- What the action assigns in its scope. -/
def assignment? (scope : Scope) : Action → Option Assignment
  | assign target value => some ⟨scope, target, value⟩
  | _ => none

/-- What actions assign, each in its scope. -/
def assignments (actions : List (Scope × Action)) : List Assignment :=
  actions.filterMap fun (scope, action) => action.assignment? scope

end Action

theorem Statement.filterMap_declaration? (statements : List Statement) :
    (actionsOf statements).filterMap Action.declaration? = declarationsOf statements := by
  have hpicks : Picks Action.declaration? declaration? :=
    ⟨fun _ => rfl, fun statement => by cases statement <;> rfl⟩
  exact filterMap_actionsOf hpicks statements

theorem Statement.filterMap_assignment? (scope : Scope) (statements : List Statement) :
    (actionsOf statements).filterMap (Action.assignment? scope) =
      assignmentsOf scope statements := by
  have hpicks : Picks (Action.assignment? scope) (assignment? scope) :=
    ⟨fun _ => rfl, fun statement => by cases statement <;> rfl⟩
  exact filterMap_actionsOf hpicks statements

theorem FunctionDeclaration.filterMap_returned? (function : FunctionDeclaration) :
    function.actions.filterMap Action.returned? = function.returns := by
  have hpicks : Picks Action.returned? Statement.returned? :=
    ⟨fun _ => rfl, fun statement => by cases statement <;> rfl⟩
  exact Statement.filterMap_actionsOf hpicks function.body

/-- The first return of a function is the one that comes first as the body is written. -/
theorem FunctionDeclaration.firstReturn?_eq_head?_returns (function : FunctionDeclaration) :
    function.firstReturn? = function.returns.head? := by
  rw [firstReturn?, ← filterMap_returned?, List.head?_filterMap]

theorem Action.assignments_append (before after : List (Scope × Action)) :
    assignments (before ++ after) = assignments before ++ assignments after :=
  List.filterMap_append

theorem Action.assignments_map (scope : Scope) (actions : List Action) :
    assignments (actions.map fun action => (scope, action)) =
      actions.filterMap (assignment? scope) :=
  List.filterMap_map

theorem FunctionDeclaration.assignments_actions (function : FunctionDeclaration) :
    Action.assignments (function.actions.map fun action => (function.scope, action)) =
      Statement.assignmentsOf function.scope function.body := by
  rw [Action.assignments_map, actions, Statement.filterMap_assignment?]

/-- The assignments among the actions of a program are those that are written in it. -/
theorem CompilationUnit.assignments_actions (unit : CompilationUnit) :
    Action.assignments unit.actions = unit.assignments := by
  have hdeclarations : Action.assignments (unit.declarations.map fun declaration =>
      (.unit, .declare declaration)) = [] := by
    rw [Action.assignments, List.filterMap_map, List.filterMap_eq_nil_iff]
    exact fun _ _ => rfl
  have hfunctions : Action.assignments (unit.functions.flatMap fun function =>
      function.actions.map fun action => (function.scope, action)) =
        unit.functions.flatMap fun function =>
          Statement.assignmentsOf function.scope function.body := by
    rw [Action.assignments, List.filterMap_flatMap]
    exact congrArg unit.functions.flatMap (funext FunctionDeclaration.assignments_actions)
  rw [actions, assignments, Action.assignments_append, Action.assignments_append, hdeclarations,
    hfunctions, Action.assignments_map, Statement.filterMap_assignment?, List.nil_append]

end FrontEnd
