import FrontEnd.Analysis.Unit
import FrontEnd.Proofs.Relabeling.Check

/-!
Analysis commutes with relabeling: a relabeled program leaves the relabeled symbols, and the same
diagnostics under new labels and in the same order.
-/

namespace FrontEnd

variable {r : Relabeling}

/-! ### Actions and registrations -/

def Action.relabel (r : Relabeling) : Action → Action
  | declare declaration => .declare (declaration.relabel r)
  | assign target value => .assign (target.renamed r) (value.relabel r)
  | step direction target => .step direction (target.renamed r)
  | use payload => .use (payload.relabel r)
  | ret payload => .ret (payload.relabel r)

def Registration.relabel (r : Relabeling) : Registration → Registration
  | declaration scope d => .declaration (r.scope scope) (d.relabel r)
  | parameter scope p => .parameter (r.scope scope) (p.relabel r)
  | function f => .function (f.relabel r)

mutual

theorem Statement.actions_relabel (statement : Statement) :
    (statement.relabel r).actions = statement.actions.map (Action.relabel r) := by
  match statement with
  | .print _ _ | .ret _ _ | .read _ _ | .declare _ | .assign _ _ | .call _ | .step _ _ _ =>
    rw [Statement.relabel, Statement.actions, Statement.actions]
    rfl
  | .decision keyword condition body alternative =>
    rw [Statement.relabel, Statement.actions, Statement.actions, Statement.actionsOf_relabel body,
      Statement.actionsOfAlternative_relabel alternative, List.map_cons, List.map_append]
    rfl
  | .loop keyword body condition =>
    rw [Statement.relabel, Statement.actions, Statement.actions, Statement.actionsOf_relabel body,
      List.map_append]
    rfl

theorem Statement.actionsOf_relabel (statements : List Statement) :
    Statement.actionsOf (Statement.relabelAll r statements) =
      (Statement.actionsOf statements).map (Action.relabel r) := by
  match statements with
  | [] =>
    rw [Statement.relabelAll, Statement.actionsOf]
    rfl
  | statement :: rest =>
    rw [Statement.relabelAll, Statement.actionsOf, Statement.actionsOf,
      Statement.actions_relabel statement, Statement.actionsOf_relabel rest, List.map_append]

theorem Statement.actionsOfAlternative_relabel (alternative : Option (List Statement)) :
    Statement.actionsOfAlternative (Statement.relabelAlternative r alternative) =
      (Statement.actionsOfAlternative alternative).map (Action.relabel r) := by
  match alternative with
  | none =>
    rw [Statement.relabelAlternative, Statement.actionsOfAlternative]
    rfl
  | some body =>
    rw [Statement.relabelAlternative, Statement.actionsOfAlternative,
      Statement.actionsOfAlternative, Statement.actionsOf_relabel body]

end

theorem Statement.actionsOf_map_relabel (statements : List Statement) :
    Statement.actionsOf (statements.map (Statement.relabel r)) =
      (Statement.actionsOf statements).map (Action.relabel r) := by
  rw [← Statement.relabelAll_eq_map, Statement.actionsOf_relabel]

theorem FunctionDeclaration.scope_relabel (hr : r.Faithful) (function : FunctionDeclaration) :
    (function.relabel r).scope = r.scope function.scope :=
  (hr.scope_function function.name.lexeme).symm

theorem FunctionDeclaration.actions_relabel (function : FunctionDeclaration) :
    (function.relabel r).actions = function.actions.map (Action.relabel r) :=
  Statement.actionsOf_map_relabel function.body

theorem FunctionDeclaration.parameterTypes_relabel (function : FunctionDeclaration) :
    (function.relabel r).parameterTypes = function.parameterTypes := by
  unfold FunctionDeclaration.parameterTypes FunctionDeclaration.relabel
  rw [List.map_map]
  rfl

theorem FunctionDeclaration.firstReturn?_relabel (function : FunctionDeclaration) :
    (function.relabel r).firstReturn? = function.firstReturn?.map (Payload.relabel r) := by
  unfold FunctionDeclaration.firstReturn?
  rw [FunctionDeclaration.actions_relabel, List.findSome?_map, List.map_findSome?]
  congr 1
  funext action
  cases action <;> rfl

theorem Action.registrations_relabel (scope : Scope) (actions : List Action) :
    Action.registrations (r.scope scope) (actions.map (Action.relabel r)) =
      (Action.registrations scope actions).map (Registration.relabel r) := by
  unfold Action.registrations
  induction actions with
  | nil => rfl
  | cons action rest ih =>
    cases action with
    | declare declaration =>
      exact congrArg (.declaration (r.scope scope) (declaration.relabel r) :: ·) ih
    | _ => exact ih

theorem FunctionDeclaration.registrations_relabel (hr : r.Faithful)
    (function : FunctionDeclaration) :
    (function.relabel r).registrations = function.registrations.map (Registration.relabel r) := by
  have hparameters : (function.relabel r).parameters.map (.parameter (r.scope function.scope)) =
      (function.parameters.map (.parameter function.scope)).map (Registration.relabel r) := by
    rw [FunctionDeclaration.relabel, List.map_map, List.map_map]
    rfl
  unfold FunctionDeclaration.registrations
  rw [FunctionDeclaration.scope_relabel hr, FunctionDeclaration.actions_relabel, hparameters,
    Action.registrations_relabel, List.map_append, List.map_append]
  rfl

theorem CompilationUnit.registrations_relabel (hr : r.Faithful) (unit : CompilationUnit) :
    (unit.relabel r).registrations = unit.registrations.map (Registration.relabel r) := by
  have hdeclarations : (unit.relabel r).declarations.map (.declaration .unit) =
      (unit.declarations.map (.declaration .unit)).map (Registration.relabel r) := by
    rw [CompilationUnit.relabel, List.map_map, List.map_map]
    refine List.map_congr_left fun declaration _ => ?_
    rw [Function.comp_apply, Function.comp_apply, Registration.relabel, hr.scope_unit]
  have hfunctions : (unit.relabel r).functions.flatMap FunctionDeclaration.registrations =
      (unit.functions.flatMap FunctionDeclaration.registrations).map (Registration.relabel r) := by
    rw [CompilationUnit.relabel, List.flatMap_map, List.map_flatMap]
    simp only [FunctionDeclaration.registrations_relabel hr]
  have hstatements : Action.registrations .unit (Statement.actionsOf (unit.relabel r).statements) =
      (Action.registrations .unit (Statement.actionsOf unit.statements)).map
        (Registration.relabel r) := by
    rw [CompilationUnit.relabel, Statement.actionsOf_map_relabel, ← Action.registrations_relabel,
      hr.scope_unit]
  unfold CompilationUnit.registrations
  rw [hdeclarations, hfunctions, hstatements, List.map_append, List.map_append]

theorem CompilationUnit.actions_relabel (hr : r.Faithful) (unit : CompilationUnit) :
    (unit.relabel r).actions =
      unit.actions.map fun entry => (r.scope entry.1, entry.2.relabel r) := by
  unfold CompilationUnit.actions CompilationUnit.relabel
  simp only [List.map_append, List.map_map, List.flatMap_map, List.map_flatMap,
    FunctionDeclaration.actions_relabel, FunctionDeclaration.scope_relabel hr,
    Statement.actionsOf_map_relabel, Function.comp_def, hr.scope_unit, Action.relabel]

/-! ### Passes -/

/-- From a relabeled table the second pass does what the first one does, under new labels. -/
def Pass.Relabels (r : Relabeling) (first second : Pass) : Prop :=
  ∀ table other, table.Relabels r other →
    RelabelsAll r (first table).diagnostics (second other).diagnostics ∧
      (first table).table.Relabels r (second other).table

theorem Pass.Relabels.andThen {first second other next : Pass} (hfirst : first.Relabels r other)
    (hsecond : second.Relabels r next) :
    (first.andThen second).Relabels r (other.andThen next) := by
  intro table relabeled htable
  obtain ⟨hdiagnostics, hafter⟩ := hfirst table relabeled htable
  obtain ⟨hmore, hlast⟩ := hsecond _ _ hafter
  exact ⟨List.rel_append hdiagnostics hmore, hlast⟩

theorem relabels_sequence {α β : Type} {items : List α} {label : α → β} {pass : α → Pass}
    {other : β → Pass} (hall : ∀ item ∈ items, (pass item).Relabels r (other (label item))) :
    (Pass.sequence (items.map pass)).Relabels r (.sequence ((items.map label).map other)) := by
  induction items with
  | nil => exact fun table relabeled htable => ⟨.nil, htable⟩
  | cons item rest ih =>
    obtain ⟨hitem, hrest⟩ := List.forall_mem_cons.mp hall
    exact hitem.andThen (ih hrest)

theorem declare_relabels (hr : r.Faithful) (symbol : Symbol) :
    (Pass.declare symbol).Relabels r (.declare (symbol.relabel r)) := by
  intro table other htable
  have hfind : other.find? (symbol.relabel r).key =
      (table.find? symbol.key).map (Symbol.relabel r) := by
    rw [Symbol.key_relabel, htable.find? hr]
  by_cases hfree : table.find? symbol.key = none
  · obtain ⟨hinserted, hafter⟩ := SymbolTable.insert_of_free hfree
    rw [hfree, Option.map_none] at hfind
    obtain ⟨hinserted', hafter'⟩ := SymbolTable.insert_of_free hfind
    simp only [Pass.declare, SymbolTable.register, SymbolTable.Relabels, hinserted, hinserted',
      if_pos]
    refine ⟨.nil, ?_⟩
    rw [hafter, hafter', htable, List.map_append, List.map_singleton]
  · have htaken : other.find? (symbol.relabel r).key ≠ none := by
      rw [hfind]
      simpa using hfree
    obtain ⟨hinserted, hafter⟩ := SymbolTable.insert_of_taken hfree
    obtain ⟨hinserted', hafter'⟩ := SymbolTable.insert_of_taken htaken
    simp only [Pass.declare, SymbolTable.register, SymbolTable.Relabels, hinserted, hinserted',
      Bool.false_eq_true, if_false]
    refine ⟨.cons (.inMeaning (.duplicateSymbol symbol.name symbol.scope)) .nil, ?_⟩
    rw [hafter, hafter', htable]

theorem Declaration.value?_relabel (declaration : Declaration) :
    (declaration.relabel r).value? = declaration.value?.map (Value.relabel r) := by
  cases declaration <;> rfl

theorem bind_type?_relabel (hr : r.Faithful) {env other : Environment} (henv : env.Relabels r other)
    (value : Option Value) :
    (value.map (Value.relabel r)).bind (Value.type? other) = value.bind (Value.type? env) := by
  cases value with
  | none => rfl
  | some value => exact value.type?_relabel hr henv

theorem Registration.symbol_relabel (hr : r.Faithful) {table other : SymbolTable}
    (htable : table.Relabels r other) (registration : Registration) :
    (registration.relabel r).symbol other = (registration.symbol table).relabel r := by
  cases registration with
  | declaration scope declaration =>
    have henv : Environment.Relabels r ⟨table, scope⟩ ⟨other, r.scope scope⟩ := ⟨htable, rfl⟩
    simp only [Registration.relabel, Registration.symbol, Declaration.value?_relabel,
      bind_type?_relabel hr henv]
    cases declaration <;> rfl
  | parameter scope parameter => rfl
  | function function =>
    have henv : Environment.Relabels r ⟨table, function.scope⟩ ⟨other, r.scope function.scope⟩ :=
      ⟨htable, rfl⟩
    have htype : ((function.relabel r).firstReturn?).bind
        (Payload.type? ⟨other, r.scope function.scope⟩) =
          function.firstReturn?.bind (Payload.type? ⟨table, function.scope⟩) := by
      rw [FunctionDeclaration.firstReturn?_relabel]
      cases function.firstReturn? with
      | none => rfl
      | some payload => exact payload.type?_relabel hr henv
    simp only [Registration.relabel, Registration.symbol, FunctionDeclaration.scope_relabel hr,
      FunctionDeclaration.parameterTypes_relabel, htype]
    unfold Symbol.function Symbol.relabel
    simp only [hr.scope_unit]
    rfl

theorem register_relabels (hr : r.Faithful) (unit : CompilationUnit) :
    unit.register.Relabels r (unit.relabel r).register := by
  unfold CompilationUnit.register
  rw [CompilationUnit.registrations_relabel hr]
  refine relabels_sequence fun registration _ table other htable => ?_
  unfold Registration.pass
  rw [Registration.symbol_relabel hr htable]
  exact declare_relabels hr _ table other htable

theorem action_relabels (hr : r.Faithful) (scope : Scope) (action : Action) :
    (action.pass scope).Relabels r ((action.relabel r).pass (r.scope scope)) := by
  intro table other htable
  have henv : Environment.Relabels r ⟨table, scope⟩ ⟨other, r.scope scope⟩ := ⟨htable, rfl⟩
  cases action with
  | declare declaration =>
    refine ⟨?_, htable⟩
    simp only [Action.pass, Action.relabel, Action.check, Declaration.value?_relabel]
    cases declaration.value? with
    | none => exact .nil
    | some value => exact check_value_relabels hr henv value
  | assign target value =>
    have htarget := checkTarget_relabels hr henv target
    exact ⟨List.rel_append htarget (check_value_relabels hr henv value),
      retypeTarget_relabels hr henv target value⟩
  | step direction target => exact ⟨checkStep_relabels hr henv direction target, htable⟩
  | use payload => exact ⟨check_payload_relabels hr henv payload, htable⟩
  | ret payload => exact ⟨check_payload_relabels hr henv payload, htable⟩

theorem validate_relabels (hr : r.Faithful) (unit : CompilationUnit) :
    unit.validate.Relabels r (unit.relabel r).validate := by
  unfold CompilationUnit.validate
  rw [CompilationUnit.actions_relabel hr]
  exact relabels_sequence fun entry _ => action_relabels hr entry.1 entry.2

/-- Analysis of a relabeled program finds the same under new labels. -/
theorem analyze_relabels (hr : r.Faithful) (unit : CompilationUnit) :
    RelabelsAll r unit.analyze.diagnostics (unit.relabel r).analyze.diagnostics ∧
      unit.analyze.table.Relabels r (unit.relabel r).analyze.table :=
  ((register_relabels hr unit).andThen (validate_relabels hr unit)) ∅ ∅ rfl

end FrontEnd
