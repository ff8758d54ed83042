import FrontEnd.Analysis.Unit
import FrontEnd.Proofs.Grammar.Tokens
import FrontEnd.Proofs.Registration.Basic

/-!
Where analysis finds something wrong. Whatever it reports lies at a token that the program keeps.
-/

namespace FrontEnd

/-- Every problem but that of a call that stands for a value and gives nothing back. -/
def SemanticProblem.isOrdinary : SemanticProblem → Bool
  | noReturnValue _ => false
  | _ => true

/-- Every diagnostic is about a problem of the given sort, at one of the tokens. -/
def Reports (sort : SemanticProblem → Bool) (tokens : List Token) (diagnostics : List Diagnostic) :
    Prop :=
  ∀ d ∈ diagnostics, ∃ problem t, sort problem = true ∧ t ∈ tokens ∧ d = .ofMeaning problem t

namespace Reports

variable {sort : SemanticProblem → Bool} {tokens others : List Token}

theorem nil : Reports sort tokens [] :=
  fun _ hd => absurd hd List.not_mem_nil

theorem ofMeaning {problem : SemanticProblem} {token : Token} (hmem : token ∈ tokens)
    (hsort : sort problem = true) : Reports sort tokens [.ofMeaning problem token] := by
  intro d hd
  obtain rfl := List.mem_singleton.mp hd
  exact ⟨problem, token, hsort, hmem, rfl⟩

theorem append {first second : List Diagnostic} (hfirst : Reports sort tokens first)
    (hsecond : Reports sort tokens second) : Reports sort tokens (first ++ second) := by
  intro d hd
  exact (List.mem_append.mp hd).elim (hfirst d) (hsecond d)

theorem mono {diagnostics : List Diagnostic} (hreports : Reports sort tokens diagnostics)
    (hsubset : tokens ⊆ others) : Reports sort others diagnostics := by
  intro d hd
  obtain ⟨problem, t, hsort, hmem, hd⟩ := hreports d hd
  exact ⟨problem, t, hsort, hsubset hmem, hd⟩

theorem anySort {diagnostics : List Diagnostic} (hreports : Reports sort tokens diagnostics) :
    Reports (fun _ => true) tokens diagnostics := by
  intro d hd
  obtain ⟨problem, t, -, hmem, hd⟩ := hreports d hd
  exact ⟨problem, t, rfl, hmem, hd⟩

theorem flatMap {α : Type} {items : List α} {found : α → List Diagnostic}
    (hitems : ∀ item ∈ items, Reports sort tokens (found item)) :
    Reports sort tokens (items.flatMap found) := by
  intro d hd
  obtain ⟨item, hmem, hd⟩ := List.mem_flatMap.mp hd
  exact hitems item hmem d hd

theorem ite {condition : Prop} [Decidable condition] {first second : List Diagnostic}
    (hfirst : Reports sort tokens first) (hsecond : Reports sort tokens second) :
    Reports sort tokens (if condition then first else second) := by
  split
  · exact hfirst
  · exact hsecond

end Reports

/-! ### Operands and values -/

theorem Operand.checkOperator_reports (env : Environment) (left right : Operand)
    (operator : Token) :
    Reports SemanticProblem.isOrdinary [operator] (checkOperator env left operator right) := by
  unfold checkOperator
  have hmem := List.mem_singleton_self operator
  refine .ite .nil ?_
  split
  · exact .ite .nil (.ofMeaning hmem rfl)
  · exact .ite (.ofMeaning hmem rfl) .nil
  · exact .nil

theorem Operand.check_reports (env : Environment) (operand : Operand) :
    Reports SemanticProblem.isOrdinary operand.tokens (operand.check env) := by
  induction operand with
  | binary left operator right ihleft ihright =>
    refine .append (.append (ihleft.mono ?_) (ihright.mono ?_))
      ((checkOperator_reports env left right operator).mono ?_) <;>
      simp [tokens]
  | unary operator operand ih => exact ih.mono (List.subset_cons_self _ _)
  | token t => exact .ite (.ofMeaning (List.mem_singleton_self t) rfl) .nil
  | numeric value => exact .nil

namespace ArrayElement

theorem mismatches_reports (env : Environment) (elements : List ArrayElement) :
    Reports SemanticProblem.isOrdinary (tokensOf elements) (mismatches env elements) := by
  cases elements with
  | nil => exact .nil
  | cons first rest =>
    rw [mismatches]
    split
    · exact .nil
    · intro d hd
      obtain ⟨element, hmem, hfound⟩ := List.mem_filterMap.mp hd
      obtain ⟨found, -, rfl⟩ := Option.map_eq_some_iff.mp hfound
      refine ⟨_, element.firstToken, rfl, ?_, rfl⟩
      rw [tokensOf_eq_flatMap]
      exact List.mem_flatMap.mpr
        ⟨element, List.mem_cons_of_mem _ hmem, element.firstToken_mem_tokens⟩

mutual

theorem check_reports (env : Environment) (element : ArrayElement) :
    Reports SemanticProblem.isOrdinary element.tokens (element.check env) := by
  match element with
  | .operand o =>
    rw [check, tokens]
    exact o.check_reports env
  | .array bracket elements =>
    rw [check, tokens]
    have hinner := (checkAll_reports env elements).append (mismatches_reports env elements)
    exact hinner.mono (List.subset_cons_self _ _)

theorem checkAll_reports (env : Environment) (elements : List ArrayElement) :
    Reports SemanticProblem.isOrdinary (tokensOf elements) (checkAll env elements) := by
  match elements with
  | [] =>
    rw [checkAll]
    exact .nil
  | element :: rest =>
    rw [checkAll, tokensOf]
    exact ((element.check_reports env).mono (List.subset_append_left _ _)).append
      ((checkAll_reports env rest).mono (List.subset_append_right _ _))

end

end ArrayElement

namespace Call

theorem tokens_subset_of_mem {call : Call} {argument : Operand}
    (hmem : argument ∈ call.arguments) : argument.tokens ⊆ call.tokens :=
  fun _ ht => List.mem_cons_of_mem _ (List.mem_flatMap.mpr ⟨argument, hmem, ht⟩)

theorem checkParameters_reports (env : Environment) (call : Call)
    (parameterTypes : List ValueType) :
    Reports SemanticProblem.isOrdinary call.tokens (call.checkParameters env parameterTypes) := by
  refine .append (.ite .nil (.ofMeaning List.mem_cons_self rfl)) (.flatMap ?_)
  rintro ⟨⟨argument, expected⟩, number⟩ hmem
  have hargument : argument ∈ call.arguments :=
    (List.of_mem_zip (List.fst_mem_of_mem_zipIdx hmem)).1
  exact .ite .nil (.ofMeaning (tokens_subset_of_mem hargument argument.firstToken_mem_tokens) rfl)

theorem check_reports (env : Environment) (call : Call) :
    Reports SemanticProblem.isOrdinary call.tokens (call.check env) := by
  refine .append ?_ (.flatMap fun argument hmem =>
    (argument.check_reports env).mono (tokens_subset_of_mem hmem))
  split
  · exact .ofMeaning List.mem_cons_self rfl
  · exact call.checkParameters_reports env _

theorem checkReturn_reports (env : Environment) (call : Call) :
    Reports (fun _ => true) call.tokens (call.checkReturn env) :=
  .ite (.ofMeaning List.mem_cons_self rfl) .nil

end Call

theorem Value.check_reports (env : Environment) (value : Value) :
    Reports (fun _ => true) value.tokens (value.check env) := by
  cases value with
  | call c => exact (c.check_reports env).anySort.append (c.checkReturn_reports env)
  | array a => exact (a.toElement.check_reports env).anySort
  | operand o => exact (o.check_reports env).anySort

theorem Payload.check_reports (env : Environment) (payload : Payload) :
    Reports SemanticProblem.isOrdinary payload.tokens (payload.check env) := by
  cases payload with
  | call c => exact c.check_reports env
  | operand o => exact o.check_reports env

/-! ### Actions and registrations -/

/-- The tokens that an action keeps. -/
def Action.tokens : Action → List Token
  | declare declaration => declaration.tokens
  | assign target value => target :: value.tokens
  | step _ target => [target]
  | use payload => payload.tokens
  | ret payload => payload.tokens

theorem Declaration.name_mem_tokens (declaration : Declaration) :
    declaration.name ∈ declaration.tokens := by
  cases declaration <;>
    simp [name, tokens, VariableDeclaration.tokens, ConstantDeclaration.tokens]

theorem Declaration.tokens_value?_subset {declaration : Declaration} {value : Value}
    (hvalue : declaration.value? = some value) : value.tokens ⊆ declaration.tokens := by
  cases declaration with
  | ofVariable declaration =>
    have hvalue : declaration.value = some value := hvalue
    simp [tokens, VariableDeclaration.tokens, hvalue]
  | ofConstant declaration =>
    obtain rfl := Option.some.inj hvalue
    simp [tokens, ConstantDeclaration.tokens]

theorem checkTarget_reports (env : Environment) (target : Token) :
    Reports SemanticProblem.isOrdinary [target] (checkTarget env target) := by
  unfold checkTarget
  split
  · exact .ofMeaning (List.mem_singleton_self target) rfl
  · exact .ite .nil (.ofMeaning (List.mem_singleton_self target) rfl)

theorem checkStep_reports (env : Environment) (direction : StepDirection) (target : Token) :
    Reports SemanticProblem.isOrdinary [target] (checkStep env direction target) := by
  have hmem := List.mem_singleton_self target
  unfold checkStep
  split
  · exact .ofMeaning hmem rfl
  · exact .append (.ite .nil (.ofMeaning hmem rfl)) (.ite .nil (.ofMeaning hmem rfl))

theorem Action.check_reports (env : Environment) (action : Action) :
    Reports (fun _ => true) action.tokens (action.check env) := by
  cases action with
  | declare declaration =>
    rw [check]
    cases hvalue : declaration.value? with
    | none => exact .nil
    | some value => exact (value.check_reports env).mono (Declaration.tokens_value?_subset hvalue)
  | assign target value =>
    refine .append ((checkTarget_reports env target).anySort.mono ?_)
      ((value.check_reports env).mono (List.subset_cons_self _ _))
    simp [tokens]
  | step direction target => exact (checkStep_reports env direction target).anySort
  | use payload => exact (payload.check_reports env).anySort
  | ret payload => exact (payload.check_reports env).anySort

mutual

theorem Statement.tokens_actions_subset (statement : Statement) {action : Action}
    (hmem : action ∈ statement.actions) : action.tokens ⊆ statement.tokens := by
  match statement with
  | .print _ _ | .ret _ _ | .read _ _ | .declare _ | .assign _ _ | .call _ | .step _ _ _ =>
    rw [Statement.actions] at hmem
    obtain rfl := List.mem_singleton.mp hmem
    simp [Action.tokens, Statement.tokens, Payload.tokens]
  | .decision keyword condition body alternative =>
    rw [Statement.actions] at hmem
    rw [Statement.tokens]
    intro t ht
    rcases List.mem_cons.mp hmem with rfl | hmem
    · have hcondition : t ∈ condition.tokens := ht
      simp [hcondition]
    · rcases List.mem_append.mp hmem with hmem | hmem
      · simp [Statement.tokens_actionsOf_subset body hmem ht]
      · simp [Statement.tokens_actionsOfAlternative_subset alternative hmem ht]
  | .loop keyword body condition =>
    rw [Statement.actions] at hmem
    rw [Statement.tokens]
    intro t ht
    rcases List.mem_append.mp hmem with hmem | hmem
    · simp [Statement.tokens_actionsOf_subset body hmem ht]
    · obtain rfl := List.mem_singleton.mp hmem
      have hcondition : t ∈ condition.tokens := ht
      simp [hcondition]

theorem Statement.tokens_actionsOf_subset (statements : List Statement) {action : Action}
    (hmem : action ∈ Statement.actionsOf statements) :
    action.tokens ⊆ Statement.tokensOf statements := by
  match statements with
  | [] =>
    rw [Statement.actionsOf] at hmem
    cases hmem
  | statement :: rest =>
    rw [Statement.actionsOf] at hmem
    rw [Statement.tokensOf]
    rcases List.mem_append.mp hmem with hmem | hmem
    · exact List.Subset.trans (statement.tokens_actions_subset hmem) (List.subset_append_left _ _)
    · exact List.Subset.trans (Statement.tokens_actionsOf_subset rest hmem)
        (List.subset_append_right _ _)

theorem Statement.tokens_actionsOfAlternative_subset (alternative : Option (List Statement))
    {action : Action} (hmem : action ∈ Statement.actionsOfAlternative alternative) :
    action.tokens ⊆ Statement.tokensOfAlternative alternative := by
  match alternative with
  | none =>
    rw [Statement.actionsOfAlternative] at hmem
    cases hmem
  | some body =>
    rw [Statement.actionsOfAlternative] at hmem
    rw [Statement.tokensOfAlternative]
    exact Statement.tokens_actionsOf_subset body hmem

end

theorem FunctionDeclaration.tokens_actions_subset (function : FunctionDeclaration)
    {action : Action} (hmem : action ∈ function.actions) : action.tokens ⊆ function.tokens :=
  List.Subset.trans (Statement.tokens_actionsOf_subset function.body hmem)
    (List.subset_append_right _ _)

namespace CompilationUnit

variable {unit : CompilationUnit}

theorem tokens_declaration_subset {declaration : Declaration}
    (hmem : declaration ∈ unit.declarations) : declaration.tokens ⊆ unit.tokens :=
  fun _ ht => List.mem_append_left _ (List.mem_append_left _
    (List.mem_flatMap.mpr ⟨declaration, hmem, ht⟩))

theorem tokens_function_subset {function : FunctionDeclaration} (hmem : function ∈ unit.functions) :
    function.tokens ⊆ unit.tokens :=
  fun _ ht => List.mem_append_left _ (List.mem_append_right _
    (List.mem_flatMap.mpr ⟨function, hmem, ht⟩))

theorem tokens_statements_subset : Statement.tokensOf unit.statements ⊆ unit.tokens :=
  List.subset_append_right _ _

theorem tokens_actions_subset {scope : Scope} {action : Action}
    (hmem : (scope, action) ∈ unit.actions) : action.tokens ⊆ unit.tokens := by
  rcases List.mem_append.mp hmem with hmem | hmem
  · rcases List.mem_append.mp hmem with hmem | hmem
    · obtain ⟨declaration, hdeclaration, heq⟩ := List.mem_map.mp hmem
      obtain ⟨rfl, rfl⟩ := Prod.mk.inj heq
      exact tokens_declaration_subset hdeclaration
    · obtain ⟨function, hfunction, hmem⟩ := List.mem_flatMap.mp hmem
      obtain ⟨inner, hinner, heq⟩ := List.mem_map.mp hmem
      obtain ⟨rfl, rfl⟩ := Prod.mk.inj heq
      exact List.Subset.trans (function.tokens_actions_subset hinner)
        (tokens_function_subset hfunction)
  · obtain ⟨inner, hinner, heq⟩ := List.mem_map.mp hmem
    obtain ⟨rfl, rfl⟩ := Prod.mk.inj heq
    exact List.Subset.trans (Statement.tokens_actionsOf_subset _ hinner) tokens_statements_subset

end CompilationUnit

/-- The name token of what is registered. -/
def Registration.name : Registration → Token
  | declaration _ d => d.name
  | parameter _ p => p.name
  | function f => f.name

theorem Registration.duplicate_symbol (registration : Registration) (table : SymbolTable) :
    ∃ problem : SemanticProblem, problem.isOrdinary = true ∧
      (registration.symbol table).duplicate = .ofMeaning problem registration.name := by
  cases registration <;> exact ⟨_, rfl, rfl⟩

theorem Registration.pass_reports (registration : Registration) (table : SymbolTable) :
    Reports SemanticProblem.isOrdinary [registration.name]
      (registration.pass table).diagnostics := by
  rw [pass]
  by_cases hfree : table.find? (registration.symbol table).key = none
  · rw [diagnostics_declare_of_free hfree]
    exact .nil
  · obtain ⟨problem, hsort, hduplicate⟩ := registration.duplicate_symbol table
    rw [diagnostics_declare_of_taken hfree, hduplicate]
    exact .ofMeaning (List.mem_singleton_self _) hsort

theorem Action.name_mem_of_registrations {scope : Scope} {actions : List Action}
    {registration : Registration} (hmem : registration ∈ Action.registrations scope actions) :
    ∃ action ∈ actions, registration.name ∈ action.tokens := by
  obtain ⟨declaration, hdeclaration, rfl⟩ := List.mem_map.mp hmem
  obtain ⟨action, haction, hdeclares⟩ := List.mem_filterMap.mp hdeclaration
  refine ⟨action, haction, ?_⟩
  cases action with
  | declare inner =>
    obtain rfl := Option.some.inj hdeclares
    exact inner.name_mem_tokens
  | assign | step | use | ret => cases hdeclares

theorem FunctionDeclaration.name_mem_of_registrations {function : FunctionDeclaration}
    {registration : Registration} (hmem : registration ∈ function.registrations) :
    registration.name ∈ function.tokens := by
  rcases List.mem_append.mp hmem with hmem | hmem
  · rcases List.mem_append.mp hmem with hmem | hmem
    · obtain ⟨parameter, hparameter, rfl⟩ := List.mem_map.mp hmem
      have hname : parameter.name ∈ function.parameters.flatMap Parameter.tokens :=
        List.mem_flatMap.mpr ⟨parameter, hparameter, by simp [Parameter.tokens]⟩
      simp [tokens, Registration.name, hname]
    · obtain ⟨action, haction, hname⟩ := Action.name_mem_of_registrations hmem
      exact function.tokens_actions_subset haction hname
  · obtain rfl := List.mem_singleton.mp hmem
    simp [tokens, Registration.name]

/-! ### The whole program -/

/-- What a sequence of passes finds is what one of them finds in the table that those before it
leave. -/
theorem Pass.mem_diagnostics_sequence_iff {passes : List Pass} {table : SymbolTable}
    {d : Diagnostic} :
    d ∈ (sequence passes table).diagnostics ↔ ∃ before pass after,
      passes = before ++ pass :: after ∧ d ∈ (pass (sequence before table).table).diagnostics := by
  constructor
  · intro hmem
    induction passes generalizing table with
    | nil => exact absurd hmem List.not_mem_nil
    | cons pass rest ih =>
      rcases List.mem_append.mp hmem with hmem | hmem
      · exact ⟨[], pass, rest, rfl, hmem⟩
      · have hrest : d ∈ (sequence rest (pass table).table).diagnostics := hmem
        obtain ⟨before, later, after, rfl, hlater⟩ := ih hrest
        exact ⟨pass :: before, later, after, rfl, hlater⟩
  · rintro ⟨before, pass, after, rfl, hmem⟩
    rw [sequence_append, sequence_cons]
    exact List.mem_append_right _ (List.mem_append_left _ hmem)

namespace CompilationUnit

theorem name_mem_of_registrations {unit : CompilationUnit} {registration : Registration}
    (hmem : registration ∈ unit.registrations) : registration.name ∈ unit.tokens := by
  rcases List.mem_append.mp hmem with hmem | hmem
  · rcases List.mem_append.mp hmem with hmem | hmem
    · obtain ⟨declaration, hdeclaration, rfl⟩ := List.mem_map.mp hmem
      exact tokens_declaration_subset hdeclaration declaration.name_mem_tokens
    · obtain ⟨function, hfunction, hmem⟩ := List.mem_flatMap.mp hmem
      exact tokens_function_subset hfunction
        (FunctionDeclaration.name_mem_of_registrations hmem)
  · obtain ⟨action, haction, hname⟩ := Action.name_mem_of_registrations hmem
    exact tokens_statements_subset (Statement.tokens_actionsOf_subset _ haction hname)

theorem diagnostics_register_reports (unit : CompilationUnit) (table : SymbolTable) :
    Reports SemanticProblem.isOrdinary unit.tokens (unit.register table).diagnostics := by
  intro d hd
  obtain ⟨before, pass, after, hpasses, hd⟩ := Pass.mem_diagnostics_sequence_iff.mp hd
  obtain ⟨registration, hmem, rfl⟩ := List.mem_map.mp (hpasses ▸ List.mem_append_cons_self)
  have hname := name_mem_of_registrations hmem
  exact (registration.pass_reports _).mono (by simpa using hname) d hd

theorem diagnostics_validate_reports (unit : CompilationUnit) (table : SymbolTable) :
    Reports (fun _ => true) unit.tokens (unit.validate table).diagnostics := by
  intro d hd
  obtain ⟨before, pass, after, hpasses, hd⟩ := Pass.mem_diagnostics_sequence_iff.mp hd
  obtain ⟨⟨scope, action⟩, hmem, rfl⟩ := List.mem_map.mp (hpasses ▸ List.mem_append_cons_self)
  exact (action.check_reports _).mono (tokens_actions_subset hmem) d hd

/-- Whatever analysis reports is a fault in the use of names and types, at a token that the program
keeps. -/
theorem diagnostics_analyze_reports (unit : CompilationUnit) :
    Reports (fun _ => true) unit.tokens unit.analyze.diagnostics :=
  (unit.diagnostics_register_reports ∅).anySort.append (unit.diagnostics_validate_reports _)

end CompilationUnit

end FrontEnd
