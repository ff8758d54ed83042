import FrontEnd.Compilation.Basic
import FrontEnd.Proofs.Places.Semantic
import FrontEnd.Proofs.Registration.First

/-!
Calls that stand for values. A call is reported to give nothing back if its function has no return,
and just as well if the type of the first return cannot be told when the function is registered.
-/

namespace FrontEnd

/-! ### Returns at any depth -/

/-- A return of the payload stands in the statement, however deep. -/
inductive Statement.Returns (payload : Payload) : Statement → Prop
  | ret {keyword : Token} : Returns payload (.ret keyword payload)
  | body {keyword : Token} {condition : Operand} {body : List Statement}
      {alternative : Option (List Statement)} {inner : Statement} (hmem : inner ∈ body)
      (hinner : Returns payload inner) :
      Returns payload (.decision keyword condition body alternative)
  | alternative {keyword : Token} {condition : Operand} {body others : List Statement}
      {inner : Statement} (hmem : inner ∈ others) (hinner : Returns payload inner) :
      Returns payload (.decision keyword condition body (some others))
  | loop {keyword : Token} {body : List Statement} {condition : Operand} {inner : Statement}
      (hmem : inner ∈ body) (hinner : Returns payload inner) :
      Returns payload (.loop keyword body condition)

/-- A return of the payload stands in the body of the function, however deep. -/
def FunctionDeclaration.Returns (payload : Payload) (function : FunctionDeclaration) : Prop :=
  ∃ statement ∈ function.body, statement.Returns payload

variable {payload : Payload}

mutual

theorem Statement.mem_returned_iff_returns (statement : Statement) :
    payload ∈ statement.leaves.filterMap Statement.returned? ↔ statement.Returns payload := by
  match statement with
  | .print _ _ | .read _ _ | .declare _ | .assign _ _ | .call _ | .step _ _ _ =>
    rw [Statement.leaves]
    exact ⟨nofun, nofun⟩
  | .ret keyword returned =>
    have hreturned : [Statement.ret keyword returned].filterMap Statement.returned? = [returned] :=
      rfl
    rw [Statement.leaves, hreturned, List.mem_singleton]
    constructor
    · rintro rfl
      exact .ret
    · rintro ⟨⟩
      rfl
  | .decision keyword condition body alternative =>
    have hbody := Statement.mem_returnedOf_iff_returns body
    have halternative := Statement.mem_returnedOfAlternative_iff_returns alternative
    rw [Statement.leaves, List.filterMap_append, List.mem_append, hbody, halternative]
    constructor
    · rintro (⟨inner, hmem, hinner⟩ | ⟨others, rfl, inner, hmem, hinner⟩)
      · exact .body hmem hinner
      · exact .alternative hmem hinner
    · intro hreturns
      cases hreturns with
      | body hmem hinner => exact .inl ⟨_, hmem, hinner⟩
      | alternative hmem hinner => exact .inr ⟨_, rfl, _, hmem, hinner⟩
  | .loop keyword body condition =>
    rw [Statement.leaves, Statement.mem_returnedOf_iff_returns body]
    constructor
    · rintro ⟨inner, hmem, hinner⟩
      exact .loop hmem hinner
    · intro hreturns
      cases hreturns with
      | loop hmem hinner => exact ⟨_, hmem, hinner⟩

theorem Statement.mem_returnedOf_iff_returns (statements : List Statement) :
    payload ∈ (Statement.leavesOf statements).filterMap Statement.returned? ↔
      ∃ statement ∈ statements, statement.Returns payload := by
  match statements with
  | [] =>
    rw [Statement.leavesOf]
    simp
  | statement :: rest =>
    rw [Statement.leavesOf, List.filterMap_append, List.mem_append,
      statement.mem_returned_iff_returns, Statement.mem_returnedOf_iff_returns rest]
    simp

theorem Statement.mem_returnedOfAlternative_iff_returns (alternative : Option (List Statement)) :
    payload ∈ (Statement.leavesOfAlternative alternative).filterMap Statement.returned? ↔
      ∃ statements, alternative = some statements ∧
        ∃ statement ∈ statements, statement.Returns payload := by
  match alternative with
  | none =>
    rw [Statement.leavesOfAlternative]
    simp
  | some body =>
    rw [Statement.leavesOfAlternative, Statement.mem_returnedOf_iff_returns body]
    simp

end

namespace FunctionDeclaration

theorem mem_returns_iff {function : FunctionDeclaration} :
    payload ∈ function.returns ↔ function.Returns payload :=
  Statement.mem_returnedOf_iff_returns function.body

theorem head?_returns_eq_none_iff (function : FunctionDeclaration) :
    function.returns.head? = none ↔ ∀ payload, ¬ function.Returns payload := by
  simp only [List.head?_eq_none_iff, List.eq_nil_iff_forall_not_mem, mem_returns_iff]

end FunctionDeclaration

/-! ### Calls that stand for values -/

/-- The call that gives the value, if it is one. -/
def Value.call? : Value → Option Call
  | call c => some c
  | _ => none

/-- The call that an action gives to a name, as its first value or in an assignment. -/
def Action.givenCall? : Action → Option Call
  | declare declaration => declaration.value?.bind Value.call?
  | assign _ value => value.call?
  | _ => none

/-- The report on a call that stands for a value and gives nothing back. -/
def missingReturn (name : String) (location : Location) : Diagnostic :=
  ⟨.inMeaning (.noReturnValue name), location⟩

theorem Reports.missingReturn_notMem {tokens : List Token} {diagnostics : List Diagnostic}
    (hreports : Reports SemanticProblem.isOrdinary tokens diagnostics) (name : String)
    (location : Location) : missingReturn name location ∉ diagnostics := by
  intro hmem
  obtain ⟨problem, t, hordinary, -, hd⟩ := hreports _ hmem
  obtain rfl : SemanticProblem.noReturnValue name = problem :=
    Problem.inMeaning.inj (Diagnostic.mk.inj hd).1
  cases hordinary

/-- The call is of the given name, and the function of that name has no type. -/
structure Call.GivesNothing (call : Call) (env : Environment) (name : String)
    (location : Location) : Prop where
  name_eq : call.name.lexeme = name
  location_eq : call.name.location = location
  untyped : ∃ symbol, env.function? name = some symbol ∧ symbol.type = none

section GivesNothing

variable {env : Environment} {name : String} {location : Location}

theorem Call.mem_checkReturn_iff (call : Call) :
    missingReturn name location ∈ call.checkReturn env ↔ call.GivesNothing env name location := by
  have huntyped : ((env.function? call.name.lexeme).any fun function => function.type.isNone) =
      true ↔ ∃ symbol, env.function? call.name.lexeme = some symbol ∧ symbol.type = none := by
    cases env.function? call.name.lexeme <;> simp
  rw [checkReturn]
  split
  · next hreports =>
    rw [List.mem_singleton]
    constructor
    · intro hsame
      obtain ⟨hproblem, hlocation⟩ := Diagnostic.mk.inj hsame
      obtain rfl := SemanticProblem.noReturnValue.inj (Problem.inMeaning.inj hproblem)
      exact ⟨rfl, hlocation.symm, huntyped.mp hreports⟩
    · rintro ⟨rfl, rfl, -⟩
      rfl
  · next hsilent =>
    refine iff_of_false List.not_mem_nil ?_
    rintro ⟨rfl, -, hnone⟩
    exact hsilent (huntyped.mpr hnone)

theorem Value.mem_check_iff_givesNothing (value : Value) :
    missingReturn name location ∈ value.check env ↔
      ∃ call, value.call? = some call ∧ call.GivesNothing env name location := by
  cases value with
  | call c =>
    have hother := (c.check_reports env).missingReturn_notMem name location
    rw [check, List.mem_append, c.mem_checkReturn_iff]
    simp [hother, call?]
  | array a =>
    have hother := (a.toElement.check_reports env).missingReturn_notMem name location
    simp [check, hother, call?]
  | operand o =>
    have hother := (o.check_reports env).missingReturn_notMem name location
    simp [check, hother, call?]

theorem Action.mem_check_iff_givesNothing (action : Action) :
    missingReturn name location ∈ action.check env ↔
      ∃ call, action.givenCall? = some call ∧ call.GivesNothing env name location := by
  cases action with
  | declare declaration =>
    rw [check, givenCall?]
    cases declaration.value? with
    | none => simp
    | some value => exact value.mem_check_iff_givesNothing
  | assign target value =>
    have hother := (checkTarget_reports env target).missingReturn_notMem name location
    rw [check, List.mem_append, value.mem_check_iff_givesNothing]
    simp [hother, givenCall?]
  | step direction target =>
    have hother := (checkStep_reports env direction target).missingReturn_notMem name location
    simp [check, hother, givenCall?]
  | use payload | ret payload =>
    have hother := (payload.check_reports env).missingReturn_notMem name location
    simp [check, hother, givenCall?]

end GivesNothing

namespace CompilationUnit

variable {unit : CompilationUnit}

theorem returnTypeOf_eq_none_iff (function : FunctionDeclaration) :
    unit.returnTypeOf function = none ↔ (∀ payload, ¬ function.Returns payload) ∨
      ∃ payload, function.returns.head? = some payload ∧
        payload.type? ⟨Registration.tableBefore unit.registrations ∅
          (.function function.name.lexeme), function.scope⟩ = none := by
  rw [returnTypeOf, ← function.head?_returns_eq_none_iff]
  cases function.returns.head? <;> simp

/-- Wherever validation stands, it knows the functions as they were registered. -/
theorem exists_untyped_iff {before : List (Scope × Action)} {name : String} :
    (∃ symbol, (Pass.sequence (before.map fun (scope, action) => action.pass scope)
        (unit.register ∅).table).table.function? name = some symbol ∧ symbol.type = none) ↔
      ∃ function, (unit.functions.find? fun function => function.name.lexeme = name) =
        some function ∧ unit.returnTypeOf function = none := by
  rw [function?_sequence_actions, function?_register]
  constructor
  · rintro ⟨symbol, hsymbol, htype⟩
    obtain ⟨function, hfunction, rfl⟩ := Option.map_eq_some_iff.mp hsymbol
    exact ⟨function, hfunction, htype⟩
  · rintro ⟨function, hfunction, htype⟩
    exact ⟨_, Option.map_eq_some_iff.mpr ⟨function, hfunction, rfl⟩, htype⟩

/-- A call that stands for a value is reported to give nothing back exactly if the first function of
its name has no return at any depth, or one whose type is not known when the function is
registered. -/
theorem missingReturn_mem_iff (unit : CompilationUnit) (name : String) (location : Location) :
    missingReturn name location ∈ unit.analyze.diagnostics ↔
      (∃ entry ∈ unit.actions, ∃ call, entry.2.givenCall? = some call ∧
        call.name.lexeme = name ∧ call.name.location = location) ∧
      ∃ function, (unit.functions.find? fun function => function.name.lexeme = name) =
          some function ∧
        ((∀ payload, ¬ function.Returns payload) ∨
          ∃ payload, function.returns.head? = some payload ∧
            payload.type? ⟨Registration.tableBefore unit.registrations ∅
              (.function function.name.lexeme), function.scope⟩ = none) := by
  have hregister := (unit.diagnostics_register_reports ∅).missingReturn_notMem name location
  simp only [← returnTypeOf_eq_none_iff]
  rw [analyze, Pass.andThen, List.mem_append, or_iff_right hregister, validate,
    Pass.mem_diagnostics_sequence_iff]
  constructor
  · rintro ⟨before, pass, after, hpasses, hmem⟩
    obtain ⟨front, rest, hactions, rfl, hrest⟩ := List.map_eq_append_iff.mp hpasses
    obtain ⟨⟨scope, action⟩, back, rfl, rfl, -⟩ := List.map_eq_cons_iff.mp hrest
    obtain ⟨call, hcall, hgives⟩ := action.mem_check_iff_givesNothing.mp hmem
    refine ⟨⟨(scope, action), ?_, call, hcall, hgives.name_eq, hgives.location_eq⟩,
      exists_untyped_iff.mp hgives.untyped⟩
    rw [hactions]
    exact List.mem_append_cons_self
  · rintro ⟨⟨⟨scope, action⟩, hmem, call, hcall, hname, hlocation⟩, huntyped⟩
    obtain ⟨front, back, hactions⟩ := List.append_of_mem hmem
    refine ⟨_, action.pass scope, _, by rw [hactions, List.map_append, List.map_cons], ?_⟩
    exact action.mem_check_iff_givesNothing.mpr
      ⟨call, hcall, hname, hlocation, exists_untyped_iff.mpr huntyped⟩

end CompilationUnit

/-- A function that gives back what a later one gives. -/
def earlyReturn : CompilationUnit :=
  (compile ("accion @f(){ devolucion @g() # } accion @g(){ devolucion 1 # } " ++
    "variable @x = @f()#")).unit

/-- A function with a return is reported to give nothing back, as the function that it calls is not
registered yet. -/
theorem missingReturn_earlyReturn :
    missingReturn "@f" ⟨0, 77, ⟨77, 79⟩⟩ ∈ earlyReturn.analyze.diagnostics ∧
      ∃ function payload, (earlyReturn.functions.find? fun function =>
        function.name.lexeme = "@f") = some function ∧ function.Returns payload := by
  have hfirst : ((earlyReturn.functions.find? fun function => function.name.lexeme = "@f").any
      fun function => function.returns.head?.isSome) = true := by decide +kernel
  obtain ⟨function, hfunction, hsome⟩ := (Option.any_eq_true _ _).mp hfirst
  obtain ⟨payload, hpayload⟩ := Option.isSome_iff_exists.mp hsome
  exact ⟨by decide +kernel, function, payload, hfunction,
    FunctionDeclaration.mem_returns_iff.mp (List.mem_of_head? hpayload)⟩

end FrontEnd
