import FrontEnd.Proofs.Symbol.Table
import FrontEnd.Proofs.Typing.Check

/-!
Validation follows the walk: where a walk through a program exists, validation reports nothing and
leaves the table that describes the context at its end, and without a walk it reports something.
-/

namespace FrontEnd

namespace Typing

/-! ### Retyping -/

theorem ofTable_retype? (table : SymbolTable) (name : String) (scope : Scope) (type : ValueType) :
    Context.ofTable ((table.retype? (.value name scope) (some type)).getD table) =
      (Context.ofTable table).retype name scope type := by
  unfold Context.ofTable Context.retype
  congr 1
  · funext other place
    unfold SymbolTable.value?
    rw [SymbolTable.find?_retype?]
    cases hfind : table.find? (.value other place) with
    | none => simp [hfind]
    | some symbol =>
      have hkey := (SymbolTable.find?_eq_some_iff.mp hfind).2
      by_cases hsame : other = name ∧ place = scope
      · obtain ⟨rfl, rfl⟩ := hsame
        simp [Symbol.retypeAt, hfind, hkey]
      · have hother : Key.value other place ≠ .value name scope := by
          intro heq
          obtain ⟨hplace, hname⟩ := Key.mk.inj heq
          exact hsame ⟨hname, Option.some.inj hplace⟩
        simp [Symbol.retypeAt, hfind, hkey, hother, hsame]
  · funext other
    unfold SymbolTable.function?
    rw [SymbolTable.find?_retype?]
    cases hfind : table.find? (.function other) with
    | none => simp [hfind]
    | some symbol =>
      have hkey := (SymbolTable.find?_eq_some_iff.mp hfind).2
      have hother : Key.function other ≠ .value name scope := by simp [Key.function, Key.value]
      simp [Symbol.retypeAt, hfind, hkey, hother]

theorem retypeTarget_of_type (env : Environment) {target : Token} {value : Value} {symbol : Symbol}
    {type : ValueType} (htarget : env.value? target.lexeme = some symbol)
    (hmutable : symbol.isMutable = true) (htype : value.type? env = some type) :
    Context.ofTable (retypeTarget env target value) =
      (Context.ofTable env.table).retype target.lexeme env.scope type := by
  have hkey := (SymbolTable.find?_eq_some_iff.mp htarget).2
  unfold retypeTarget
  rw [htarget, htype]
  simp only [if_pos hmutable]
  rw [hkey]
  exact ofTable_retype? env.table target.lexeme env.scope type

theorem retypeTarget_of_unknown {env : Environment} {target : Token} {value : Value}
    (htype : value.type? env = none) : retypeTarget env target value = env.table := by
  unfold retypeTarget
  rw [htype]
  cases env.value? target.lexeme <;> rfl

/-! ### Passes that follow a walk -/

/-- The pass reports nothing exactly where the walk goes on, and leaves the table that describes the
context after it. -/
def Follows (pass : Pass) (walk : Context → Context → Prop) : Prop :=
  ∀ table after, walk (.ofTable table) after ↔
    (pass table).diagnostics = [] ∧ after = .ofTable (pass table).table

theorem Follows.congr {pass : Pass} {walk other : Context → Context → Prop}
    (hfollows : Follows pass walk)
    (hwalks : ∀ before after, other before after ↔ walk before after) :
    Follows pass other := by
  intro table after
  rw [hwalks]
  exact hfollows table after

theorem follows_skip : Follows .skip fun before after => after = before := by
  intro table after
  simp [Pass.skip]

theorem Follows.andThen {first second : Pass} {walk next : Context → Context → Prop}
    (hfirst : Follows first walk) (hsecond : Follows second next) :
    Follows (first.andThen second) fun before after =>
      ∃ middle, walk before middle ∧ next middle after := by
  intro table after
  simp only [Pass.andThen, List.append_eq_nil_iff]
  constructor
  · rintro ⟨middle, hwalk, hnext⟩
    obtain ⟨hsilent, rfl⟩ := (hfirst table middle).mp hwalk
    obtain ⟨hmore, hafter⟩ := (hsecond _ after).mp hnext
    exact ⟨⟨hsilent, hmore⟩, hafter⟩
  · rintro ⟨⟨hsilent, hmore⟩, hafter⟩
    exact ⟨_, (hfirst table _).mpr ⟨hsilent, rfl⟩, (hsecond _ after).mpr ⟨hmore, hafter⟩⟩

/-- A pass that only checks follows a walk that only asks for what it checks. -/
theorem follows_check {scope : Scope} {action : Action} {holds : Context → Prop}
    (heffect : ∀ env, action.effect env = env.table)
    (hcheck : ∀ env : Environment, env.scope = scope →
      (action.check env = [] ↔ holds (.ofTable env.table))) :
    Follows (action.pass scope) fun before after => holds before ∧ after = before := by
  intro table after
  simp only [Action.pass, heffect, hcheck ⟨table, scope⟩ rfl]

/-! ### Actions -/

theorem follows_use (scope : Scope) (payload : Payload) :
    Follows (Action.pass scope (.use payload)) fun before after =>
      PayloadOk before scope payload ∧ after = before := by
  refine follows_check (fun _ => rfl) ?_
  rintro env rfl
  exact check_payload_eq_nil_iff

theorem follows_ret (scope : Scope) (payload : Payload) :
    Follows (Action.pass scope (.ret payload)) fun before after =>
      PayloadOk before scope payload ∧ after = before := by
  refine follows_check (fun _ => rfl) ?_
  rintro env rfl
  exact check_payload_eq_nil_iff

theorem follows_declare (scope : Scope) (declaration : Declaration) :
    Follows (Action.pass scope (.declare declaration)) fun before after =>
      DeclarationOk before scope declaration ∧ after = before := by
  refine follows_check (fun _ => rfl) ?_
  rintro env rfl
  exact check_declaration_eq_nil_iff

theorem checkTarget_eq_nil_iff {env : Environment} {target : Token} :
    checkTarget env target = [] ↔
      ∃ entry, (Context.ofTable env.table).value? target.lexeme env.scope = some entry ∧
        entry.isMutable = true := by
  rw [value?_ofTable]
  unfold checkTarget
  cases env.value? target.lexeme with
  | none => simp
  | some symbol => simp

theorem checkStep_eq_nil_iff {env : Environment} {direction : StepDirection} {target : Token} :
    checkStep env direction target = [] ↔
      ∃ entry, (Context.ofTable env.table).value? target.lexeme env.scope = some entry ∧
        entry.isMutable = true ∧ IsNumber entry.type := by
  rw [value?_ofTable]
  unfold checkStep
  cases env.value? target.lexeme with
  | none => simp
  | some symbol => simp [any_isNumeric_iff]

theorem follows_step (scope : Scope) (direction : StepDirection) (target : Token) :
    Follows (Action.pass scope (.step direction target)) fun before after =>
      (∃ entry, before.value? target.lexeme scope = some entry ∧ entry.isMutable = true ∧
        IsNumber entry.type) ∧ after = before := by
  refine follows_check (fun _ => rfl) ?_
  rintro env rfl
  exact checkStep_eq_nil_iff

theorem follows_assign (scope : Scope) (target : Token) (value : Value) :
    Follows (Action.pass scope (.assign target value)) fun before after =>
      StatementOk scope before (.assign target value) after := by
  intro table after
  have hsilent : (Action.pass scope (.assign target value) table).diagnostics = [] ↔
      checkTarget ⟨table, scope⟩ target = [] ∧ value.check ⟨table, scope⟩ = [] :=
    List.append_eq_nil_iff
  rw [hsilent, checkTarget_eq_nil_iff, check_value_eq_nil_iff]
  constructor
  · intro hstatement
    cases hstatement with
    | assign htarget hmutable hvalue htype =>
      refine ⟨⟨⟨_, htarget, hmutable⟩, hvalue⟩, ?_⟩
      obtain ⟨symbol, hsymbol, rfl⟩ := Option.map_eq_some_iff.mp htarget
      have hknown := (hasValueType_iff ⟨table, scope⟩).mp htype
      exact (retypeTarget_of_type ⟨table, scope⟩ hsymbol hmutable hknown).symm
    | assignUnknown htarget hmutable hvalue htype =>
      refine ⟨⟨⟨_, htarget, hmutable⟩, hvalue⟩, ?_⟩
      have hunknown : value.type? ⟨table, scope⟩ = none :=
        Option.eq_none_iff_forall_ne_some.mpr fun type hknown =>
          htype type ((hasValueType_iff ⟨table, scope⟩).mpr hknown)
      exact congrArg Context.ofTable (retypeTarget_of_unknown hunknown).symm
  · rintro ⟨⟨⟨entry, htarget, hmutable⟩, hvalue⟩, rfl⟩
    obtain ⟨symbol, hsymbol, rfl⟩ := Option.map_eq_some_iff.mp htarget
    cases htype : value.type? ⟨table, scope⟩ with
    | none =>
      have hunknown : ∀ type, ¬ HasValueType (.ofTable table) scope value type := by
        intro type hknown
        have hsome := (hasValueType_iff ⟨table, scope⟩).mp hknown
        rw [htype] at hsome
        cases hsome
      have hsame : (Action.pass scope (.assign target value) table).table = table :=
        retypeTarget_of_unknown htype
      rw [hsame]
      exact .assignUnknown htarget hmutable hvalue hunknown
    | some type =>
      have hretyped : Context.ofTable (Action.pass scope (.assign target value) table).table =
          (Context.ofTable table).retype target.lexeme scope type :=
        retypeTarget_of_type ⟨table, scope⟩ hsymbol hmutable htype
      rw [hretyped]
      exact .assign htarget hmutable hvalue ((hasValueType_iff ⟨table, scope⟩).mpr htype)

/-! ### Statements -/

/-- Validation of statements in one scope. -/
def blockPass (scope : Scope) (statements : List Statement) : Pass :=
  .sequence ((Statement.actionsOf statements).map (Action.pass scope))

theorem follows_single {scope : Scope} {action : Action} {walk : Context → Context → Prop}
    (haction : Follows (action.pass scope) walk) :
    Follows (.sequence ([action].map (Action.pass scope))) walk := by
  rw [List.map_singleton, Pass.sequence_cons, Pass.sequence_nil, Pass.andThen_skip]
  exact haction

theorem actionsOfAlternative_eq (alternative : Option (List Statement)) :
    Statement.actionsOfAlternative alternative = Statement.actionsOf (alternative.getD []) := by
  cases alternative with
  | none => rw [Statement.actionsOfAlternative, Option.getD_none, Statement.actionsOf]
  | some body => rw [Statement.actionsOfAlternative, Option.getD_some]

theorem follows_decision {scope : Scope} {keyword : Token} {condition : Operand}
    {body : List Statement} {alternative : Option (List Statement)}
    (hbody : Follows (blockPass scope body) fun before after => BlockOk scope before body after)
    (halternative : Follows (blockPass scope (alternative.getD [])) fun before after =>
      BlockOk scope before (alternative.getD []) after) :
    Follows (.sequence ((Statement.decision keyword condition body alternative).actions.map
      (Action.pass scope))) fun before after =>
        StatementOk scope before (.decision keyword condition body alternative) after := by
  rw [Statement.actions, actionsOfAlternative_eq, List.map_cons, Pass.sequence_cons,
    List.map_append, Pass.sequence_append]
  refine ((follows_use scope (.operand condition)).andThen (hbody.andThen halternative)).congr
    fun before after => ⟨?_, ?_⟩
  · intro hstatement
    cases hstatement with
    | decision hcondition hfirst hsecond =>
      exact ⟨before, ⟨.operand hcondition, rfl⟩, _, hfirst, hsecond⟩
  · rintro ⟨_, ⟨hcondition, rfl⟩, middle, hfirst, hsecond⟩
    cases hcondition with
    | operand hoperand => exact .decision hoperand hfirst hsecond

theorem follows_loop {scope : Scope} {keyword : Token} {body : List Statement}
    {condition : Operand}
    (hbody : Follows (blockPass scope body) fun before after => BlockOk scope before body after) :
    Follows (.sequence ((Statement.loop keyword body condition).actions.map (Action.pass scope)))
      fun before after => StatementOk scope before (.loop keyword body condition) after := by
  rw [Statement.actions, List.map_append, Pass.sequence_append]
  refine (hbody.andThen (follows_single (follows_use scope (.operand condition)))).congr
    fun before after => ⟨?_, ?_⟩
  · intro hstatement
    cases hstatement with
    | loop hfirst hcondition => exact ⟨after, hfirst, .operand hcondition, rfl⟩
  · rintro ⟨middle, hfirst, hcondition, rfl⟩
    cases hcondition with
    | operand hoperand => exact .loop hfirst hoperand

mutual

theorem statement_follows (scope : Scope) (statement : Statement) :
    Follows (.sequence (statement.actions.map (Action.pass scope))) fun before after =>
      StatementOk scope before statement after := by
  match statement with
  | .print keyword payload =>
    rw [Statement.actions]
    refine (follows_single (follows_use scope payload)).congr fun before after => ⟨?_, ?_⟩
    · intro hstatement
      cases hstatement with
      | print hpayload => exact ⟨hpayload, rfl⟩
    · rintro ⟨hpayload, rfl⟩
      exact .print hpayload
  | .ret keyword payload =>
    rw [Statement.actions]
    refine (follows_single (follows_ret scope payload)).congr fun before after => ⟨?_, ?_⟩
    · intro hstatement
      cases hstatement with
      | ret hpayload => exact ⟨hpayload, rfl⟩
    · rintro ⟨hpayload, rfl⟩
      exact .ret hpayload
  | .read keyword payload =>
    rw [Statement.actions]
    refine (follows_single (follows_use scope payload)).congr fun before after => ⟨?_, ?_⟩
    · intro hstatement
      cases hstatement with
      | read hpayload => exact ⟨hpayload, rfl⟩
    · rintro ⟨hpayload, rfl⟩
      exact .read hpayload
  | .decision keyword condition body none =>
    exact follows_decision (block_follows scope body) (block_follows scope [])
  | .decision keyword condition body (some alternative) =>
    exact follows_decision (block_follows scope body) (block_follows scope alternative)
  | .declare declaration =>
    rw [Statement.actions]
    refine (follows_single (follows_declare scope declaration)).congr fun before after => ⟨?_, ?_⟩
    · intro hstatement
      cases hstatement with
      | declare hdeclaration => exact ⟨hdeclaration, rfl⟩
    · rintro ⟨hdeclaration, rfl⟩
      exact .declare hdeclaration
  | .assign target value =>
    rw [Statement.actions]
    exact follows_single (follows_assign scope target value)
  | .loop keyword body condition => exact follows_loop (block_follows scope body)
  | .call call =>
    rw [Statement.actions]
    refine (follows_single (follows_use scope (.call call))).congr fun before after => ⟨?_, ?_⟩
    · intro hstatement
      cases hstatement with
      | call hcall => exact ⟨.call hcall, rfl⟩
    · rintro ⟨hpayload, rfl⟩
      cases hpayload with
      | call hcall => exact .call hcall
  | .step direction target operator =>
    rw [Statement.actions]
    refine (follows_single (follows_step scope direction target)).congr
      fun before after => ⟨?_, ?_⟩
    · intro hstatement
      cases hstatement with
      | step htarget hmutable hnumber => exact ⟨⟨_, htarget, hmutable, hnumber⟩, rfl⟩
    · rintro ⟨⟨entry, htarget, hmutable, hnumber⟩, rfl⟩
      exact .step htarget hmutable hnumber

theorem block_follows (scope : Scope) (statements : List Statement) :
    Follows (blockPass scope statements) fun before after =>
      BlockOk scope before statements after := by
  match statements with
  | [] =>
    refine follows_skip.congr fun before after => ⟨?_, ?_⟩
    · intro hblock
      cases hblock
      rfl
    · rintro rfl
      exact .nil
  | statement :: rest =>
    rw [blockPass, Statement.actionsOf, List.map_append, Pass.sequence_append]
    refine ((statement_follows scope statement).andThen (block_follows scope rest)).congr
      fun before after => ⟨?_, ?_⟩
    · intro hblock
      cases hblock with
      | cons hstatement hrest => exact ⟨_, hstatement, hrest⟩
    · rintro ⟨middle, hstatement, hrest⟩
      exact .cons hstatement hrest

end

/-! ### Programs -/

theorem bodies_follow (functions : List FunctionDeclaration) :
    Follows (.sequence (functions.flatMap fun function =>
      function.actions.map (Action.pass function.scope))) fun before after =>
        BodiesOk before functions after := by
  induction functions with
  | nil =>
    refine follows_skip.congr fun before after => ⟨?_, ?_⟩
    · intro hbodies
      cases hbodies
      rfl
    · rintro rfl
      exact .nil
  | cons function rest ih =>
    rw [List.flatMap_cons, Pass.sequence_append]
    refine ((block_follows function.scope function.body).andThen ih).congr
      fun before after => ⟨?_, ?_⟩
    · intro hbodies
      cases hbodies with
      | cons hbody hrest => exact ⟨_, hbody, hrest⟩
    · rintro ⟨middle, hbody, hrest⟩
      exact .cons hbody hrest

theorem declarations_follow (declarations : List Declaration) :
    Follows (.sequence (declarations.map fun declaration =>
      Action.pass .unit (.declare declaration))) fun before after =>
        (∀ declaration ∈ declarations, DeclarationOk before .unit declaration) ∧
          after = before := by
  induction declarations with
  | nil => exact follows_skip.congr fun before after => by simp
  | cons declaration rest ih =>
    refine ((follows_declare .unit declaration).andThen ih).congr fun before after => ⟨?_, ?_⟩
    · rintro ⟨hall, rfl⟩
      obtain ⟨hfirst, hrest⟩ := List.forall_mem_cons.mp hall
      exact ⟨after, ⟨hfirst, rfl⟩, hrest, rfl⟩
    · rintro ⟨_, ⟨hfirst, rfl⟩, hrest, rfl⟩
      exact ⟨List.forall_mem_cons.mpr ⟨hfirst, hrest⟩, rfl⟩

/-- Validation of a whole program follows the walk through it. -/
theorem unit_follows (unit : CompilationUnit) :
    Follows unit.validate fun before after => ∃ middle,
      (∀ declaration ∈ unit.declarations, DeclarationOk before .unit declaration) ∧
        BodiesOk before unit.functions middle ∧ BlockOk .unit middle unit.statements after := by
  have hpasses : unit.validate = (Pass.sequence (unit.declarations.map fun declaration =>
      Action.pass .unit (.declare declaration))).andThen
        ((Pass.sequence (unit.functions.flatMap fun function =>
          function.actions.map (Action.pass function.scope))).andThen
            (blockPass .unit unit.statements)) := by
    rw [CompilationUnit.validate, CompilationUnit.actions, blockPass, ← Pass.sequence_append,
      ← Pass.sequence_append]
    simp [Function.comp_def, List.map_flatMap]
  rw [hpasses]
  refine ((declarations_follow unit.declarations).andThen ((bodies_follow unit.functions).andThen
    (block_follows .unit unit.statements))).congr fun before after => ⟨?_, ?_⟩
  · rintro ⟨middle, hdeclarations, hbodies, hblock⟩
    exact ⟨before, ⟨hdeclarations, rfl⟩, middle, hbodies, hblock⟩
  · rintro ⟨_, ⟨hdeclarations, rfl⟩, middle, hbodies, hblock⟩
    exact ⟨middle, hdeclarations, hbodies, hblock⟩

end Typing

end FrontEnd
