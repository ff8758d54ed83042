import FrontEnd.Analysis.Unit
import FrontEnd.Proofs.Symbol.Table
import FrontEnd.Proofs.Syntax.Leaves

/-!
What validation does to the table. Nothing changes but the types of variables, and a variable ends
up with the type of the last value that it is given, of those whose types are known when they are
checked.
-/

namespace FrontEnd

/-! ### Symbols that are given values -/

namespace Symbol

/-- Whether the symbol is a value that may be given another one. -/
def isVariable (symbol : Symbol) : Bool :=
  symbol.role = .value && symbol.isMutable

/-- The symbol after it has been given values of these types, one after the other. -/
def given (types : List ValueType) (symbol : Symbol) : Symbol :=
  if symbol.isVariable then { symbol with type := types.getLast?.or symbol.type } else symbol

@[simp] theorem given_nil (symbol : Symbol) : symbol.given [] = symbol := by
  unfold given
  split <;> rfl

theorem given_of_not_isVariable {symbol : Symbol} (hfixed : symbol.isVariable = false)
    (types : List ValueType) : symbol.given types = symbol := by
  simp [given, hfixed]

theorem given_singleton {symbol : Symbol} (hvariable : symbol.isVariable = true)
    (type : ValueType) : symbol.given [type] = { symbol with type := some type } := by
  simp [given, hvariable]

@[simp] theorem isVariable_given (types : List ValueType) (symbol : Symbol) :
    (symbol.given types).isVariable = symbol.isVariable := by
  unfold given
  split <;> rfl

@[simp] theorem key_given (types : List ValueType) (symbol : Symbol) :
    (symbol.given types).key = symbol.key := by
  unfold given
  split <;> rfl

theorem given_given (first second : List ValueType) (symbol : Symbol) :
    (symbol.given first).given second = symbol.given (first ++ second) := by
  cases hvariable : symbol.isVariable with
  | false => simp only [given_of_not_isVariable hvariable]
  | true =>
    have hlast : second.getLast?.or (first.getLast?.or symbol.type) =
        (first ++ second).getLast?.or symbol.type := by
      rw [List.getLast?_append, Option.or_assoc]
    rw [given, isVariable_given, if_pos hvariable, given, if_pos hvariable, given,
      if_pos hvariable, ← hlast]

/-- A type that is known stays known. -/
theorem isSome_type_given {symbol : Symbol} (hknown : symbol.type.isSome = true)
    (types : List ValueType) : (symbol.given types).type.isSome = true := by
  unfold given
  split
  · simp [hknown]
  · exact hknown

/-- The key of a value is its name in its scope. -/
theorem key_of_isVariable {symbol : Symbol} (hvariable : symbol.isVariable = true) :
    symbol.key = .value symbol.name symbol.scope := by
  have hrole : symbol.role = .value := by
    unfold isVariable at hvariable
    exact of_decide_eq_true (Bool.and_eq_true_iff.mp hvariable).1
  rw [key, hrole]

theorem role_of_key_value {symbol : Symbol} {name : String} {scope : Scope}
    (hkey : symbol.key = .value name scope) : symbol.role = .value := by
  cases hrole : symbol.role with
  | value => rfl
  | function types =>
    rw [key, hrole] at hkey
    cases hkey

end Symbol

/-! ### One assignment -/

theorem SymbolTable.map_given_eq_toList {table : SymbolTable} {key : Key} {types : List ValueType}
    (hsame : ∀ symbol, table.find? key = some symbol → symbol.given types = symbol) :
    (table.toList.map fun symbol => if symbol.key = key then symbol.given types else symbol) =
      table.toList := by
  refine (List.map_congr_left fun symbol hmem => ?_).trans (List.map_id _)
  split
  · next hkey => exact hsame symbol (find?_eq_some_iff.mpr ⟨hmem, hkey⟩)
  · rfl

/-- An assignment gives its value to the symbol of its target, and changes nothing else. -/
theorem toList_retypeTarget (env : Environment) (target : Token) (value : Value) :
    (retypeTarget env target value).toList = env.table.toList.map fun symbol =>
      if symbol.key = .value target.lexeme env.scope then symbol.given (value.type? env).toList
      else symbol := by
  rw [retypeTarget]
  split
  · next old type hvalue htype =>
    have hkey : old.key = .value target.lexeme env.scope :=
      (SymbolTable.find?_eq_some_iff.mp hvalue).2
    have hunique : ∀ symbol, env.table.find? (.value target.lexeme env.scope) = some symbol →
        old = symbol := fun symbol hfound => Option.some.inj (hvalue.symm.trans hfound)
    split
    · next hmutable =>
      have hvariable : old.isVariable = true := by
        simp [Symbol.isVariable, Symbol.role_of_key_value hkey, hmutable]
      rw [SymbolTable.toList_retype?, hkey, htype]
      refine List.map_congr_left fun symbol hmem => ?_
      rw [Symbol.retypeAt]
      split
      · next hsame =>
        obtain rfl := hunique symbol (SymbolTable.find?_eq_some_iff.mpr ⟨hmem, hsame⟩)
        rw [Option.toList_some, Symbol.given_singleton hvariable]
      · rfl
    · next hconstant =>
      refine (SymbolTable.map_given_eq_toList fun symbol hfound => ?_).symm
      obtain rfl := hunique symbol hfound
      exact Symbol.given_of_not_isVariable (by simp [Symbol.isVariable, hconstant]) _
  · next hnone =>
    refine (SymbolTable.map_given_eq_toList fun symbol hfound => ?_).symm
    cases htype : value.type? env with
    | none => exact symbol.given_nil
    | some type => exact absurd htype (hnone symbol type hfound)

/-! ### One assignment after the other -/

namespace Assignment

/-- The type that an assignment gives to the symbol of a key, if that is the key of its target and
the type of the value is known. -/
def typeGiven? (table : SymbolTable) (key : Key) (assignment : Assignment) : Option ValueType :=
  if key = .value assignment.target.lexeme assignment.scope then
    assignment.value.type? ⟨table, assignment.scope⟩
  else none

/-- The table after an assignment. -/
def apply (table : SymbolTable) (assignment : Assignment) : SymbolTable :=
  retypeTarget ⟨table, assignment.scope⟩ assignment.target assignment.value

/-- Assignments one after the other, each with the table that the earlier ones leave. -/
def inTurn (table : SymbolTable) : List Assignment → List (SymbolTable × Assignment)
  | [] => []
  | assignment :: rest => (table, assignment) :: inTurn (assignment.apply table) rest

/-- The types that assignments give to the symbol of a key, where they are known. -/
def typesGiven (table : SymbolTable) (assignments : List Assignment) (key : Key) :
    List ValueType :=
  (inTurn table assignments).filterMap fun (before, assignment) =>
    assignment.typeGiven? before key

theorem toList_apply (table : SymbolTable) (assignment : Assignment) :
    (assignment.apply table).toList = table.toList.map fun symbol =>
      symbol.given (assignment.typeGiven? table symbol.key).toList := by
  rw [apply, toList_retypeTarget]
  refine List.map_congr_left fun symbol _ => ?_
  rw [typeGiven?]
  split
  · rfl
  · exact symbol.given_nil.symm

theorem typesGiven_cons (table : SymbolTable) (assignment : Assignment) (rest : List Assignment)
    (key : Key) :
    typesGiven table (assignment :: rest) key =
      (assignment.typeGiven? table key).toList ++ typesGiven (assignment.apply table) rest key := by
  cases hgiven : assignment.typeGiven? table key <;> simp [typesGiven, inTurn, hgiven]

theorem toList_foldl_apply (assignments : List Assignment) (table : SymbolTable) :
    (assignments.foldl apply table).toList =
      table.toList.map fun symbol => symbol.given (typesGiven table assignments symbol.key) := by
  induction assignments generalizing table with
  | nil => simp [typesGiven, inTurn]
  | cons assignment rest ih =>
    rw [List.foldl_cons, ih, toList_apply, List.map_map]
    refine List.map_congr_left fun symbol _ => ?_
    rw [Function.comp_apply, Symbol.key_given, Symbol.given_given, ← typesGiven_cons]

theorem typesGiven_eq_nil {assignments : List Assignment} {name : String} {scope : Scope}
    (hnever : ∀ assignment ∈ assignments, assignment.scope = scope →
      assignment.target.lexeme ≠ name) (table : SymbolTable) :
    typesGiven table assignments (.value name scope) = [] := by
  induction assignments generalizing table with
  | nil => rfl
  | cons assignment rest ih =>
    obtain ⟨hfirst, hrest⟩ := List.forall_mem_cons.mp hnever
    have hnone : assignment.typeGiven? table (.value name scope) = none := by
      refine if_neg fun hkey => ?_
      obtain ⟨hscope, hname⟩ := Key.mk.inj hkey
      exact hfirst (Option.some.inj hscope).symm hname.symm
    rw [typesGiven_cons, hnone, ih hrest]
    rfl

end Assignment

/-! ### All actions -/

namespace Action

/-- Actions one after the other, each in the environment in which it is checked. -/
def walk (table : SymbolTable) : List (Scope × Action) → List (Environment × Action)
  | [] => []
  | (scope, action) :: rest =>
    (⟨table, scope⟩, action) :: walk (action.effect ⟨table, scope⟩) rest

/-- What an action assigns, with the table against which it is checked. -/
def assigned? : Environment × Action → Option (SymbolTable × Assignment)
  | (env, action) => (action.assignment? env.scope).map fun assignment => (env.table, assignment)

theorem diagnostics_sequence (actions : List (Scope × Action)) (table : SymbolTable) :
    (Pass.sequence (actions.map fun (scope, action) => action.pass scope) table).diagnostics =
      (walk table actions).flatMap fun (env, action) => action.check env := by
  induction actions generalizing table with
  | nil => rfl
  | cons first rest ih =>
    obtain ⟨scope, action⟩ := first
    rw [walk, List.flatMap_cons, ← ih]
    rfl

/-- The walk goes through the assignments in turn. -/
theorem filterMap_walk (actions : List (Scope × Action)) (table : SymbolTable) :
    (walk table actions).filterMap assigned? = Assignment.inTurn table (assignments actions) := by
  induction actions generalizing table with
  | nil => rfl
  | cons first rest ih =>
    obtain ⟨scope, action⟩ := first
    have hrest := ih (action.effect ⟨table, scope⟩)
    cases action with
    | declare | step | use | ret => exact hrest
    | assign target value => exact congrArg ((table, ⟨scope, target, value⟩) :: ·) hrest

/-- Nothing but assignments changes the table. -/
theorem table_sequence (actions : List (Scope × Action)) (table : SymbolTable) :
    (Pass.sequence (actions.map fun (scope, action) => action.pass scope) table).table =
      (assignments actions).foldl Assignment.apply table := by
  induction actions generalizing table with
  | nil => rfl
  | cons first rest ih =>
    obtain ⟨scope, action⟩ := first
    have hrest := ih (action.effect ⟨table, scope⟩)
    cases action with
    | declare | assign | step | use | ret => exact hrest

end Action

/-! ### The whole program -/

namespace CompilationUnit

/-- What a program does, each action in the environment in which validation checks it. -/
def walk (unit : CompilationUnit) (table : SymbolTable) : List (Environment × Action) :=
  Action.walk table unit.actions

/-- The types of the values that a program gives to the symbol of a key, in the order of its
assignments, where they are known from the tables that earlier assignments leave. -/
def typesGiven (unit : CompilationUnit) (table : SymbolTable) (key : Key) : List ValueType :=
  Assignment.typesGiven table unit.assignments key

theorem toList_table_validate (unit : CompilationUnit) (table : SymbolTable) :
    (unit.validate table).table.toList =
      table.toList.map fun symbol => symbol.given (unit.typesGiven table symbol.key) := by
  have htable : (unit.validate table).table = unit.assignments.foldl Assignment.apply table := by
    rw [← assignments_actions]
    exact Action.table_sequence unit.actions table
  rw [htable]
  exact Assignment.toList_foldl_apply unit.assignments table

/-- Validation finds what the actions of its walk give rise to, and checks the assignments of the
program in turn. It keeps all symbols in their order, and all that is known of them but the types of
variables: a variable ends up with the last of the known types that it is given, or with the type
that it had. Functions, constants and what is never assigned to stay as they are, and a known type
never becomes unknown. -/
theorem toList_validate (unit : CompilationUnit) (table : SymbolTable) :
    (unit.validate table).diagnostics =
        (unit.walk table).flatMap (fun (env, action) => action.check env) ∧
      (unit.walk table).filterMap Action.assigned? = Assignment.inTurn table unit.assignments ∧
      (unit.validate table).table.toList = (table.toList.map fun symbol =>
        if symbol.isVariable then
          { symbol with type := (unit.typesGiven table symbol.key).getLast?.or symbol.type }
        else symbol) ∧
      (∀ symbol ∈ table.toList, symbol.isVariable = false ∨
        (∀ assignment ∈ unit.assignments, assignment.scope = symbol.scope →
          assignment.target.lexeme ≠ symbol.name) →
        symbol ∈ (unit.validate table).table.toList) ∧
      ∀ key symbol, table.find? key = some symbol → symbol.type.isSome = true →
        ∃ after, (unit.validate table).table.find? key = some after ∧
          after.type.isSome = true := by
  have htable := unit.toList_table_validate table
  have hwalk : (unit.walk table).filterMap Action.assigned? =
      Assignment.inTurn table unit.assignments := by
    rw [← assignments_actions]
    exact Action.filterMap_walk unit.actions table
  refine ⟨Action.diagnostics_sequence unit.actions table, hwalk, htable, ?_, ?_⟩
  · intro symbol hmem hkept
    rw [htable]
    refine List.mem_map.mpr ⟨symbol, hmem, ?_⟩
    cases hvariable : symbol.isVariable with
    | false => exact Symbol.given_of_not_isVariable hvariable _
    | true =>
      have hnever := hkept.resolve_left (by simp [hvariable])
      rw [Symbol.key_of_isVariable hvariable, typesGiven, Assignment.typesGiven_eq_nil hnever,
        Symbol.given_nil]
  · intro key symbol hfound hknown
    obtain ⟨hmem, hkey⟩ := SymbolTable.find?_eq_some_iff.mp hfound
    refine ⟨symbol.given (unit.typesGiven table symbol.key), ?_, Symbol.isSome_type_given hknown _⟩
    refine SymbolTable.find?_eq_some_iff.mpr ⟨?_, by rw [Symbol.key_given, hkey]⟩
    rw [htable]
    exact List.mem_map_of_mem hmem

/-- A program that gives types to a variable more than once, and that assigns to a constant and
assigns what is not declared. -/
def retypedVariables : CompilationUnit :=
  let word (kind : TokenKind) (lexeme : String) (column : Nat) : Token :=
    ⟨kind, lexeme, ⟨0, column, ⟨column, column + lexeme.utf8ByteSize⟩⟩⟩
  let name := word .identifier
  let literal (kind : TokenKind) (lexeme : String) (column : Nat) : Value :=
    .operand (.token (word kind lexeme column))
  { declarations := [
      .ofVariable ⟨word (.keyword .var) "variable" 0, name "@x" 9, none⟩,
      .ofVariable ⟨word (.keyword .var) "variable" 13, name "@y" 22, literal .integer "1" 27⟩,
      .ofConstant ⟨word (.keyword .const) "constant" 30, name "@k" 39, literal .integer "2" 44⟩]
    functions := [⟨word (.keyword .action) "action" 47, name "@f" 54,
      [⟨word (.keyword .integer) "integer" 57, .integer, name "@x" 65⟩],
      [.assign (name "@x" 70) (literal .string "~a~" 75)]⟩]
    statements := [
      .loop (word (.keyword .loop) "do" 82)
        [.assign (name "@x" 87) (literal .identifier "@y" 92),
          .assign (name "@x" 96) (literal .decimal "2.5" 101)] (.token (name "@y" 115)),
      .assign (name "@x" 120) (literal .identifier "@z" 125),
      .assign (name "@k" 129) (literal .string "~b~" 134)] }

theorem toList_validate_retypedVariables :
    let table := (retypedVariables.register ∅).table
    let after := (retypedVariables.validate table).table
    (after.toList.map fun symbol => (symbol.name, symbol.type)) =
        [("@x", some .decimal), ("@y", some .integer), ("@k", some .integer),
          ("@x", some .string), ("@f", none)] ∧
      ⟨"@k", .value, some .integer, false, .unit, ⟨0, 39, ⟨39, 41⟩⟩⟩ ∈ after.toList ∧
      ⟨"@y", .value, some .integer, true, .unit, ⟨0, 22, ⟨22, 24⟩⟩⟩ ∈ after.toList ∧
      ∃ symbol, after.find? (.value "@x" (.function "@f")) = some symbol ∧
        symbol.type.isSome = true := by
  intro table after
  obtain ⟨-, -, hlist, hkept, hknown⟩ := toList_validate retypedVariables table
  have hnever : ∀ assignment ∈ retypedVariables.assignments, assignment.scope = .unit →
      assignment.target.lexeme ≠ "@y" := by decide +kernel
  refine ⟨?_, hkept _ (by decide +kernel) (.inl rfl), hkept _ (by decide +kernel) (.inr hnever),
    hknown _ ⟨"@x", .value, some .integer, true, .function "@f", ⟨0, 65, ⟨65, 67⟩⟩⟩
      (by decide +kernel) rfl⟩
  rw [hlist]
  decide +kernel

end CompilationUnit

end FrontEnd
