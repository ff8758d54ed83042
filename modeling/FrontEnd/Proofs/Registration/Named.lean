import FrontEnd.Proofs.Parsing.Spelled
import FrontEnd.Proofs.Registration.Settled
import FrontEnd.Proofs.Typing.Retyping

/-!
The names of symbols. Whatever text is compiled, the name of a symbol is a word of the text, spelled
like a name, and its scope is that of the program or that of a function with such a name. This goes
from the tokens through the grammar into the declarations, and validation changes none of it.
-/

namespace FrontEnd

open Grammar

/-- The name is spelled as names are. -/
def IsName (name : String) : Prop :=
  IsWord .identifier name.toList

/-- The scope outside of functions, or that of a function with a name. -/
def Scope.IsNamed (scope : Scope) : Prop :=
  scope = .unit ∨ ∃ name, IsName name ∧ scope = .function name

/-- A symbol with a name, in a scope with a name. -/
structure Symbol.IsNamed (symbol : Symbol) : Prop where
  name : IsName symbol.name
  scope : symbol.scope.IsNamed

/-! ### Declarations -/

theorem Token.IsSpelled.isName {token : Token} (hspelled : token.IsSpelled)
    (hkind : token.kind = .identifier) : IsName token.lexeme :=
  hspelled.isWord hkind (by simp)

theorem Declaration.isName_name {declaration : Declaration}
    (hspelled : Spelled IsDeclaration declaration) : IsName declaration.name.lexeme := by
  obtain ⟨tokens, hdeclaration, hspelled⟩ := hspelled
  cases hdeclaration with
  | ofVariable hvariable =>
    cases hvariable with
    | bare _ hname _ => exact (hspelled _ (by simp [name])).isName hname
    | initialized _ hname _ _ _ => exact (hspelled _ (by simp [name])).isName hname
  | ofConstant hconstant =>
    cases hconstant with
    | mk _ hname _ _ _ => exact (hspelled _ (by simp [name])).isName hname

theorem Parameter.isName_name {parameter : Parameter} (hspelled : Spelled IsParameter parameter) :
    IsName parameter.name.lexeme := by
  obtain ⟨tokens, hparameter, hspelled⟩ := hspelled
  cases hparameter with
  | mk _ _ hname => exact (hspelled _ (by simp)).isName hname

mutual

/-- A statement without statements inside is derived from its tokens as well. -/
theorem Statement.spelled_of_mem_leaves (statement : Statement)
    (hspelled : Spelled IsStatement statement) :
    ∀ leaf ∈ statement.leaves, Spelled IsStatement leaf := by
  match statement with
  | .print _ _ | .ret _ _ | .read _ _ | .declare _ | .assign _ _ | .call _ | .step _ _ _ =>
    rw [Statement.leaves, List.forall_mem_singleton]
    exact hspelled
  | .decision word condition body none =>
    obtain ⟨-, -, hbody, -⟩ := hspelled.of_decision
    rw [Statement.leaves, Statement.leavesOfAlternative, List.append_nil]
    exact Statement.spelled_of_mem_leavesOf body hbody
  | .decision word condition body (some alternative) =>
    obtain ⟨-, -, hbody, halternative⟩ := hspelled.of_decision
    rw [Statement.leaves, Statement.leavesOfAlternative, List.forall_mem_append]
    exact ⟨Statement.spelled_of_mem_leavesOf body hbody,
      Statement.spelled_of_mem_leavesOf alternative (halternative alternative rfl)⟩
  | .loop word body condition =>
    obtain ⟨-, hbody, -⟩ := hspelled.of_loop
    rw [Statement.leaves]
    exact Statement.spelled_of_mem_leavesOf body hbody

theorem Statement.spelled_of_mem_leavesOf (statements : List Statement)
    (hspelled : ∀ statement ∈ statements, Spelled IsStatement statement) :
    ∀ leaf ∈ Statement.leavesOf statements, Spelled IsStatement leaf := by
  match statements with
  | [] =>
    rw [Statement.leavesOf]
    exact List.forall_mem_nil _
  | statement :: rest =>
    obtain ⟨hfirst, hrest⟩ := List.forall_mem_cons.mp hspelled
    rw [Statement.leavesOf, List.forall_mem_append]
    exact ⟨Statement.spelled_of_mem_leaves statement hfirst,
      Statement.spelled_of_mem_leavesOf rest hrest⟩

end

theorem Statement.spelled_of_mem_declarationsOf (statements : List Statement)
    (hspelled : ∀ statement ∈ statements, Spelled IsStatement statement) :
    ∀ declaration ∈ Statement.declarationsOf statements, Spelled IsDeclaration declaration := by
  intro declaration hmem
  obtain ⟨leaf, hleaf, hdeclared⟩ := List.mem_filterMap.mp hmem
  have hleafSpelled := Statement.spelled_of_mem_leavesOf statements hspelled leaf hleaf
  cases leaf with
  | declare declared =>
    obtain rfl := Option.some.inj hdeclared
    obtain ⟨tokens, hstatement, hspelled⟩ := hleafSpelled
    cases hstatement with
    | declare hdeclaration => exact ⟨tokens, hdeclaration, hspelled⟩
  | print | ret | read | decision | assign | loop | call | step => cases hdeclared

/-! ### What is registered -/

namespace Registration

/-- What is registered gives a symbol with a name, whatever its type turns out to be. -/
def IsNamed (registration : Registration) : Prop :=
  ∀ type, (registration.entry type).IsNamed

theorem isNamed_declaration {scope : Scope} (hscope : scope.IsNamed) {declaration : Declaration}
    (hspelled : Spelled IsDeclaration declaration) :
    (Registration.declaration scope declaration).IsNamed := by
  have hname := Declaration.isName_name hspelled
  cases declaration <;> exact fun _ => ⟨hname, hscope⟩

theorem isNamed_parameter {scope : Scope} (hscope : scope.IsNamed) {parameter : Parameter}
    (hspelled : Spelled IsParameter parameter) : (Registration.parameter scope parameter).IsNamed :=
  fun _ => ⟨Parameter.isName_name hspelled, hscope⟩

end Registration

theorem FunctionDeclaration.isNamed_of_mem_declared {function : FunctionDeclaration}
    (hspelled : Spelled IsFunction function) :
    ∀ registration ∈ function.declared, registration.IsNamed := by
  obtain ⟨-, hkind, hname, hparameters, hbody⟩ := hspelled.of_function
  have hname : IsName function.name.lexeme := hname.isName hkind
  have hscope : (Scope.function function.name.lexeme).IsNamed := .inr ⟨_, hname, rfl⟩
  simp only [declared, List.forall_mem_append, List.forall_mem_map, List.forall_mem_singleton]
  refine ⟨⟨fun parameter hmem => ?_, fun declaration hmem => ?_⟩, fun _ => ⟨hname, .inl rfl⟩⟩
  · exact Registration.isNamed_parameter hscope (hparameters parameter hmem)
  · exact Registration.isNamed_declaration hscope
      (Statement.spelled_of_mem_declarationsOf function.body hbody declaration hmem)

theorem CompilationUnit.isNamed_of_mem_declared {unit : CompilationUnit}
    (hspelled : Spelled IsUnit unit) : ∀ registration ∈ unit.declared, registration.IsNamed := by
  obtain ⟨hdeclarations, hfunctions, hstatements⟩ := hspelled.of_unit
  simp only [declared, List.forall_mem_append, List.forall_mem_map, List.forall_mem_flatMap]
  refine ⟨⟨fun declaration hmem => ?_, fun function hmem => ?_⟩, fun declaration hmem => ?_⟩
  · exact Registration.isNamed_declaration (.inl rfl) (hdeclarations declaration hmem)
  · exact FunctionDeclaration.isNamed_of_mem_declared (hfunctions function hmem)
  · exact Registration.isNamed_declaration (.inl rfl)
      (Statement.spelled_of_mem_declarationsOf unit.statements hstatements declaration hmem)

/-! ### What is in the table -/

theorem Symbol.IsNamed.given {symbol : Symbol} (hnamed : symbol.IsNamed) (types : List ValueType) :
    (symbol.given types).IsNamed := by
  unfold Symbol.given
  split
  · exact ⟨hnamed.name, hnamed.scope⟩
  · exact hnamed

/-- Each symbol that a program leaves is that of one of its declarations, given values. -/
theorem CompilationUnit.exists_of_mem_analyze {unit : CompilationUnit} {symbol : Symbol}
    (hmem : symbol ∈ unit.analyze.table.toList) :
    ∃ registration ∈ unit.declared, ∃ type types,
      symbol = (registration.entry type).given types := by
  have hvalidated : unit.analyze.table.toList = (unit.register ∅).table.toList.map fun symbol =>
      symbol.given (unit.typesGiven (unit.register ∅).table symbol.key) :=
    unit.toList_table_validate (unit.register ∅).table
  have hregistered : (unit.register ∅).table.toList = (Registration.firsts unit.declared).map
      fun turn => turn.2.entry (turn.2.type? (Registration.tableAfter turn.1)) := by
    rw [register, registrations_eq_declared]
    exact (Registration.sequence_inTurn [] unit.declared).1
  rw [hvalidated, hregistered] at hmem
  obtain ⟨before, hbefore, rfl⟩ := List.mem_map.mp hmem
  obtain ⟨⟨earlier, registration⟩, hfirst, rfl⟩ := List.mem_map.mp hbefore
  obtain ⟨later, hlater⟩ := Registration.exists_append_of_mem_inTurn (List.mem_of_mem_filter hfirst)
  have hdeclared : registration ∈ unit.declared := by
    rw [← List.nil_append unit.declared, hlater]
    exact List.mem_append_cons_self
  exact ⟨registration, hdeclared, _, _, rfl⟩

theorem isNamed_of_mem_compile {source : String} {symbol : Symbol}
    (hmem : symbol ∈ (compile source).table.toList) : symbol.IsNamed := by
  obtain ⟨registration, hdeclared, type, types, rfl⟩ := CompilationUnit.exists_of_mem_analyze hmem
  exact (CompilationUnit.isNamed_of_mem_declared (spelled_compile source) registration hdeclared
    type).given types

end FrontEnd
