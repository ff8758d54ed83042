import FrontEnd.Analysis.Action
import FrontEnd.Diagnostic.Basic
import FrontEnd.Proofs.Grammar.Tokens
import FrontEnd.Symbol.Table

/-!
Uses of names. A walk over a program lists every name that is read, every target of an assignment or
of a step, and every call, each with the scope that it belongs to. Whether a use is at fault depends
on what is declared: on the values of a scope and whether they may change, and on the functions and
how many arguments they take. Types play no part. The walk goes from left to right and meets every
token of the program once.
-/

namespace FrontEnd

/-- What is done with a name. -/
inductive Use where
  | read
  | assign
  | step (direction : StepDirection)
  /-- A function is called with so many arguments. -/
  | call (arguments : Nat)

/-- A name where it is used. -/
structure Occurrence where
  scope : Scope
  name : Token
  use : Use

/-! ### The walk -/

/-- The names that an operand reads. All other tokens of an operand are literals and operators. -/
def Operand.occurrences (scope : Scope) : Operand → List Occurrence
  | binary left _ right => left.occurrences scope ++ right.occurrences scope
  | unary _ operand => operand.occurrences scope
  | token t => if t.kind = .identifier then [⟨scope, t, .read⟩] else []
  | numeric _ => []

mutual

/-- The names that an element of an array reads, however deep. -/
def ArrayElement.occurrences (scope : Scope) : ArrayElement → List Occurrence
  | .operand o => o.occurrences scope
  | .array _ elements => ArrayElement.occurrencesOf scope elements

/-- The names that elements read, one element after the other. -/
def ArrayElement.occurrencesOf (scope : Scope) : List ArrayElement → List Occurrence
  | [] => []
  | element :: rest => element.occurrences scope ++ ArrayElement.occurrencesOf scope rest

end

/-- The call itself, and then the names that its arguments read. -/
def Call.occurrences (scope : Scope) (call : Call) : List Occurrence :=
  ⟨scope, call.name, .call call.arguments.length⟩
    :: call.arguments.flatMap (Operand.occurrences scope)

def Value.occurrences (scope : Scope) : Value → List Occurrence
  | call c => c.occurrences scope
  | array a => a.toElement.occurrences scope
  | operand o => o.occurrences scope

def Payload.occurrences (scope : Scope) : Payload → List Occurrence
  | call c => c.occurrences scope
  | operand o => o.occurrences scope

/-- The uses in what a name starts with. The name that is declared is not used by that. -/
def Declaration.occurrences (scope : Scope) : Declaration → List Occurrence
  | ofVariable declaration => declaration.value.elim [] (Value.occurrences scope)
  | ofConstant declaration => declaration.value.occurrences scope

mutual

/-- The uses in a statement: the target of an assignment before the value, the condition of a
decision before its branches, and that of a loop after the body. -/
def Statement.occurrences (scope : Scope) : Statement → List Occurrence
  | .print _ payload => payload.occurrences scope
  | .ret _ payload => payload.occurrences scope
  | .read _ payload => payload.occurrences scope
  | .decision _ condition body alternative =>
    condition.occurrences scope
      ++ (Statement.occurrencesOf scope body
        ++ Statement.occurrencesOfAlternative scope alternative)
  | .declare declaration => declaration.occurrences scope
  | .assign target value => ⟨scope, target, .assign⟩ :: value.occurrences scope
  | .loop _ body condition => Statement.occurrencesOf scope body ++ condition.occurrences scope
  | .call c => c.occurrences scope
  | .step direction target _ => [⟨scope, target, .step direction⟩]

/-- The uses in statements, one statement after the other. -/
def Statement.occurrencesOf (scope : Scope) : List Statement → List Occurrence
  | [] => []
  | statement :: rest => statement.occurrences scope ++ Statement.occurrencesOf scope rest

/-- The uses in the alternative of a decision, if it has one. -/
def Statement.occurrencesOfAlternative (scope : Scope) : Option (List Statement) → List Occurrence
  | none => []
  | some body => Statement.occurrencesOf scope body

end

/-- The uses in a body belong to the scope of the function. -/
def FunctionDeclaration.occurrences (function : FunctionDeclaration) : List Occurrence :=
  Statement.occurrencesOf function.scope function.body

/-- All uses of names in a program, in the order in which it is written. -/
def CompilationUnit.occurrences (unit : CompilationUnit) : List Occurrence :=
  unit.declarations.flatMap (Declaration.occurrences .unit)
    ++ unit.functions.flatMap FunctionDeclaration.occurrences
    ++ Statement.occurrencesOf .unit unit.statements

/-! ### The way of the walk -/

/-- The uses stand at tokens among the given ones, from left to right and each at its own. -/
def StandAlong (occurrences : List Occurrence) (tokens : List Token) : Prop :=
  (occurrences.map Occurrence.name).Sublist tokens

namespace StandAlong

variable {occurrences others : List Occurrence} {tokens more : List Token}

theorem nil (tokens : List Token) : StandAlong [] tokens :=
  List.nil_sublist tokens

/-- A token at which no use stands. -/
theorem skip (hstand : StandAlong occurrences tokens) (token : Token) :
    StandAlong occurrences (token :: tokens) :=
  List.Sublist.cons token hstand

theorem meet (hstand : StandAlong occurrences tokens) (scope : Scope) (token : Token) (use : Use) :
    StandAlong (⟨scope, token, use⟩ :: occurrences) (token :: tokens) :=
  List.Sublist.cons_cons token hstand

theorem append (hfirst : StandAlong occurrences tokens) (hsecond : StandAlong others more) :
    StandAlong (occurrences ++ others) (tokens ++ more) := by
  rw [StandAlong, List.map_append]
  exact List.Sublist.append hfirst hsecond

theorem flatMap {α : Type} {uses : α → List Occurrence} {tokens : α → List Token}
    (hitem : ∀ item, StandAlong (uses item) (tokens item)) (items : List α) :
    StandAlong (items.flatMap uses) (items.flatMap tokens) := by
  induction items with
  | nil => exact .nil []
  | cons item rest ih => exact (hitem item).append ih

end StandAlong

section

variable (scope : Scope)

theorem Operand.occurrences_standAlong (operand : Operand) :
    StandAlong (operand.occurrences scope) operand.tokens := by
  induction operand with
  | binary left operator right ihleft ihright => exact ihleft.append (ihright.skip operator)
  | unary operator operand ih => exact ih.skip operator
  | token t =>
    rw [occurrences]
    split
    · exact (StandAlong.nil []).meet scope t .read
    · exact .nil [t]
  | numeric value => exact .nil _

theorem Call.occurrences_standAlong (call : Call) :
    StandAlong (call.occurrences scope) call.tokens :=
  (StandAlong.flatMap (Operand.occurrences_standAlong scope) call.arguments).meet scope call.name _

mutual

theorem ArrayElement.occurrences_standAlong (element : ArrayElement) :
    StandAlong (element.occurrences scope) element.tokens := by
  match element with
  | .operand o =>
    rw [ArrayElement.occurrences, ArrayElement.tokens]
    exact o.occurrences_standAlong scope
  | .array bracket elements =>
    rw [ArrayElement.occurrences, ArrayElement.tokens]
    exact (ArrayElement.occurrencesOf_standAlong elements).skip bracket

theorem ArrayElement.occurrencesOf_standAlong (elements : List ArrayElement) :
    StandAlong (ArrayElement.occurrencesOf scope elements) (ArrayElement.tokensOf elements) := by
  match elements with
  | [] => exact .nil _
  | element :: rest =>
    rw [ArrayElement.occurrencesOf, ArrayElement.tokensOf]
    exact (ArrayElement.occurrences_standAlong element).append
      (ArrayElement.occurrencesOf_standAlong rest)

end

theorem Value.occurrences_standAlong (value : Value) :
    StandAlong (value.occurrences scope) value.tokens := by
  cases value with
  | call c => exact c.occurrences_standAlong scope
  | array a => exact a.toElement.occurrences_standAlong scope
  | operand o => exact o.occurrences_standAlong scope

theorem Payload.occurrences_standAlong (payload : Payload) :
    StandAlong (payload.occurrences scope) payload.tokens := by
  cases payload with
  | call c => exact c.occurrences_standAlong scope
  | operand o => exact o.occurrences_standAlong scope

theorem Declaration.occurrences_standAlong (declaration : Declaration) :
    StandAlong (declaration.occurrences scope) declaration.tokens := by
  cases declaration with
  | ofVariable declaration =>
    obtain ⟨keyword, name, value⟩ := declaration
    cases value with
    | none => exact .nil _
    | some value => exact ((value.occurrences_standAlong scope).skip name).skip keyword
  | ofConstant declaration =>
    exact ((declaration.value.occurrences_standAlong scope).skip declaration.name).skip
      declaration.keyword

mutual

theorem Statement.occurrences_standAlong (statement : Statement) :
    StandAlong (statement.occurrences scope) statement.tokens := by
  match statement with
  | .print keyword payload | .ret keyword payload | .read keyword payload =>
    rw [Statement.occurrences, Statement.tokens]
    exact (payload.occurrences_standAlong scope).skip keyword
  | .decision keyword condition body alternative =>
    rw [Statement.occurrences, Statement.tokens, List.append_assoc]
    exact ((condition.occurrences_standAlong scope).append
      ((Statement.occurrencesOf_standAlong body).append
        (Statement.occurrencesOfAlternative_standAlong alternative))).skip keyword
  | .declare declaration =>
    rw [Statement.occurrences, Statement.tokens]
    exact declaration.occurrences_standAlong scope
  | .assign target value =>
    rw [Statement.occurrences, Statement.tokens]
    exact (value.occurrences_standAlong scope).meet scope target .assign
  | .loop keyword body condition =>
    rw [Statement.occurrences, Statement.tokens]
    exact ((Statement.occurrencesOf_standAlong body).append
      (condition.occurrences_standAlong scope)).skip keyword
  | .call c =>
    rw [Statement.occurrences, Statement.tokens]
    exact c.occurrences_standAlong scope
  | .step direction target operator =>
    rw [Statement.occurrences, Statement.tokens]
    exact (StandAlong.nil [operator]).meet scope target (.step direction)

theorem Statement.occurrencesOf_standAlong (statements : List Statement) :
    StandAlong (Statement.occurrencesOf scope statements) (Statement.tokensOf statements) := by
  match statements with
  | [] => exact .nil _
  | statement :: rest =>
    rw [Statement.occurrencesOf, Statement.tokensOf]
    exact (Statement.occurrences_standAlong statement).append
      (Statement.occurrencesOf_standAlong rest)

theorem Statement.occurrencesOfAlternative_standAlong (alternative : Option (List Statement)) :
    StandAlong (Statement.occurrencesOfAlternative scope alternative)
      (Statement.tokensOfAlternative alternative) := by
  match alternative with
  | none => exact .nil _
  | some body =>
    rw [Statement.occurrencesOfAlternative, Statement.tokensOfAlternative]
    exact Statement.occurrencesOf_standAlong body

end

end

theorem FunctionDeclaration.occurrences_standAlong (function : FunctionDeclaration) :
    StandAlong function.occurrences function.tokens := by
  have hparameters := StandAlong.nil (function.parameters.flatMap Parameter.tokens)
  have hbody := Statement.occurrencesOf_standAlong function.scope function.body
  exact ((hparameters.append hbody).skip function.name).skip function.keyword

theorem CompilationUnit.occurrences_standAlong (unit : CompilationUnit) :
    StandAlong unit.occurrences unit.tokens :=
  ((StandAlong.flatMap (Declaration.occurrences_standAlong .unit) unit.declarations).append
    (StandAlong.flatMap FunctionDeclaration.occurrences_standAlong unit.functions)).append
      (Statement.occurrencesOf_standAlong .unit unit.statements)

/-! ### Faults -/

/-- What is declared, as far as uses go. -/
structure Declared where
  /-- Whether the value of the name in the scope may change, if there is one. -/
  isMutable? : String → Scope → Option Bool
  /-- How many arguments the function of the name takes, if there is one. -/
  parameterCount? : String → Option Nat

namespace Declared

/-- What a table declares. -/
def ofTable (table : SymbolTable) : Declared where
  isMutable? name scope := (table.value? name scope).map Symbol.isMutable
  parameterCount? name :=
    (table.function? name).map fun function => function.role.parameterTypes.length

/-- What is wrong with the use of a value, given what the use must not do to a constant. -/
def valueProblem? (declared : Declared) (scope : Scope) (name : String)
    (onConstant : Option SemanticProblem) : Option SemanticProblem :=
  match declared.isMutable? name scope with
  | none => some (.undeclaredVariable name scope.label)
  | some true => none
  | some false => onConstant

/-- What is wrong with a call of a function. -/
def callProblem? (declared : Declared) (name : String) (found : Nat) : Option SemanticProblem :=
  match declared.parameterCount? name with
  | none => some (.undeclaredFunction name)
  | some expected => if found = expected then none else some (.argumentCount name expected found)

end Declared

namespace Occurrence

/-- What is wrong with the use of a name, if anything. -/
def problem? (declared : Declared) (occurrence : Occurrence) : Option SemanticProblem :=
  let name := occurrence.name.lexeme
  match occurrence.use with
  | .read => declared.valueProblem? occurrence.scope name none
  | .assign => declared.valueProblem? occurrence.scope name (some (.constantAssigned name))
  | .step direction =>
    declared.valueProblem? occurrence.scope name (some (.constantStepped direction name))
  | .call found => declared.callProblem? name found

/-- The diagnostic on a use at fault, at the place of the name. -/
def fault? (declared : Declared) (occurrence : Occurrence) : Option Diagnostic :=
  (occurrence.problem? declared).map fun problem => .ofMeaning problem occurrence.name

end Occurrence

/-- Whether a problem is one of those that the use of a name can have. -/
def SemanticProblem.isAboutNames : SemanticProblem → Bool
  | undeclaredVariable .. | undeclaredFunction .. | constantAssigned .. | constantStepped ..
  | argumentCount .. => true
  | _ => false

def Diagnostic.isAboutNames (diagnostic : Diagnostic) : Bool :=
  match diagnostic.problem with
  | .inSyntax _ => false
  | .inMeaning problem => problem.isAboutNames

end FrontEnd
