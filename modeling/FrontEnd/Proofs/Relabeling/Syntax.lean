import FrontEnd.Outline.Syntax
import FrontEnd.Symbol.Basic

/-!
Programs with other names and other places. A relabeling gives every name another one and every
place another one, and leaves all other spellings and all kinds of tokens as they are.
-/

namespace FrontEnd

/-- New names, new scopes and new places. -/
structure Relabeling where
  name : String → String
  scope : Scope → Scope
  location : Location → Location

namespace Relabeling

/-- A relabeling that only moves things. -/
def ofLocation (location : Location → Location) : Relabeling :=
  ⟨id, id, location⟩

/-- Distinct names and distinct scopes stay distinct, and scopes follow the names of functions. -/
structure Faithful (r : Relabeling) : Prop where
  name_inj : ∀ {first second : String}, r.name first = r.name second → first = second
  scope_inj : ∀ {first second : Scope}, r.scope first = r.scope second → first = second
  scope_unit : r.scope .unit = .unit
  scope_function : ∀ name, r.scope (.function name) = .function (r.name name)

theorem faithful_ofLocation (location : Location → Location) :
    (ofLocation location).Faithful where
  name_inj hname := hname
  scope_inj hscope := hscope
  scope_unit := rfl
  scope_function _ := rfl

end Relabeling

variable (r : Relabeling)

/-! ### Tokens and operands -/

namespace Token

/-- A token at its new place. -/
def moved (t : Token) : Token :=
  ⟨t.kind, t.lexeme, r.location t.location⟩

/-- A name at its new place. -/
def renamed (t : Token) : Token :=
  ⟨t.kind, r.name t.lexeme, r.location t.location⟩

/-- Names are the lexemes of identifiers. -/
def relabel (t : Token) : Token :=
  if t.kind = .identifier then t.renamed r else t.moved r

theorem relabel_of_identifier {t : Token} (hkind : t.kind = .identifier) :
    t.relabel r = t.renamed r := if_pos hkind

theorem relabel_of_not_identifier {t : Token} (hkind : t.kind ≠ .identifier) :
    t.relabel r = t.moved r := if_neg hkind

@[simp] theorem kind_moved (t : Token) : (t.moved r).kind = t.kind := rfl

@[simp] theorem lexeme_moved (t : Token) : (t.moved r).lexeme = t.lexeme := rfl

@[simp] theorem kind_renamed (t : Token) : (t.renamed r).kind = t.kind := rfl

@[simp] theorem lexeme_renamed (t : Token) : (t.renamed r).lexeme = r.name t.lexeme := rfl

@[simp] theorem kind_relabel (t : Token) : (t.relabel r).kind = t.kind := by
  unfold relabel
  split <;> rfl

@[simp] theorem location_relabel (t : Token) :
    (t.relabel r).location = r.location t.location := by
  unfold relabel
  split <;> rfl

theorem relabel_ofLocation (location : Location → Location) (t : Token) :
    t.relabel (.ofLocation location) = ⟨t.kind, t.lexeme, location t.location⟩ := by
  unfold relabel
  split <;> rfl

end Token

def NumericValue.relabel (value : NumericValue) : NumericValue :=
  ⟨value.sign.map (Token.moved r), value.number.moved r⟩

def Operand.relabel : Operand → Operand
  | binary left operator right => .binary left.relabel (operator.moved r) right.relabel
  | unary operator operand => .unary (operator.moved r) operand.relabel
  | token t => .token (t.relabel r)
  | numeric value => .numeric (value.relabel r)

/-! ### Values -/

def Call.relabel (call : Call) : Call :=
  ⟨call.name.renamed r, call.arguments.map (Operand.relabel r)⟩

mutual

def ArrayElement.relabel : ArrayElement → ArrayElement
  | .operand o => .operand (o.relabel r)
  | .array bracket elements => .array (bracket.moved r) (ArrayElement.relabelAll elements)

def ArrayElement.relabelAll : List ArrayElement → List ArrayElement
  | [] => []
  | element :: rest => element.relabel :: ArrayElement.relabelAll rest

end

theorem ArrayElement.relabelAll_eq_map (elements : List ArrayElement) :
    ArrayElement.relabelAll r elements = elements.map (ArrayElement.relabel r) := by
  induction elements with
  | nil => rw [relabelAll, List.map_nil]
  | cons element rest ih => rw [relabelAll, ih, List.map_cons]

def ArrayLiteral.relabel (array : ArrayLiteral) : ArrayLiteral :=
  ⟨array.bracket.moved r, array.elements.map (ArrayElement.relabel r)⟩

def Value.relabel : Value → Value
  | call c => .call (c.relabel r)
  | array a => .array (a.relabel r)
  | operand o => .operand (o.relabel r)

def Payload.relabel : Payload → Payload
  | call c => .call (c.relabel r)
  | operand o => .operand (o.relabel r)

/-! ### Statements and programs -/

def VariableDeclaration.relabel (declaration : VariableDeclaration) : VariableDeclaration :=
  ⟨declaration.keyword.moved r, declaration.name.renamed r,
    declaration.value.map (Value.relabel r)⟩

def ConstantDeclaration.relabel (declaration : ConstantDeclaration) : ConstantDeclaration :=
  ⟨declaration.keyword.moved r, declaration.name.renamed r, declaration.value.relabel r⟩

def Declaration.relabel : Declaration → Declaration
  | ofVariable declaration => .ofVariable (declaration.relabel r)
  | ofConstant declaration => .ofConstant (declaration.relabel r)

mutual

def Statement.relabel : Statement → Statement
  | .print keyword payload => .print (keyword.moved r) (payload.relabel r)
  | .ret keyword payload => .ret (keyword.moved r) (payload.relabel r)
  | .read keyword payload => .read (keyword.moved r) (payload.relabel r)
  | .decision keyword condition body alternative =>
    .decision (keyword.moved r) (condition.relabel r) (Statement.relabelAll body)
      (Statement.relabelAlternative alternative)
  | .declare declaration => .declare (declaration.relabel r)
  | .assign target value => .assign (target.renamed r) (value.relabel r)
  | .loop keyword body condition =>
    .loop (keyword.moved r) (Statement.relabelAll body) (condition.relabel r)
  | .call c => .call (c.relabel r)
  | .step direction target operator => .step direction (target.renamed r) (operator.moved r)

def Statement.relabelAll : List Statement → List Statement
  | [] => []
  | statement :: rest => statement.relabel :: Statement.relabelAll rest

def Statement.relabelAlternative : Option (List Statement) → Option (List Statement)
  | none => none
  | some body => some (Statement.relabelAll body)

end

theorem Statement.relabelAll_eq_map (statements : List Statement) :
    Statement.relabelAll r statements = statements.map (Statement.relabel r) := by
  induction statements with
  | nil => rw [relabelAll, List.map_nil]
  | cons statement rest ih => rw [relabelAll, ih, List.map_cons]

theorem Statement.relabelAlternative_eq_map (alternative : Option (List Statement)) :
    Statement.relabelAlternative r alternative =
      alternative.map (List.map (Statement.relabel r)) := by
  cases alternative with
  | none => rw [relabelAlternative, Option.map_none]
  | some body => rw [relabelAlternative, relabelAll_eq_map, Option.map_some]

def Parameter.relabel (parameter : Parameter) : Parameter :=
  ⟨parameter.keyword.moved r, parameter.type, parameter.name.renamed r⟩

def FunctionDeclaration.relabel (function : FunctionDeclaration) : FunctionDeclaration :=
  ⟨function.keyword.moved r, function.name.renamed r,
    function.parameters.map (Parameter.relabel r), function.body.map (Statement.relabel r)⟩

def CompilationUnit.relabel (unit : CompilationUnit) : CompilationUnit :=
  ⟨unit.declarations.map (Declaration.relabel r),
    unit.functions.map (FunctionDeclaration.relabel r),
    unit.statements.map (Statement.relabel r)⟩

/-- A symbol under its new name, in its new scope and at its new place. -/
def Symbol.relabel (symbol : Symbol) : Symbol :=
  { symbol with
    name := r.name symbol.name
    scope := r.scope symbol.scope
    location := r.location symbol.location }

end FrontEnd
