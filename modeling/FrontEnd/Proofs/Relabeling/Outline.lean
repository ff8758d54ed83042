import FrontEnd.Outline.Syntax
import FrontEnd.Proofs.Relabeling.Environment

/-!
An outline shows no places: a program whose tokens are only moved has the same outline.
-/

namespace FrontEnd

variable {location : Location → Location}

theorem Token.outline_relabel_ofLocation (t : Token) :
    (t.relabel (.ofLocation location)).outline = t.outline := by
  rw [Token.relabel_ofLocation]
  rfl

theorem NumericValue.outline_relabel_ofLocation (value : NumericValue) :
    (value.relabel (.ofLocation location)).outline = value.outline := by
  obtain ⟨sign, number⟩ := value
  cases sign <;> rfl

theorem Operand.outline_relabel_ofLocation (o : Operand) :
    (o.relabel (.ofLocation location)).outline = o.outline := by
  induction o with
  | binary left operator right ihleft ihright =>
    simp only [Operand.relabel, Operand.outline, ihleft, ihright, Token.lexeme_moved]
  | unary operator operand ih =>
    simp only [Operand.relabel, Operand.outline, ih, Token.lexeme_moved]
  | token t => exact t.outline_relabel_ofLocation
  | numeric value => exact value.outline_relabel_ofLocation

theorem Call.outline_relabel_ofLocation (c : Call) :
    (c.relabel (.ofLocation location)).outline = c.outline := by
  unfold Call.outline Call.relabel
  rw [List.map_map]
  simp only [Function.comp_def, Operand.outline_relabel_ofLocation]
  rfl

mutual

theorem ArrayElement.outline_relabel_ofLocation (element : ArrayElement) :
    (element.relabel (.ofLocation location)).outline = element.outline := by
  match element with
  | .operand o =>
    rw [ArrayElement.relabel, ArrayElement.outline, ArrayElement.outline,
      o.outline_relabel_ofLocation]
  | .array bracket elements =>
    rw [ArrayElement.relabel, ArrayElement.outline, ArrayElement.outline,
      ArrayElement.outlines_relabel_ofLocation elements]

theorem ArrayElement.outlines_relabel_ofLocation (elements : List ArrayElement) :
    ArrayElement.outlines (ArrayElement.relabelAll (.ofLocation location) elements) =
      ArrayElement.outlines elements := by
  match elements with
  | [] => rw [ArrayElement.relabelAll]
  | element :: rest =>
    rw [ArrayElement.relabelAll, ArrayElement.outlines, ArrayElement.outlines,
      ArrayElement.outline_relabel_ofLocation element,
      ArrayElement.outlines_relabel_ofLocation rest]

end

theorem Value.outline_relabel_ofLocation (value : Value) :
    (value.relabel (.ofLocation location)).outline = value.outline := by
  cases value with
  | call c => exact c.outline_relabel_ofLocation
  | array array =>
    rw [Value.relabel, Value.outline, Value.outline, ArrayLiteral.outline, ArrayLiteral.outline,
      ArrayLiteral.toElement_relabel, ArrayElement.outline_relabel_ofLocation]
  | operand o => exact o.outline_relabel_ofLocation

theorem Payload.outline_relabel_ofLocation (payload : Payload) :
    (payload.relabel (.ofLocation location)).outline = payload.outline := by
  cases payload with
  | call c => exact c.outline_relabel_ofLocation
  | operand o => exact o.outline_relabel_ofLocation

theorem Declaration.outline_relabel_ofLocation (declaration : Declaration) :
    (declaration.relabel (.ofLocation location)).outline = declaration.outline := by
  cases declaration with
  | ofVariable declaration =>
    obtain ⟨keyword, name, value⟩ := declaration
    cases value with
    | none => rfl
    | some value =>
      simp only [Declaration.relabel, VariableDeclaration.relabel, Declaration.outline,
        Option.map_some, Value.outline_relabel_ofLocation, Token.lexeme_renamed]
      rfl
  | ofConstant declaration =>
    simp only [Declaration.relabel, ConstantDeclaration.relabel, Declaration.outline,
      Value.outline_relabel_ofLocation, Token.lexeme_renamed]
    rfl

mutual

theorem Statement.outline_relabel_ofLocation (statement : Statement) :
    (statement.relabel (.ofLocation location)).outline = statement.outline := by
  match statement with
  | .print keyword payload =>
    rw [Statement.relabel, Statement.outline, Statement.outline,
      payload.outline_relabel_ofLocation]
  | .ret keyword payload =>
    rw [Statement.relabel, Statement.outline, Statement.outline,
      payload.outline_relabel_ofLocation]
  | .read keyword payload =>
    rw [Statement.relabel, Statement.outline, Statement.outline,
      payload.outline_relabel_ofLocation]
  | .decision keyword condition body alternative =>
    rw [Statement.relabel, Statement.outline, Statement.outline,
      condition.outline_relabel_ofLocation, Statement.outlines_relabel_ofLocation body,
      Statement.alternativeOutline_relabel_ofLocation alternative]
  | .declare declaration =>
    rw [Statement.relabel, Statement.outline, Statement.outline,
      declaration.outline_relabel_ofLocation]
  | .assign target value =>
    rw [Statement.relabel, Statement.outline, Statement.outline, value.outline_relabel_ofLocation]
    rfl
  | .loop keyword body condition =>
    rw [Statement.relabel, Statement.outline, Statement.outline,
      condition.outline_relabel_ofLocation, Statement.outlines_relabel_ofLocation body]
  | .call c =>
    rw [Statement.relabel, Statement.outline, Statement.outline, c.outline_relabel_ofLocation]
  | .step .increment target operator =>
    rw [Statement.relabel, Statement.outline, Statement.outline]
    rfl
  | .step .decrement target operator =>
    rw [Statement.relabel, Statement.outline, Statement.outline]
    rfl

theorem Statement.outlines_relabel_ofLocation (statements : List Statement) :
    Statement.outlines (Statement.relabelAll (.ofLocation location) statements) =
      Statement.outlines statements := by
  match statements with
  | [] => rw [Statement.relabelAll]
  | statement :: rest =>
    rw [Statement.relabelAll, Statement.outlines, Statement.outlines,
      Statement.outline_relabel_ofLocation statement, Statement.outlines_relabel_ofLocation rest]

theorem Statement.alternativeOutline_relabel_ofLocation (alternative : Option (List Statement)) :
    Statement.alternativeOutline (Statement.relabelAlternative (.ofLocation location) alternative) =
      Statement.alternativeOutline alternative := by
  match alternative with
  | none => rw [Statement.relabelAlternative]
  | some body =>
    rw [Statement.relabelAlternative, Statement.alternativeOutline, Statement.alternativeOutline,
      Statement.outlines_relabel_ofLocation body]

end

theorem FunctionDeclaration.outline_relabel_ofLocation (function : FunctionDeclaration) :
    (function.relabel (.ofLocation location)).outline = function.outline := by
  unfold FunctionDeclaration.outline FunctionDeclaration.relabel
  simp only [← Statement.relabelAll_eq_map, Statement.outlines_relabel_ofLocation, List.map_map]
  rfl

theorem CompilationUnit.outline_relabel_ofLocation (unit : CompilationUnit) :
    (unit.relabel (.ofLocation location)).outline = unit.outline := by
  unfold CompilationUnit.outline CompilationUnit.relabel
  simp only [← Statement.relabelAll_eq_map, Statement.outlines_relabel_ofLocation, List.map_map,
    Function.comp_def, Declaration.outline_relabel_ofLocation,
    FunctionDeclaration.outline_relabel_ofLocation]

end FrontEnd
