import FrontEnd.Proofs.Outline.Label

/-!
Reading the outlines of operands, arrays and calls. Each is determined by its outline, apart from
the places of its tokens.
-/

namespace FrontEnd

open Grammar

/-! ### Operands -/

/-- Operations are told apart by the number of their parts, what has no parts by its heading. -/
def Operand.ofOutline : Outline → Operand
  | .node _ [left, operator, right] =>
    .binary (ofOutline left) (.ofLexeme operator.detail) (ofOutline right)
  | .node _ [operator, operand] => .unary (.ofLexeme operator.detail) (ofOutline operand)
  | .node label children =>
    let outline := Outline.node label children
    if outline.heading? = some .number then .numeric (.ofText outline.detail)
    else .token (.ofLexeme outline.detail)

theorem Operand.ofOutline_of_children_eq_nil {outline : Outline}
    (hchildren : outline.children = []) :
    Operand.ofOutline outline =
      if outline.heading? = some .number then .numeric (.ofText outline.detail)
      else .token (.ofLexeme outline.detail) := by
  cases outline with
  | node label children =>
    cases hchildren
    rfl

theorem Token.reads_outline (token : Token)
    (hkind : token.kind = .identifier ∨ token.kind = .string ∨ token.kind = .char) :
    token.outline.heading? = none ∧ token.outline.detail = token.lexeme := by
  have hfront : (token.kind.text ++ ": ").toList = token.kind.text.toList ++ [':', ' '] :=
    String.toList_append
  obtain ⟨hfree, hnone⟩ : ':' ∉ token.kind.text.toList ∧
      Heading.ofText? token.kind.text.toList = none := by
    rcases hkind with h | h | h <;> rw [h] <;> decide
  refine ⟨?_, Outline.detail_node _ hfront hfree token.lexeme []⟩
  exact (congrArg Heading.ofText? (Outline.before_colon _ hfront hfree token.lexeme)).trans hnone

theorem NumericValue.reads_outline (value : NumericValue) :
    value.outline.heading? = some .number ∧ value.outline.detail = value.text :=
  ⟨Outline.heading?_node .number (by decide) _ _, Outline.detail_of_heading .number (by decide) _ _⟩

theorem detail_operator (operator : Token) :
    (Outline.leaf s!"Operator: {operator.lexeme}").detail = operator.lexeme :=
  Outline.detail_node "Operator".toList (by decide) (by decide) _ _

theorem heading?_expression (children : List Outline) :
    (Outline.node "Expression" children).heading? = none := by
  have hfree : ':' ∉ "Expression".toList := by decide
  rw [Outline.heading?, Outline.label, before_eq_self hfree]
  decide

theorem heading?_none_or_number {tier : Tier} {tokens : List Token} {operand : Operand}
    (hoperand : IsOperand tier tokens operand) :
    operand.outline.heading? = none ∨ operand.outline.heading? = some .number := by
  induction hoperand with
  | tighter _ ih | atom _ ih | parenthesized _ _ _ ih => exact ih
  | binary | negation => exact .inl (heading?_expression _)
  | name hkind | string hkind | char hkind =>
    exact .inl (Token.reads_outline _ (by simp [hkind])).1
  | number | signed => exact .inr (NumericValue.reads_outline _).1

/-- The outline of an operand is not taken for another sort of value. -/
theorem Operand.heading?_outline_ne {operand : Operand} (hspelled : Spelled IsExpression operand) :
    operand.outline.heading? ≠ some .call ∧ operand.outline.heading? ≠ some .array := by
  obtain ⟨tokens, hoperand, -⟩ := hspelled
  rcases heading?_none_or_number hoperand with h | h <;> simp [h]

theorem Grammar.IsOperand.ofOutline_outline {tier : Tier} {tokens : List Token} {operand : Operand}
    (hoperand : IsOperand tier tokens operand) (hspelled : ∀ t ∈ tokens, t.IsSpelled) :
    Operand.ofOutline operand.outline = operand.mapTokens Token.essence := by
  induction hoperand with
  | tighter _ ih | atom _ ih => exact ih hspelled
  | @binary level before after operator left right hleft hoperator hright ihleft ihright =>
    simp only [List.forall_mem_append, List.forall_mem_cons] at hspelled
    rw [Operand.outline, Operand.ofOutline, ihleft hspelled.1, ihright hspelled.2.2,
      detail_operator, hspelled.2.1.ofLexeme_eq (Level.known_of_ofKind? hoperator),
      Operand.mapTokens]
  | negation hnot _ ih =>
    simp only [List.forall_mem_cons] at hspelled
    rw [Operand.outline, Operand.ofOutline, ih hspelled.2, detail_operator,
      hspelled.1.ofLexeme_eq (by simp [hnot]), Operand.mapTokens]
  | parenthesized _ _ _ ih =>
    simp only [List.cons_append, List.forall_mem_cons, List.forall_mem_append] at hspelled
    exact ih hspelled.2.1
  | @name token hkind | @string token hkind | @char token hkind =>
    obtain ⟨hheading, hdetail⟩ := token.reads_outline (by simp [hkind])
    have hword := (hspelled token List.mem_cons_self).ofLexeme_eq (by simp [hkind])
    rw [Operand.outline, Operand.ofOutline_of_children_eq_nil rfl, hheading, hdetail, hword,
      if_neg (Option.some_ne_none _).symm, Operand.mapTokens]
  | @number number hkind =>
    obtain ⟨hheading, hdetail⟩ := NumericValue.reads_outline ⟨none, number⟩
    have hvalue := NumericValue.ofText_number (hspelled number List.mem_cons_self) hkind
    rw [Operand.outline, Operand.ofOutline_of_children_eq_nil rfl, if_pos hheading, hdetail, hvalue,
      Operand.mapTokens, NumericValue.mapTokens, Option.map_none]
  | @signed sign number hsign hkind =>
    simp only [List.forall_mem_cons] at hspelled
    obtain ⟨hheading, hdetail⟩ := NumericValue.reads_outline ⟨some sign, number⟩
    have hvalue := NumericValue.ofText_signed hspelled.1 hsign hspelled.2.1 hkind
    rw [Operand.outline, Operand.ofOutline_of_children_eq_nil rfl, if_pos hheading, hdetail, hvalue,
      Operand.mapTokens, NumericValue.mapTokens, Option.map_some]

theorem Operand.ofOutline_outline {operand : Operand} (hspelled : Spelled IsExpression operand) :
    Operand.ofOutline operand.outline = operand.mapTokens Token.essence := by
  obtain ⟨tokens, hoperand, hspelled⟩ := hspelled
  exact hoperand.ofOutline_outline hspelled

/-! ### Calls -/

def Call.ofOutline (outline : Outline) : Call where
  name := .ofLexeme outline.detail
  arguments := (outline.children.flatMap Outline.children).map Operand.ofOutline

theorem Call.heading?_outline (call : Call) : call.outline.heading? = some .call :=
  Outline.heading?_node .call (by decide) _ _

theorem Call.ofOutline_outline {call : Call} (hspelled : Spelled IsCall call) :
    Call.ofOutline call.outline = call.mapTokens Token.essence := by
  obtain ⟨tokens, hcall, hspelled⟩ := hspelled
  cases hcall with
  | @mk name opening closing tokens arguments hname hopening harguments hclosing =>
    have hdetail : (Call.mk name arguments).outline.detail = name.lexeme :=
      Outline.detail_of_heading .call (by decide) _ _
    have hword := (hspelled name List.mem_cons_self).ofLexeme_eq (by simp [hname])
    have harguments : ∀ argument ∈ arguments, Spelled IsExpression argument :=
      Spelled.of_separated ⟨tokens, harguments, fun t hmem => hspelled t (by simp [hmem])⟩
    have hchildren : (Call.mk name arguments).outline.children.flatMap Outline.children =
        arguments.map Operand.outline := by
      rw [Call.outline, Outline.children, List.flatMap_map]
      exact List.flatMap_pure_eq_map _ _
    rw [Call.ofOutline, hdetail, hword, hchildren, List.map_map, Call.mapTokens]
    congr 1
    exact List.map_congr_left fun argument hmem =>
      Operand.ofOutline_outline (harguments argument hmem)

/-! ### Arrays -/

mutual

def ArrayElement.ofOutline : Outline → ArrayElement
  | .node label children =>
    if (Outline.node label children).heading? = some .array then
      .array (.ofLexeme "[") (ArrayElement.ofOutlines children)
    else .operand (.ofOutline (.node label children))

def ArrayElement.ofOutlines : List Outline → List ArrayElement
  | [] => []
  | outline :: rest => ArrayElement.ofOutline outline :: ArrayElement.ofOutlines rest

end

theorem ArrayElement.ofOutline_of_heading?_ne {outline : Outline}
    (hheading : outline.heading? ≠ some .array) :
    ArrayElement.ofOutline outline = .operand (.ofOutline outline) := by
  cases outline with
  | node label children => rw [ofOutline, if_neg hheading]

mutual

theorem ArrayElement.ofOutline_outline (element : ArrayElement)
    (hspelled : Spelled IsElement element) :
    ArrayElement.ofOutline element.outline = element.mapTokens Token.essence := by
  obtain ⟨tokens, helement, hspelled⟩ := hspelled
  match element with
  | .operand o =>
    cases helement with
    | operand hoperand =>
      have ho : Spelled IsExpression o := ⟨tokens, hoperand, hspelled⟩
      have hheading := (Operand.heading?_outline_ne ho).2
      rw [ArrayElement.outline, ArrayElement.ofOutline_of_heading?_ne hheading,
        Operand.ofOutline_outline ho, ArrayElement.mapTokens]
  | .array bracket elements =>
    cases helement with
    | @array _ closing tokens _ hopening helements hclosing =>
      have helements : ∀ element ∈ elements, Spelled IsElement element :=
        Spelled.of_separated ⟨tokens, helements, fun t hmem => hspelled t (by simp [hmem])⟩
      have hbracket : bracket.essence = Token.ofLexeme "[" :=
        (hspelled bracket List.mem_cons_self).essence_eq hopening (by simp)
          fun _ hword => hword.eq_of_leftBracket
      have hheading : (Outline.node "Array" (ArrayElement.outlines elements)).heading? =
          some .array := Outline.heading?_text .array _
      rw [ArrayElement.outline, ArrayElement.ofOutline, if_pos hheading,
        ArrayElement.ofOutlines_outlines elements helements, ArrayElement.mapTokens, hbracket]

theorem ArrayElement.ofOutlines_outlines (elements : List ArrayElement)
    (hspelled : ∀ element ∈ elements, Spelled IsElement element) :
    ArrayElement.ofOutlines (ArrayElement.outlines elements) =
      ArrayElement.mapTokensAll Token.essence elements := by
  match elements with
  | [] => rfl
  | element :: rest =>
    obtain ⟨helement, hrest⟩ := List.forall_mem_cons.mp hspelled
    rw [ArrayElement.outlines, ArrayElement.ofOutlines, ArrayElement.mapTokensAll,
      ArrayElement.ofOutline_outline element helement, ArrayElement.ofOutlines_outlines rest hrest]

end

/-! ### Values -/

def Value.ofOutline (outline : Outline) : Value :=
  if outline.heading? = some .call then .call (.ofOutline outline)
  else
    match ArrayElement.ofOutline outline with
    | .array bracket elements => .array ⟨bracket, elements⟩
    | .operand o => .operand o

theorem Value.ofOutline_outline {value : Value} (hspelled : Spelled IsValue value) :
    Value.ofOutline value.outline = value.mapTokens Token.essence := by
  obtain ⟨tokens, hvalue, hspelled⟩ := hspelled
  cases hvalue with
  | @call c hcall =>
    rw [Value.outline, Value.ofOutline, if_pos c.heading?_outline,
      Call.ofOutline_outline ⟨tokens, hcall, hspelled⟩, Value.mapTokens]
  | @array array harray =>
    have helement := ArrayElement.ofOutline_outline array.toElement ⟨tokens, harray, hspelled⟩
    have hheading : array.outline.heading? = some .array := by
      rw [ArrayLiteral.outline, ArrayLiteral.toElement, ArrayElement.outline]
      exact Outline.heading?_text .array _
    rw [← ArrayLiteral.outline] at helement
    rw [Value.outline, Value.ofOutline, hheading, if_neg (by decide), helement]
    rfl
  | @operand o hoperand =>
    have ho : Spelled IsExpression o := ⟨tokens, hoperand, hspelled⟩
    obtain ⟨hcall, harray⟩ := Operand.heading?_outline_ne ho
    rw [Value.outline, Value.ofOutline, if_neg hcall, ArrayElement.ofOutline_of_heading?_ne harray,
      Operand.ofOutline_outline ho, Value.mapTokens]

def Payload.ofOutline (outline : Outline) : Payload :=
  if outline.heading? = some .call then .call (.ofOutline outline)
  else .operand (.ofOutline outline)

theorem Payload.ofOutline_outline {payload : Payload} (hspelled : Spelled IsPayload payload) :
    Payload.ofOutline payload.outline = payload.mapTokens Token.essence := by
  obtain ⟨tokens, hpayload, hspelled⟩ := hspelled
  cases hpayload with
  | @call c hcall =>
    rw [Payload.outline, Payload.ofOutline, if_pos c.heading?_outline,
      Call.ofOutline_outline ⟨tokens, hcall, hspelled⟩, Payload.mapTokens]
  | @operand o hoperand =>
    have ho : Spelled IsExpression o := ⟨tokens, hoperand, hspelled⟩
    have hcall := (Operand.heading?_outline_ne ho).1
    rw [Payload.outline, Payload.ofOutline, if_neg hcall, Operand.ofOutline_outline ho,
      Payload.mapTokens]

end FrontEnd
