import FrontEnd.Proofs.Relabeling.Parser

/-!
Parsing commutes with relabeling. No production asks for more than the kinds of tokens and how many
of them are left.
-/

namespace FrontEnd

namespace Parser

variable {r : Relabeling}

/-! ### Values -/

theorem operand_commutes : Commutes r (Operand.relabel r) operand operand :=
  commutes_ofFunction (readOperand?_relabel r)

theorem call_commutes : Commutes r (Call.relabel r) call call := by
  refine commutes_identifier.bind fun name => ?_
  refine (commutes_token .leftParen).bind fun _ => ?_
  refine (commutes_commit .call).bind fun site => ?_
  refine (operand_commutes.separated site rfl).bind fun arguments => ?_
  refine ((commutes_token .rightParen).require site rfl).bind fun _ => ?_
  exact commutes_pure rfl

theorem arrayOf_commutes {element : Parser ArrayElement}
    (helement : Commutes r (ArrayElement.relabel r) element element) :
    Commutes r (ArrayLiteral.relabel r) (arrayOf element) (arrayOf element) := by
  refine (commutes_moved .leftBracket (by simp)).bind fun bracket => ?_
  refine (commutes_commit .array).bind fun site => ?_
  refine (helement.separated site rfl).bind fun elements => ?_
  refine ((commutes_token .rightBracket).require site rfl).bind fun _ => ?_
  exact commutes_pure rfl

theorem elementWithin_commutes (bound : Nat) :
    Commutes r (ArrayElement.relabel r) (elementWithin bound) (elementWithin bound) := by
  induction bound with
  | zero => exact commutes_reject
  | succ bound ih =>
    refine commutes_firstOf ?_
    simp only [List.mem_cons, List.not_mem_nil, or_false, forall_eq_or_imp, forall_eq]
    refine ⟨(arrayOf_commutes ih).map fun array => ?_, operand_commutes.map fun operand => ?_⟩
    · rw [ArrayLiteral.toElement, ArrayLiteral.toElement, ArrayElement.relabel,
        ArrayElement.relabelAll_eq_map, ArrayLiteral.relabel]
    · rw [ArrayElement.relabel]

theorem array_commutes : Commutes r (ArrayLiteral.relabel r) array array :=
  commutes_bounded fun bound => arrayOf_commutes (elementWithin_commutes bound)

theorem value_commutes : Commutes r (Value.relabel r) value value := by
  refine commutes_firstOf ?_
  simp only [List.mem_cons, List.not_mem_nil, or_false, forall_eq_or_imp, forall_eq]
  exact ⟨call_commutes.map fun _ => rfl, array_commutes.map fun _ => rfl,
    operand_commutes.map fun _ => rfl⟩

theorem payload_commutes : Commutes r (Payload.relabel r) payload payload := by
  refine commutes_firstOf ?_
  simp only [List.mem_cons, List.not_mem_nil, or_false, forall_eq_or_imp, forall_eq]
  exact ⟨call_commutes.map fun _ => rfl, operand_commutes.map fun _ => rfl⟩

/-! ### Declarations -/

theorem variableDeclaration_commutes :
    Commutes r (VariableDeclaration.relabel r) variableDeclaration variableDeclaration := by
  refine (commutes_keyword .var).bind fun word => ?_
  refine (commutes_commit .variableDeclaration).bind fun site => ?_
  refine (commutes_identifier.require site rfl).bind fun name => ?_
  refine ((value_commutes.require site rfl).following (.assignment .set)).bind fun first => ?_
  refine ((commutes_token .terminator).require site rfl).bind fun _ => ?_
  exact commutes_pure rfl

theorem constantDeclaration_commutes :
    Commutes r (ConstantDeclaration.relabel r) constantDeclaration constantDeclaration := by
  refine (commutes_keyword .const).bind fun word => ?_
  refine (commutes_commit .constantDeclaration).bind fun site => ?_
  refine (commutes_identifier.require site rfl).bind fun name => ?_
  refine ((commutes_token (.assignment .set)).require site rfl).bind fun _ => ?_
  refine (value_commutes.require site rfl).bind fun first => ?_
  refine ((commutes_token .terminator).require site rfl).bind fun _ => ?_
  exact commutes_pure rfl

theorem declaration_commutes : Commutes r (Declaration.relabel r) declaration declaration := by
  refine commutes_firstOf ?_
  simp only [List.mem_cons, List.not_mem_nil, or_false, forall_eq_or_imp, forall_eq]
  exact ⟨variableDeclaration_commutes.map fun _ => rfl,
    constantDeclaration_commutes.map fun _ => rfl⟩

/-! ### Statements -/

theorem keywordStatement_commutes (meaning : Keyword) (rule : Rule) :
    Commutes r (fun taken => (taken.1.moved r, taken.2.relabel r))
      (keywordStatement meaning rule) (keywordStatement meaning rule) := by
  refine (commutes_keyword meaning).bind fun word => ?_
  refine (commutes_commit rule).bind fun site => ?_
  refine (payload_commutes.require site rfl).bind fun taken => ?_
  refine ((commutes_token .terminator).require site rfl).bind fun _ => ?_
  exact commutes_pure rfl

theorem block_commutes {statement : Parser Statement}
    (hstatement : Commutes r (Statement.relabel r) statement statement) (site : Site)
    (owner : BlockOwner) :
    Commutes r (List.map (Statement.relabel r)) (block statement site owner)
      (block statement site owner) := by
  refine ((commutes_token .leftBrace).require site rfl).bind fun _ => ?_
  refine hstatement.many.bind fun statements => ?_
  refine ((commutes_token .rightBrace).require site rfl).bind fun _ => ?_
  exact commutes_pure rfl

theorem decision_commutes {statement : Parser Statement}
    (hstatement : Commutes r (Statement.relabel r) statement statement) :
    Commutes r (Statement.relabel r) (decision statement) (decision statement) := by
  refine (commutes_keyword .branch).bind fun word => ?_
  refine (commutes_commit .decision).bind fun site => ?_
  refine ((commutes_token .leftParen).require site rfl).bind fun _ => ?_
  refine (operand_commutes.require site rfl).bind fun condition => ?_
  refine ((commutes_token .rightParen).require site rfl).bind fun _ => ?_
  refine (block_commutes hstatement site .decision).bind fun body => ?_
  refine ((block_commutes hstatement site .alternative).following (.keyword .otherwise)).bind
    fun alternative => commutes_pure ?_
  rw [Statement.relabel, Statement.relabelAll_eq_map, Statement.relabelAlternative_eq_map]

theorem loop_commutes {statement : Parser Statement}
    (hstatement : Commutes r (Statement.relabel r) statement statement) :
    Commutes r (Statement.relabel r) (loop statement) (loop statement) := by
  refine (commutes_keyword .loop).bind fun word => ?_
  refine (commutes_commit .loop).bind fun site => ?_
  refine (block_commutes hstatement site .loop).bind fun body => ?_
  refine ((commutes_keyword .whilst).require site rfl).bind fun _ => ?_
  refine ((commutes_token .leftParen).require site rfl).bind fun _ => ?_
  refine (operand_commutes.require site rfl).bind fun condition => ?_
  refine ((commutes_token .rightParen).require site rfl).bind fun _ => ?_
  refine ((commutes_token .terminator).require site rfl).bind fun _ => commutes_pure ?_
  rw [Statement.relabel, Statement.relabelAll_eq_map]

theorem assignment_commutes : Commutes r (Statement.relabel r) assignment assignment := by
  refine commutes_identifier.bind fun target => ?_
  refine (commutes_token (.assignment .set)).bind fun _ => ?_
  refine (commutes_commit .assignment).bind fun site => ?_
  refine (value_commutes.require site rfl).bind fun given => ?_
  refine ((commutes_token .terminator).require site rfl).bind fun _ => commutes_pure ?_
  rw [Statement.relabel]

theorem callStatement_commutes : Commutes r (Statement.relabel r) callStatement callStatement := by
  refine call_commutes.bind fun called => ?_
  refine (commutes_token .terminator).optional.bind fun _ => commutes_pure ?_
  rw [Statement.relabel]

theorem step_commutes (direction : StepDirection) {kind : TokenKind} (hkind : kind ≠ .identifier) :
    Commutes r (Statement.relabel r) (step direction kind) (step direction kind) := by
  refine commutes_identifier.bind fun target => ?_
  refine (commutes_moved kind hkind).bind fun operator => ?_
  refine (commutes_token .terminator).optional.bind fun _ => commutes_pure ?_
  rw [Statement.relabel]

theorem statementWithin_commutes (bound : Nat) :
    Commutes r (Statement.relabel r) (statementWithin bound) (statementWithin bound) := by
  induction bound with
  | zero => exact commutes_reject
  | succ bound ih =>
    refine commutes_firstOf ?_
    simp only [List.mem_cons, List.not_mem_nil, or_false, forall_eq_or_imp, forall_eq]
    refine ⟨?_, ?_, ?_, decision_commutes ih, ?_, ?_, assignment_commutes, loop_commutes ih,
      callStatement_commutes, step_commutes .increment (by simp),
      step_commutes .decrement (by simp)⟩
    · exact (keywordStatement_commutes .print .print).map fun _ => by rw [Statement.relabel]
    · exact (keywordStatement_commutes .ret .ret).map fun _ => by rw [Statement.relabel]
    · exact (keywordStatement_commutes .read .read).map fun _ => by rw [Statement.relabel]
    · refine variableDeclaration_commutes.map fun _ => ?_
      rw [Statement.relabel, Declaration.relabel]
    · refine constantDeclaration_commutes.map fun _ => ?_
      rw [Statement.relabel, Declaration.relabel]

/-! ### Programs -/

theorem typeWord?_relabel (tokens : List Token) :
    parameter.typeWord? (tokens.map (Token.relabel r)) =
      (parameter.typeWord? tokens).map
        (relabelParsed r fun found => (found.1.moved r, found.2)) := by
  cases tokens with
  | nil => rfl
  | cons token rest =>
    simp only [List.map_cons, parameter.typeWord?, Token.kind_relabel]
    split
    · next word hkind =>
      rw [Token.relabel_of_not_identifier r (by simp [hkind]), Option.map_map]
      rfl
    · rfl

theorem parameter_commutes : Commutes r (Parameter.relabel r) parameter parameter := by
  refine (commutes_ofFunction typeWord?_relabel).bind fun typed => ?_
  refine (commutes_commit .parameter).bind fun site => ?_
  refine (commutes_identifier.require site rfl).bind fun name => ?_
  exact commutes_pure rfl

theorem function_commutes {statement : Parser Statement}
    (hstatement : Commutes r (Statement.relabel r) statement statement) :
    Commutes r (FunctionDeclaration.relabel r) (function statement) (function statement) := by
  refine (commutes_keyword .action).bind fun word => ?_
  refine (commutes_commit .functionDeclaration).bind fun site => ?_
  refine (commutes_identifier.require site rfl).bind fun name => ?_
  refine ((commutes_token .leftParen).require site rfl).bind fun _ => ?_
  refine (parameter_commutes.separated site rfl).bind fun parameters => ?_
  refine ((commutes_token .rightParen).require site rfl).bind fun _ => ?_
  refine (block_commutes hstatement site .function).bind fun body => ?_
  exact commutes_pure rfl

theorem compilationUnit_commutes :
    Commutes r (CompilationUnit.relabel r) compilationUnit compilationUnit := by
  refine commutes_bounded fun bound => ?_
  refine declaration_commutes.many.bind fun declarations => ?_
  refine (function_commutes (statementWithin_commutes bound)).many.bind fun functions => ?_
  refine (statementWithin_commutes bound).many.bind fun statements => ?_
  exact commutes_pure rfl

end Parser

end FrontEnd
