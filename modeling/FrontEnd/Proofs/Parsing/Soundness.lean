import FrontEnd.Parsing.Unit
import FrontEnd.Proofs.Parsing.Combinators
import FrontEnd.Proofs.Parsing.Operand

/-!
Every production takes only what the grammar derives, and returns the tree of that derivation. This
holds whatever failures were recorded before, so a swallowed failure never lets anything through.
-/

namespace FrontEnd.Parser

open Grammar

theorem operand_sound : operand.Sound IsExpression :=
  fun _ _ _ hparses => isExpression_of_readOperand? (parses_ofFunction hparses)

theorem call_sound : call.Sound IsCall := by
  intro tokens called rest hparses
  obtain ⟨name, _, rfl, hnameKind, hafterName⟩ := parses_token_bind hparses
  obtain ⟨opening, _, rfl, hopeningKind, hafterOpening⟩ := parses_token_bind hafterName
  obtain ⟨site, hcommitted⟩ := parses_commit_bind hafterOpening
  obtain ⟨arguments, taken, _, rfl, htaken, hafterArguments⟩ :=
    operand_sound.separated.of_bind hcommitted
  obtain ⟨closing, _, rfl, hclosingKind, hafterClosing⟩ := parses_require_token_bind hafterArguments
  obtain ⟨rfl, rfl⟩ := parses_pure hafterClosing
  exact ⟨name :: opening :: (taken ++ [closing]), by simp,
    .mk hnameKind hopeningKind htaken hclosingKind⟩

theorem arrayOf_sound {element : Parser ArrayElement} (helement : element.Sound IsElement) :
    (arrayOf element).Sound IsArray := by
  intro tokens array rest hparses
  obtain ⟨opening, _, rfl, hopeningKind, hafterOpening⟩ := parses_token_bind hparses
  obtain ⟨site, hcommitted⟩ := parses_commit_bind hafterOpening
  obtain ⟨elements, taken, _, rfl, htaken, hafterElements⟩ := helement.separated.of_bind hcommitted
  obtain ⟨closing, _, rfl, hclosingKind, hafterClosing⟩ := parses_require_token_bind hafterElements
  obtain ⟨rfl, rfl⟩ := parses_pure hafterClosing
  exact ⟨opening :: (taken ++ [closing]), by simp, .array hopeningKind htaken hclosingKind⟩

theorem elementWithin_sound (bound : Nat) : (elementWithin bound).Sound IsElement := by
  induction bound with
  | zero => exact sound_reject
  | succ bound ih =>
    apply sound_firstOf
    simp only [List.mem_cons, List.not_mem_nil, or_false, forall_eq_or_imp, forall_eq]
    exact ⟨(arrayOf_sound ih).map id, operand_sound.map .operand⟩

theorem array_sound : array.Sound IsArray :=
  fun _ _ _ hparses => arrayOf_sound (elementWithin_sound _) (parses_bounded hparses)

theorem value_sound : value.Sound IsValue := by
  apply sound_firstOf
  simp only [List.mem_cons, List.not_mem_nil, or_false, forall_eq_or_imp, forall_eq]
  exact ⟨call_sound.map .call, array_sound.map .array, operand_sound.map .operand⟩

theorem payload_sound : payload.Sound IsPayload := by
  apply sound_firstOf
  simp only [List.mem_cons, List.not_mem_nil, or_false, forall_eq_or_imp, forall_eq]
  exact ⟨call_sound.map .call, operand_sound.map .operand⟩

theorem variableDeclaration_sound : variableDeclaration.Sound IsVariable := by
  intro tokens declaration rest hparses
  obtain ⟨word, _, rfl, hwordKind, hafterWord⟩ := parses_token_bind hparses
  obtain ⟨site, hcommitted⟩ := parses_commit_bind hafterWord
  obtain ⟨name, _, rfl, hnameKind, hafterName⟩ := parses_require_token_bind hcommitted
  obtain ⟨first, _, hfirst, hafterFirst⟩ := parses_bind hafterName
  obtain ⟨hash, _, rfl, hhashKind, hafterHash⟩ := parses_require_token_bind hafterFirst
  obtain ⟨rfl, rfl⟩ := parses_pure hafterHash
  cases first with
  | none =>
    obtain rfl := rest_eq_of_parses_following hfirst
    exact ⟨[word, name, hash], rfl, .bare hwordKind hnameKind hhashKind⟩
  | some given =>
    obtain ⟨equals, taken, rfl, hequals, htaken⟩ := (value_sound.require _ _).following hfirst
    exact ⟨word :: name :: equals :: (taken ++ [hash]), by simp,
      .initialized hwordKind hnameKind hequals htaken hhashKind⟩

theorem constantDeclaration_sound : constantDeclaration.Sound IsConstant := by
  intro tokens declaration rest hparses
  obtain ⟨word, _, rfl, hwordKind, hafterWord⟩ := parses_token_bind hparses
  obtain ⟨site, hcommitted⟩ := parses_commit_bind hafterWord
  obtain ⟨name, _, rfl, hnameKind, hafterName⟩ := parses_require_token_bind hcommitted
  obtain ⟨equals, _, rfl, hequalsKind, hafterEquals⟩ := parses_require_token_bind hafterName
  obtain ⟨first, taken, _, rfl, htaken, hafterFirst⟩ :=
    (value_sound.require _ _).of_bind hafterEquals
  obtain ⟨hash, _, rfl, hhashKind, hafterHash⟩ := parses_require_token_bind hafterFirst
  obtain ⟨rfl, rfl⟩ := parses_pure hafterHash
  exact ⟨word :: name :: equals :: (taken ++ [hash]), by simp,
    .mk hwordKind hnameKind hequalsKind htaken hhashKind⟩

theorem declaration_sound : declaration.Sound IsDeclaration := by
  apply sound_firstOf
  simp only [List.mem_cons, List.not_mem_nil, or_false, forall_eq_or_imp, forall_eq]
  exact ⟨variableDeclaration_sound.map .ofVariable, constantDeclaration_sound.map .ofConstant⟩

/-- A keyword statement gives its reserved word and what it takes, up to the terminator. -/
theorem keywordStatement_sound (meaning : Keyword) (rule : Rule) :
    (keywordStatement meaning rule).Sound fun taken result => ∃ tokens hash,
      taken = result.1 :: (tokens ++ [hash]) ∧ result.1.kind = .keyword meaning ∧
        IsPayload tokens result.2 ∧ hash.kind = .terminator := by
  intro tokens result rest hparses
  obtain ⟨word, _, rfl, hwordKind, hafterWord⟩ := parses_token_bind hparses
  obtain ⟨site, hcommitted⟩ := parses_commit_bind hafterWord
  obtain ⟨given, taken, _, rfl, htaken, hafterGiven⟩ :=
    (payload_sound.require _ _).of_bind hcommitted
  obtain ⟨hash, _, rfl, hhashKind, hafterHash⟩ := parses_require_token_bind hafterGiven
  obtain ⟨rfl, rfl⟩ := parses_pure hafterHash
  exact ⟨word :: (taken ++ [hash]), by simp, taken, hash, rfl, hwordKind, htaken, hhashKind⟩

theorem block_sound {statement : Parser Statement} (hstatement : statement.Sound IsStatement)
    (site : Site) (owner : BlockOwner) :
    (block statement site owner).Sound (Block IsStatement) := by
  intro tokens statements rest hparses
  obtain ⟨opening, _, rfl, hopeningKind, hafterOpening⟩ := parses_require_token_bind hparses
  obtain ⟨body, taken, _, rfl, htaken, hafterBody⟩ := hstatement.many.of_bind hafterOpening
  obtain ⟨closing, _, rfl, hclosingKind, hafterClosing⟩ := parses_require_token_bind hafterBody
  obtain ⟨rfl, rfl⟩ := parses_pure hafterClosing
  exact ⟨opening :: (taken ++ [closing]), by simp, .mk hopeningKind htaken hclosingKind⟩

theorem decision_sound {statement : Parser Statement} (hstatement : statement.Sound IsStatement) :
    (decision statement).Sound IsStatement := by
  intro tokens result rest hparses
  obtain ⟨word, _, rfl, hwordKind, hafterWord⟩ := parses_token_bind hparses
  obtain ⟨site, hcommitted⟩ := parses_commit_bind hafterWord
  obtain ⟨opening, _, rfl, hopeningKind, hafterOpening⟩ := parses_require_token_bind hcommitted
  obtain ⟨condition, taken, _, rfl, htaken, hafterCondition⟩ :=
    (operand_sound.require _ _).of_bind hafterOpening
  obtain ⟨closing, _, rfl, hclosingKind, hafterClosing⟩ := parses_require_token_bind hafterCondition
  obtain ⟨body, bodyTaken, _, rfl, hbodyTaken, hafterBody⟩ :=
    (block_sound hstatement _ _).of_bind hafterClosing
  obtain ⟨alternative, _, halternative, hafterAlternative⟩ := parses_bind hafterBody
  obtain ⟨rfl, rfl⟩ := parses_pure hafterAlternative
  cases alternative with
  | none =>
    obtain rfl := rest_eq_of_parses_following halternative
    exact ⟨word :: opening :: (taken ++ closing :: bodyTaken), by simp,
      .decision hwordKind hopeningKind htaken hclosingKind hbodyTaken⟩
  | some statements =>
    obtain ⟨otherwise, elseTaken, rfl, hotherwise, helseTaken⟩ :=
      (block_sound hstatement _ _).following halternative
    exact ⟨word :: opening :: (taken ++ closing :: (bodyTaken ++ otherwise :: elseTaken)), by simp,
      .decisionWithAlternative hwordKind hopeningKind htaken hclosingKind hbodyTaken hotherwise
        helseTaken⟩

theorem loop_sound {statement : Parser Statement} (hstatement : statement.Sound IsStatement) :
    (loop statement).Sound IsStatement := by
  intro tokens result rest hparses
  obtain ⟨word, _, rfl, hwordKind, hafterWord⟩ := parses_token_bind hparses
  obtain ⟨site, hcommitted⟩ := parses_commit_bind hafterWord
  obtain ⟨body, bodyTaken, _, rfl, hbodyTaken, hafterBody⟩ :=
    (block_sound hstatement _ _).of_bind hcommitted
  obtain ⟨whilst, _, rfl, hwhilstKind, hafterWhilst⟩ := parses_require_token_bind hafterBody
  obtain ⟨opening, _, rfl, hopeningKind, hafterOpening⟩ := parses_require_token_bind hafterWhilst
  obtain ⟨condition, taken, _, rfl, htaken, hafterCondition⟩ :=
    (operand_sound.require _ _).of_bind hafterOpening
  obtain ⟨closing, _, rfl, hclosingKind, hafterClosing⟩ := parses_require_token_bind hafterCondition
  obtain ⟨hash, _, rfl, hhashKind, hafterHash⟩ := parses_require_token_bind hafterClosing
  obtain ⟨rfl, rfl⟩ := parses_pure hafterHash
  exact ⟨word :: (bodyTaken ++ whilst :: opening :: (taken ++ [closing, hash])), by simp,
    .loop hwordKind hbodyTaken hwhilstKind hopeningKind htaken hclosingKind hhashKind⟩

theorem assignment_sound : assignment.Sound IsStatement := by
  intro tokens result rest hparses
  obtain ⟨target, _, rfl, htargetKind, hafterTarget⟩ := parses_token_bind hparses
  obtain ⟨equals, _, rfl, hequalsKind, hafterEquals⟩ := parses_token_bind hafterTarget
  obtain ⟨site, hcommitted⟩ := parses_commit_bind hafterEquals
  obtain ⟨given, taken, _, rfl, htaken, hafterGiven⟩ := (value_sound.require _ _).of_bind hcommitted
  obtain ⟨hash, _, rfl, hhashKind, hafterHash⟩ := parses_require_token_bind hafterGiven
  obtain ⟨rfl, rfl⟩ := parses_pure hafterHash
  exact ⟨target :: equals :: (taken ++ [hash]), by simp,
    .assign htargetKind hequalsKind htaken hhashKind⟩

theorem optionalTerminator_of_parses {tokens rest : List Token} {found : Option Token}
    (hparses : (optional (token .terminator)).Parses tokens found rest) :
    ∃ taken, tokens = taken ++ rest ∧ OptionalTerminator taken := by
  rcases parses_optional hparses with ⟨hash, rfl, hhash⟩ | ⟨rfl, rfl⟩
  · obtain ⟨rfl, hkind⟩ := parses_token hhash
    exact ⟨[hash], rfl, .present hkind⟩
  · exact ⟨[], rfl, .absent⟩

theorem callStatement_sound : callStatement.Sound IsStatement := by
  intro tokens result rest hparses
  obtain ⟨called, taken, _, rfl, htaken, hafterCalled⟩ := call_sound.of_bind hparses
  obtain ⟨found, _, hfound, hafterFound⟩ := parses_bind hafterCalled
  obtain ⟨ending, rfl, hending⟩ := optionalTerminator_of_parses hfound
  obtain ⟨rfl, rfl⟩ := parses_pure hafterFound
  exact ⟨taken ++ ending, by simp, .call htaken hending⟩

/-- A step gives its target and its operator; a terminator may follow. -/
theorem step_sound (direction : StepDirection) (operatorKind : TokenKind) :
    (step direction operatorKind).Sound fun taken result => ∃ target operator ending,
      taken = target :: operator :: ending ∧ result = .step direction target operator ∧
        target.kind = .identifier ∧ operator.kind = operatorKind ∧ OptionalTerminator ending := by
  intro tokens result rest hparses
  obtain ⟨target, _, rfl, htargetKind, hafterTarget⟩ := parses_token_bind hparses
  obtain ⟨operator, _, rfl, hoperatorKind, hafterOperator⟩ := parses_token_bind hafterTarget
  obtain ⟨found, _, hfound, hafterFound⟩ := parses_bind hafterOperator
  obtain ⟨ending, rfl, hending⟩ := optionalTerminator_of_parses hfound
  obtain ⟨rfl, rfl⟩ := parses_pure hafterFound
  exact ⟨target :: operator :: ending, rfl, target, operator, ending, rfl, rfl, htargetKind,
    hoperatorKind, hending⟩

theorem statementWithin_sound (bound : Nat) : (statementWithin bound).Sound IsStatement := by
  induction bound with
  | zero => exact sound_reject
  | succ bound ih =>
    apply sound_firstOf
    simp only [List.mem_cons, List.not_mem_nil, or_false, forall_eq_or_imp, forall_eq]
    refine ⟨?_, ?_, ?_, decision_sound ih, ?_, ?_, assignment_sound, loop_sound ih,
      callStatement_sound, ?_, ?_⟩
    · apply (keywordStatement_sound .print .print).map
      rintro _ ⟨word, payload⟩ ⟨tokens, hash, rfl, hword, hpayload, hhash⟩
      exact .print hword hpayload hhash
    · apply (keywordStatement_sound .ret .ret).map
      rintro _ ⟨word, payload⟩ ⟨tokens, hash, rfl, hword, hpayload, hhash⟩
      exact .ret hword hpayload hhash
    · apply (keywordStatement_sound .read .read).map
      rintro _ ⟨word, payload⟩ ⟨tokens, hash, rfl, hword, hpayload, hhash⟩
      exact .read hword hpayload hhash
    · exact variableDeclaration_sound.map fun hvariable => .declare (.ofVariable hvariable)
    · exact constantDeclaration_sound.map fun hconstant => .declare (.ofConstant hconstant)
    · intro tokens result rest hparses
      obtain ⟨_, htokens, target, operator, ending, rfl, rfl, htarget, hoperator, hending⟩ :=
        step_sound .increment .increment hparses
      exact ⟨_, htokens, .increment htarget hoperator hending⟩
    · intro tokens result rest hparses
      obtain ⟨_, htokens, target, operator, ending, rfl, rfl, htarget, hoperator, hending⟩ :=
        step_sound .decrement .decrement hparses
      exact ⟨_, htokens, .decrement htarget hoperator hending⟩

theorem parameter_sound : parameter.Sound IsParameter := by
  intro tokens result rest hparses
  obtain ⟨⟨word, type⟩, _, hword, hafterWord⟩ := parses_bind hparses
  have hread := parses_ofFunction hword
  unfold parameter.typeWord? at hread
  split at hread
  · simp at hread
  · split at hread
    · next keyword hkeyword =>
      obtain ⟨found, htype, heq⟩ := Option.map_eq_some_iff.mp hread
      simp only [Prod.mk.injEq] at heq
      obtain ⟨⟨rfl, rfl⟩, rfl⟩ := heq
      obtain ⟨site, hcommitted⟩ := parses_commit_bind hafterWord
      obtain ⟨name, _, rfl, hname, hafterName⟩ := parses_require_token_bind hcommitted
      obtain ⟨rfl, rfl⟩ := parses_pure hafterName
      exact ⟨[_, name], rfl, .mk hkeyword htype hname⟩
    · simp at hread

theorem function_sound {statement : Parser Statement} (hstatement : statement.Sound IsStatement) :
    (function statement).Sound IsFunction := by
  intro tokens result rest hparses
  obtain ⟨word, _, rfl, hword, hafterWord⟩ := parses_token_bind hparses
  obtain ⟨site, hcommitted⟩ := parses_commit_bind hafterWord
  obtain ⟨name, _, rfl, hname, hafterName⟩ := parses_require_token_bind hcommitted
  obtain ⟨opening, _, rfl, hopening, hafterOpening⟩ := parses_require_token_bind hafterName
  obtain ⟨parameters, taken, _, rfl, htaken, hafterParameters⟩ :=
    parameter_sound.separated.of_bind hafterOpening
  obtain ⟨closing, _, rfl, hclosing, hafterClosing⟩ := parses_require_token_bind hafterParameters
  obtain ⟨body, bodyTaken, _, rfl, hbodyTaken, hafterBody⟩ :=
    (block_sound hstatement _ _).of_bind hafterClosing
  obtain ⟨rfl, rfl⟩ := parses_pure hafterBody
  exact ⟨word :: name :: opening :: (taken ++ closing :: bodyTaken), by simp,
    .mk hword hname hopening htaken hclosing hbodyTaken⟩

/-- Whatever part of the tokens is read as a program is a program of the grammar. -/
theorem compilationUnit_sound : compilationUnit.Sound IsUnit := by
  intro tokens unit rest hparses
  have hstatement := statementWithin_sound tokens.length
  obtain ⟨declarations, declarationTokens, _, htokens, hdeclarations, hafterDeclarations⟩ :=
    declaration_sound.many.of_bind (parses_bounded hparses)
  obtain ⟨functions, functionTokens, _, rfl, hfunctions, hafterFunctions⟩ :=
    (function_sound hstatement).many.of_bind hafterDeclarations
  obtain ⟨statements, statementTokens, _, rfl, hstatements, hafterStatements⟩ :=
    hstatement.many.of_bind hafterFunctions
  obtain ⟨rfl, rfl⟩ := parses_pure hafterStatements
  exact ⟨declarationTokens ++ functionTokens ++ statementTokens, by simp [htokens],
    .mk hdeclarations hfunctions hstatements⟩

end FrontEnd.Parser
