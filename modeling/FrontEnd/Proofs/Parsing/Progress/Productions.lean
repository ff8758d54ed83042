import FrontEnd.Proofs.Grammar.Tokens
import FrontEnd.Proofs.Parsing.Progress.Cursor
import FrontEnd.Proofs.Parsing.Progress.Nesting
import FrontEnd.Proofs.Parsing.Recognition

/-!
The parser gets on and comes to an end. Every production that matches leads from the place where it
was tried to a later place of the token list; so every loop ends after no more rounds than there are
tokens, and constructs stand in each other no deeper than there are tokens.
-/

namespace FrontEnd

open Grammar

namespace Parser

variable {α : Type} {p : Parser α}

/-- The productions: the parsers that read one construct, with nested constructs up to any depth. -/
inductive IsProduction : {α : Type} → Parser α → Prop
  | variableDeclaration : IsProduction variableDeclaration
  | constantDeclaration : IsProduction constantDeclaration
  | declaration : IsProduction declaration
  | parameter : IsProduction parameter
  | function (depth : Nat) : IsProduction (function (statementWithin depth))
  | statement (depth : Nat) : IsProduction (statementWithin depth)
  | block (depth : Nat) (site : Site) (owner : BlockOwner) :
    IsProduction (block (statementWithin depth) site owner)
  | keywordStatement (meaning : Keyword) (rule : Rule) :
    IsProduction (keywordStatement meaning rule)
  | decision (depth : Nat) : IsProduction (decision (statementWithin depth))
  | loop (depth : Nat) : IsProduction (loop (statementWithin depth))
  | assignment : IsProduction assignment
  | callStatement : IsProduction callStatement
  | step (direction : StepDirection) (operatorKind : TokenKind) :
    IsProduction (step direction operatorKind)
  | value : IsProduction value
  | payload : IsProduction payload
  | call : IsProduction call
  | array : IsProduction array
  | arrayOf (depth : Nat) : IsProduction (arrayOf (elementWithin depth))
  | element (depth : Nat) : IsProduction (elementWithin depth)
  | operand : IsProduction operand
  | tier (depth : Nat) (tier : Tier) : IsProduction (ofFunction (OperandReader.readTier depth tier))
  | number : IsProduction (ofFunction OperandReader.number?)

/-- What the loops over lists repeat. -/
inductive IsLoop : {α : Type} → Parser (Option α) → Prop
  | declarations : IsLoop (optional declaration)
  | functions (depth : Nat) : IsLoop (optional (function (statementWithin depth)))
  | statements (depth : Nat) : IsLoop (optional (statementWithin depth))
  | parameters (site : Site) : IsLoop (following .comma (site.require .nextParameter parameter))
  | arguments (site : Site) : IsLoop (following .comma (site.require .nextArgument operand))
  | elements (depth : Nat) (site : Site) :
    IsLoop (following .comma (site.require .nextElement (elementWithin depth)))

theorem call_length_pos ⦃taken : List Token⦄ ⦃call : Call⦄ (hcall : IsCall taken call) :
    0 < taken.length :=
  stores_call.length_pos hcall List.mem_cons_self

theorem element_length_pos ⦃taken : List Token⦄ ⦃element : ArrayElement⦄
    (helement : IsElement taken element) : 0 < taken.length :=
  stores_element.length_pos helement element.firstToken_mem_tokens

theorem IsProduction.consumes (hp : p.IsProduction) : p.Consumes := by
  cases hp with
  | variableDeclaration =>
    exact variableDeclaration_sound.consumes
      fun _ _ htaken => declaration_length_pos (.ofVariable htaken)
  | constantDeclaration =>
    exact constantDeclaration_sound.consumes
      fun _ _ htaken => declaration_length_pos (.ofConstant htaken)
  | declaration => exact declaration_sound.consumes declaration_length_pos
  | parameter =>
    refine parameter_sound.consumes ?_
    rintro _ _ ⟨⟩
    simp
  | function depth =>
    exact (function_sound (statementWithin_sound depth)).consumes function_length_pos
  | statement depth =>
    exact (statementWithin_sound depth).consumes fun _ _ htaken => isStatement_length_pos htaken
  | block depth site owner =>
    refine (block_sound (statementWithin_sound depth) site owner).consumes ?_
    rintro _ _ ⟨⟩
    simp
  | keywordStatement meaning rule =>
    refine (keywordStatement_sound meaning rule).consumes ?_
    rintro _ _ ⟨tokens, hash, rfl, -⟩
    simp
  | decision depth =>
    exact (decision_sound (statementWithin_sound depth)).consumes
      fun _ _ htaken => isStatement_length_pos htaken
  | loop depth =>
    exact (loop_sound (statementWithin_sound depth)).consumes
      fun _ _ htaken => isStatement_length_pos htaken
  | assignment => exact assignment_sound.consumes fun _ _ htaken => isStatement_length_pos htaken
  | callStatement =>
    exact callStatement_sound.consumes fun _ _ htaken => isStatement_length_pos htaken
  | step direction operatorKind =>
    refine (step_sound direction operatorKind).consumes ?_
    rintro _ _ ⟨target, operator, ending, rfl, -⟩
    simp
  | value =>
    exact value_sound.consumes
      fun _ value htaken => stores_value.length_pos htaken value.firstToken_mem_tokens
  | payload =>
    refine payload_sound.consumes fun taken a htaken => ?_
    cases htaken with
    | call hcall => exact call_length_pos hcall
    | operand hvalue => exact hvalue.length_pos
  | call => exact call_sound.consumes call_length_pos
  | array => exact array_sound.consumes fun _ _ htaken => element_length_pos htaken
  | arrayOf depth =>
    exact (arrayOf_sound (elementWithin_sound depth)).consumes
      fun _ _ htaken => element_length_pos htaken
  | element depth => exact (elementWithin_sound depth).consumes element_length_pos
  | operand => exact operand_sound.consumes fun _ _ htaken => htaken.length_pos
  | tier depth tier =>
    intro tokens operand rest hparses
    obtain ⟨taken, htokens, htaken⟩ :=
      OperandReader.readTier_sound (OperandReader.within_sound depth) tier
        (parses_ofFunction hparses)
    exact ⟨taken, htokens, htaken.length_pos⟩
  | number =>
    intro tokens value rest hparses
    obtain ⟨taken, htokens, htaken⟩ := OperandReader.number?_sound (parses_ofFunction hparses)
    exact ⟨taken, htokens, htaken.length_pos⟩

theorem IsLoop.repeatable {p : Parser (Option α)} (hp : p.IsLoop) : p.Repeatable := by
  cases hp with
  | declarations =>
    exact IsProduction.declaration.consumes.repeatable_optional (declaration_refuses (by simp))
  | functions depth =>
    exact (IsProduction.function depth).consumes.repeatable_optional (function_needs _ (by simp))
  | statements depth =>
    exact (IsProduction.statement depth).consumes.repeatable_optional
      (statementWithin_refuses depth (by simp))
  | parameters site => exact (parameter_sound.require site _).repeatable_following .comma
  | arguments site => exact (operand_sound.require site _).repeatable_following .comma
  | elements depth site =>
    exact ((elementWithin_sound depth).require site _).repeatable_following .comma

end Parser

namespace TokenStream

open FrontEnd.Parser FrontEnd.OperandReader

variable {α : Type} {stream : TokenStream}

/-- Wherever the parser matches, and whatever failed before, it leads to one later place, in the
list or at its end, where no comment stands. -/
def MovesOn (stream : TokenStream) (p : Parser α) : Prop :=
  ∀ ⦃cursor : Nat⦄, stream.IsCursor cursor → ∀ ⦃retry failures a rest⦄,
    (p retry (stream.remaining cursor) failures).parsed = some (a, rest) →
    ∃ next, (∀ other, stream.IsCursor other ∧ stream.remaining other = rest ↔ other = next) ∧
      cursor < next ∧ next ≤ stream.tokens.length ∧
      ∀ t ∈ stream.tokens[next]?, t.isComment = false

/-- Wherever the loop is entered, and whatever failed before, it has a run, which collects the
results, and its rounds are no more than the tokens from there on. -/
def EndsLoop (stream : TokenStream) (p : Parser (Option α)) : Prop :=
  ∀ ⦃cursor : Nat⦄, stream.IsCursor cursor → ∀ retry failures,
    ∃ rounds, cursor + rounds ≤ stream.tokens.length ∧
      ∀ others outcome, p.Repeats retry (stream.remaining cursor) failures others outcome ↔
        others = rounds ∧ outcome = collect p retry (stream.remaining cursor) failures

/-- Wherever a chain of operators goes on from, it has a run, which extends the operand on the left,
and its rounds are no more than the tokens from there on. -/
def EndsChain (stream : TokenStream) (isOperator : TokenKind → Bool) (operand : OperandReader) :
    Prop :=
  ∀ ⦃cursor : Nat⦄, stream.IsCursor cursor → ∀ (left : Operand) ⦃bound : Nat⦄,
    (stream.remaining cursor).length ≤ bound →
    ∃ rounds, cursor + rounds ≤ stream.tokens.length ∧
      ∀ others result, Chains isOperator operand left (stream.remaining cursor) others result ↔
        others = rounds ∧ result = extend isOperator operand bound left (stream.remaining cursor)

/-- With more levels of nesting than tokens, it makes no difference which reader is put below them,
be it for the statements of a program, the elements of an array or the operands in parentheses. -/
structure EndsNesting (stream : TokenStream) : Prop where
  statements : ∀ (below : Parser Statement) ⦃levels : Nat⦄, stream.tokens.length < levels →
    ∀ retry failures, unitOver (statementOver^[levels] below) retry stream.significant failures =
      compilationUnit retry stream.significant failures
  elements : ∀ (below : Parser ArrayElement) ⦃levels : Nat⦄, stream.tokens.length < levels →
    ∀ ⦃cursor : Nat⦄, stream.IsCursor cursor → ∀ retry failures,
      arrayOf (elementOver^[levels] below) retry (stream.remaining cursor) failures =
        array retry (stream.remaining cursor) failures
  operands : ∀ (below : OperandReader) ⦃levels : Nat⦄, stream.tokens.length < levels →
    ∀ ⦃cursor : Nat⦄, stream.IsCursor cursor →
      operandOver^[levels] below (stream.remaining cursor) =
        readOperand? (stream.remaining cursor)

theorem movesOn_of_consumes {p : Parser α} (hp : p.Consumes) : stream.MovesOn p := by
  intro cursor hcursor retry failures a rest hparsed
  obtain ⟨taken, htokens, htaken⟩ := hp ⟨retry, failures, hparsed⟩
  obtain ⟨next, hnext, hremaining⟩ := hcursor.exists_of_suffix ⟨taken, htokens.symm⟩
  refine ⟨next, fun other => ⟨?_, ?_⟩, ?_, hnext.stands.le_length, hnext.stands.isComment_eq_false⟩
  · rintro ⟨hother, hsame⟩
    exact hother.stands.eq_of_remaining_eq hnext.stands (hsame.trans hremaining.symm)
  · rintro rfl
    exact ⟨hnext, hremaining⟩
  · refine Nat.lt_of_not_le fun hle => ?_
    have hmore := (stream.remaining_suffix hle).length_le
    rw [htokens, hremaining, List.length_append] at hmore
    omega

theorem endsLoop_of_repeatable {p : Parser (Option α)} (hp : p.Repeatable) :
    stream.EndsLoop p := by
  intro cursor hcursor retry failures
  obtain ⟨rounds, hrounds, hrun⟩ := hp.collect_repeats retry (stream.remaining cursor) failures
  have hleft := add_length_remaining_le hcursor.stands.le_length
  refine ⟨rounds, by omega, fun others outcome => ⟨fun hother => hother.unique hrun, ?_⟩⟩
  rintro ⟨rfl, rfl⟩
  exact hrun

theorem endsChain_of_sound {isOperator : TokenKind → Bool} {operand : OperandReader}
    {language : List Token → Operand → Prop} (hoperand : OperandReader.Sound operand language) :
    stream.EndsChain isOperator operand := by
  intro cursor hcursor left bound hbound
  obtain ⟨rounds, hrounds, hrun⟩ : ∃ rounds, rounds ≤ (stream.remaining cursor).length ∧
      Chains isOperator operand left (stream.remaining cursor) rounds
        (extend isOperator operand bound left (stream.remaining cursor)) :=
    extend_chains hoperand left hbound
  have hleft := add_length_remaining_le hcursor.stands.le_length
  refine ⟨rounds, by omega, fun others result => ⟨fun hother => hother.unique hrun, ?_⟩⟩
  rintro ⟨rfl, rfl⟩
  exact hrun

theorem endsNesting (stream : TokenStream) : stream.EndsNesting where
  statements below levels hlevels retry failures := by
    have hsignificant : stream.significant.length ≤ stream.tokens.length :=
      List.length_filter_le _ _
    exact unitOver_iterate below (by omega) retry failures
  elements below levels hlevels cursor hcursor retry failures := by
    have hleft := add_length_remaining_le hcursor.stands.le_length
    exact arrayOf_iterate below (by omega) retry failures
  operands below levels hlevels cursor hcursor := by
    have hleft := add_length_remaining_le hcursor.stands.le_length
    exact operandOver_iterate below (by omega)

/-- The parser gets on and comes to an end, whatever the tokens are. The places that are reached
from the start are the stops of the stream. From any of them, a production that matches leads to a
later one, and the loops over lists, the chains of operators and the nesting of constructs end
within the number of tokens. -/
theorem parsing_movesOn_and_ends (stream : TokenStream) :
    (∀ cursor, stream.IsCursor cursor ↔ cursor ∈ stream.stops.map Prod.fst) ∧
      (∀ ⦃α : Type⦄ ⦃p : Parser α⦄, p.IsProduction → stream.MovesOn p) ∧
      (∀ ⦃α : Type⦄ ⦃p : Parser (Option α)⦄, p.IsLoop → stream.EndsLoop p) ∧
      (∀ depth level, stream.EndsChain (isOperatorOf level) (readTier depth level.tighter)) ∧
      stream.EndsNesting := by
  refine ⟨fun _ => isCursor_iff_mem_stops, fun _ _ hp => movesOn_of_consumes hp.consumes,
    fun _ _ hp => endsLoop_of_repeatable hp.repeatable, fun depth level => ?_, stream.endsNesting⟩
  exact endsChain_of_sound (readTier_sound (within_sound depth) level.tighter)

/-- A decision on a sum with a step in it, among comments and before a token that nothing starts
with. -/
def decisionBeforeUnknown : TokenStream where
  tokens := [.unplaced .blockComment "«c»", .unplaced (.keyword .branch) "if",
    .unplaced .leftParen "(", .unplaced .identifier "@x", .unplaced (.arithmetic .add) "+",
    .unplaced .integer "1", .unplaced .rightParen ")", .unplaced .leftBrace "\x7b",
    .unplaced .identifier "@x", .unplaced .increment "++", .unplaced .lineComment "¶ c",
    .unplaced .rightBrace "\x7d", .unplaced .unknown "?", .unplaced .endOfInput ""]
  sourceLength := 0

theorem parsing_movesOn_and_ends_decisionBeforeUnknown :
    decisionBeforeUnknown.IsCursor 1 ∧ decisionBeforeUnknown.IsCursor 4 ∧
      (∃ next, (∀ other, decisionBeforeUnknown.IsCursor other ∧
          decisionBeforeUnknown.remaining other =
            [.unplaced .unknown "?", .unplaced .endOfInput ""] ↔ other = next) ∧
        1 < next ∧ next ≤ decisionBeforeUnknown.tokens.length ∧
        ∀ t ∈ decisionBeforeUnknown.tokens[next]?, t.isComment = false) ∧
      (∃ rounds, 1 + rounds ≤ decisionBeforeUnknown.tokens.length ∧ ∀ others outcome,
        (optional (statementWithin 2)).Repeats .never (decisionBeforeUnknown.remaining 1) [] others
            outcome ↔
          others = rounds ∧ outcome =
            collect (optional (statementWithin 2)) .never (decisionBeforeUnknown.remaining 1) []) ∧
      (∃ rounds, 4 + rounds ≤ decisionBeforeUnknown.tokens.length ∧ ∀ others result,
        Chains (isOperatorOf .sum) (readTier 2 Level.sum.tighter)
            (.token (.unplaced .identifier "@x")) (decisionBeforeUnknown.remaining 4) others
            result ↔
          others = rounds ∧ result = extend (isOperatorOf .sum) (readTier 2 Level.sum.tighter) 9
            (.token (.unplaced .identifier "@x")) (decisionBeforeUnknown.remaining 4)) ∧
      unitOver (statementOver^[15] reject) .never decisionBeforeUnknown.significant [] =
        compilationUnit .never decisionBeforeUnknown.significant [] := by
  have hparsed : (statementWithin 2 .never (decisionBeforeUnknown.remaining 1) []).parsed =
      some (.decision (.unplaced (.keyword .branch) "if")
        (.binary (.token (.unplaced .identifier "@x")) (.unplaced (.arithmetic .add) "+")
          (.numeric ⟨none, .unplaced .integer "1"⟩))
        [.step .increment (.unplaced .identifier "@x") (.unplaced .increment "++")] none,
        [.unplaced .unknown "?", .unplaced .endOfInput ""]) := rfl
  obtain ⟨hstops, hmoves, hloops, hchains, hnesting⟩ :=
    decisionBeforeUnknown.parsing_movesOn_and_ends
  have hcursor : decisionBeforeUnknown.IsCursor 1 := (hstops 1).mpr (by decide)
  have hoperator : decisionBeforeUnknown.IsCursor 4 := (hstops 4).mpr (by decide)
  exact ⟨hcursor, hoperator, hmoves (.statement 2) hcursor hparsed,
    hloops (.statements 2) hcursor .never [], hchains 2 .sum hoperator _ (by decide),
    hnesting.statements reject (by decide) .never []⟩

end TokenStream

end FrontEnd
