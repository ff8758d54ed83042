import FrontEnd.Parsing.Unit
import FrontEnd.Proofs.Parsing.Completeness.Unit
import FrontEnd.Proofs.Parsing.Failing.Combinators
import FrontEnd.Proofs.Parsing.Soundness

/-!
Every production settles: once it has recorded a failure it has no result. The only exceptions are
values that start like a call, for there the name alone is read after the call has failed; but the
terminator that has to follow is then missing.
-/

namespace FrontEnd.Parser

open Grammar

/-! ### Values -/

theorem operand_settles : operand.Settles nowhere := by
  refine settles_ofFunction fun tokens value rest hread => ?_
  obtain ⟨taken, rfl, -⟩ := isExpression_of_readOperand? hread
  exact List.suffix_append taken rest

theorem operand_refuses_cons ⦃t : Token⦄ ⦃rest : List Token⦄ (ht : ¬ startsOperand t.kind) :
    operand.Refuses (t :: rest) :=
  operand_refuses (by simpa using ht)

/-- What follows the opening parenthesis of a call. -/
theorem arguments_complete (name : Token) (site : Site) :
    (do
      let arguments ← site.separated .nextArgument operand
      let _ ← site.require (.argumentsClosing name.lexeme) (token .rightParen)
      return (⟨name, arguments⟩ : Call)).Completes site nowhere := by
  have harguments :=
    operand_settles.separated startsOperand operand_refuses_cons site .nextArgument
  exact harguments.bind_require_token (by simp [startsOperand])
    fun _ _ => completes_pure _ site nowhere

theorem call_settles : call.Settles nowhere :=
  (settles_token .identifier).bind fun name =>
    settles_construct (fun _ => arguments_complete name) .call

/-- A call that fails does so after its opening parenthesis. -/
theorem call_ends {name opening : Token} (hname : name.kind = .identifier)
    (hopening : opening.kind = .leftParen) (rest : List Token) :
    ∃ outcome, call.Yields (rest.length + 1) (name :: opening :: rest) outcome ∧
      Ends (rest.length + 1) rest nowhere (fun _ => True) outcome := by
  obtain ⟨outcome, hyields, hends⟩ := commit_ends (arguments_complete name) .call rest
  refine ⟨outcome, ?_, hends.mono (Nat.le_refl _) List.suffix_rfl fun _ _ => trivial⟩
  exact (yields_token hname _ _).bind ((yields_token hopening _ _).bind hyields)

/-- Before a parenthesis an operand that starts with a name is just the name. -/
theorem operand_of_name {name opening : Token} (hname : name.kind = .identifier)
    (hopening : opening.kind = .leftParen) (rest : List Token) (retry : Retry)
    (failures : List Failure) :
    operand retry (name :: opening :: rest) failures =
      ⟨some (.token name, opening :: rest), failures⟩ := by
  have hvalue : IsExpression [name] (.token name) :=
    Tier.induction (motive := fun tier => IsOperand tier [name] (.token name)) (.name hname) .atom
      (fun _ => .tighter) _
  have hends : EndsOperand (opening :: rest) :=
    Tier.endsBefore_cons (by rw [hopening]; rfl) _ rest
  have hread : readOperand? (name :: opening :: rest) = some (.token name, opening :: rest) :=
    readOperand?_append hvalue hends
  rw [operand, ofFunction, hread]

/-- Where a call fails, the name alone is read and the opening parenthesis is left. -/
theorem settles_call_orElse {α : Type} (f : Call → α) {q : Parser α} (hq : q.Settles nowhere)
    {g : Token → α}
    (hname : ∀ ⦃name opening : Token⦄, name.kind = .identifier → opening.kind = .leftParen →
      ∀ rest retry failures, q retry (name :: opening :: rest) failures =
        ⟨some (g name, opening :: rest), failures⟩) :
    ((f <$> call).orElse q).Settles (· = .leftParen) := by
  intro tokens
  obtain ⟨other, hother, hotherEnds⟩ := hq tokens
  have hwithout (hrefuses : call.Refuses tokens) : ∃ outcome,
      ((f <$> call).orElse q).Yields tokens.length tokens outcome ∧
        Ends tokens.length tokens (· = .leftParen) (fun _ => True) outcome :=
    ⟨other, (hrefuses.map f).orElse_yields hother, hotherEnds.of_nowhere⟩
  rcases token_cases .identifier tokens with hrefuses | ⟨name, more, rfl, hnameKind⟩
  · exact hwithout (hrefuses.bind _)
  rcases token_cases .leftParen more with hrefuses | ⟨opening, rest, rfl, hopening⟩
  · exact hwithout (refuses_token_bind hnameKind (hrefuses.bind _))
  have hsuffix : opening :: rest <:+ name :: opening :: rest := List.suffix_cons _ _
  obtain ⟨outcome, hyields, hends⟩ := call_ends hnameKind hopening rest
  have hcall := (hyields.map f).mono (show _ ≤ (name :: opening :: rest).length by simp)
  cases hends with
  | halted _ hstop _ => exact hstop.elim
  | read hrest =>
    exact ⟨_, hcall.orElse_read q, .read (hrest.trans ((List.suffix_cons _ _).trans hsuffix))⟩
  | failed hnested _ =>
    exact ⟨_, hcall.orElse_of_forall (hname hnameKind hopening rest),
      .halted hsuffix hopening (hnested.mono (Nat.le_refl _) (List.suffix_cons _ _))⟩

theorem firstOf_operand_settles {α : Type} (f : Operand → α) :
    (firstOf [f <$> operand]).Settles nowhere :=
  (operand_settles.map f).orElse settles_reject fun _ => .inr fun _ _ => rfl

/-- An array and an operand do not start with the same token. -/
theorem firstOf_array_operand_settles {α : Type} {p : Parser α} (hp : p.Settles nowhere)
    (hneeds : p.Needs .leftBracket) (f : Operand → α) :
    (firstOf [p, f <$> operand]).Settles nowhere := by
  refine hp.orElse (firstOf_operand_settles f) fun tokens => ?_
  cases tokens with
  | nil => exact .inl (hneeds (by simp))
  | cons t rest =>
    by_cases hbracket : t.kind = .leftBracket
    · refine .inr (refuses_firstOf fun q hq => ?_)
      obtain rfl := List.mem_singleton.mp hq
      exact (operand_refuses_cons (by simp [hbracket, startsOperand])).map f
    · exact .inl (hneeds.refuses hbracket rest)

theorem payload_settles : payload.Settles (· = .leftParen) := by
  refine settles_call_orElse _ (firstOf_operand_settles Payload.operand)
    (g := fun name => .operand (.token name)) ?_
  intro name opening hname hopening rest retry failures
  have hread := operand_of_name hname hopening rest retry failures
  simp [orElse, Functor.map, Parser.bind, Parser.pure, hread]

theorem arrayOf_settles {element : Parser ArrayElement} (helement : element.Settles nowhere)
    (hclosing : ∀ ⦃t : Token⦄ ⦃rest⦄, t.kind = .rightBracket → element.Refuses (t :: rest)) :
    (arrayOf element).Settles nowhere := by
  refine settles_construct (fun bracket site => ?_) .array
  have helements := helement.separated (· ≠ .rightBracket)
    (fun t rest hkind => hclosing (not_not.mp hkind)) site .nextElement
  exact helements.bind_require_token (fun hne => hne rfl) fun _ _ => completes_pure _ site nowhere

theorem elementWithin_settles (bound : Nat) : (elementWithin bound).Settles nowhere := by
  induction bound with
  | zero => exact settles_reject
  | succ bound ih =>
    have harray := arrayOf_settles ih fun t rest hclosing =>
      elementWithin_refuses bound hclosing rest
    exact firstOf_array_operand_settles (harray.map _) ((arrayOf_needs _).map _) _

theorem array_settles : array.Settles nowhere := by
  intro tokens
  have harray := arrayOf_settles (elementWithin_settles tokens.length) fun t rest hclosing =>
    elementWithin_refuses tokens.length hclosing rest
  exact harray tokens

theorem value_settles : value.Settles (· = .leftParen) := by
  refine settles_call_orElse _
    (firstOf_array_operand_settles (array_settles.map Value.array) (array_needs.map _)
      Value.operand)
    (g := fun name => .operand (.token name)) ?_
  intro name opening hname hopening rest retry failures
  have harray := array_needs.refuses (t := name) (by simp [hname]) (opening :: rest) retry failures
  have hread := operand_of_name hname hopening rest retry failures
  simp [orElse, Functor.map, Parser.bind, Parser.pure, hread, harray]

/-! ### Declarations -/

theorem variableDeclaration_settlesOnce : variableDeclaration.SettlesOnce := by
  refine settlesOnce_construct (fun word site => ?_) .variableDeclaration
  refine ((settles_token _).require site _).bind fun name => ?_
  exact (value_settles.require site _).following.bind_require_token (by simp)
    fun _ _ => completes_pure _ site nowhere

theorem constantDeclaration_settlesOnce : constantDeclaration.SettlesOnce := by
  refine settlesOnce_construct (fun word site => ?_) .constantDeclaration
  refine ((settles_token _).require site _).bind fun name => ?_
  refine ((settles_token _).require site _).bind fun _ => ?_
  exact (value_settles.require site _).bind_require_token (by simp)
    fun _ _ => completes_pure _ site nowhere

theorem declaration_settlesOnce : declaration.SettlesOnce := by
  refine (variableDeclaration_settlesOnce.map _).orElse
    ((constantDeclaration_settlesOnce.map _).orElse settlesOnce_reject fun _ => .inr fun _ _ => rfl)
    fun tokens => ?_
  rcases token_cases (.keyword .var) tokens with hrefuses | ⟨t, rest, rfl, hkind⟩
  · exact .inl ((hrefuses.bind _).map _)
  · refine .inr (refuses_firstOf fun q hq => ?_)
    obtain rfl := List.mem_singleton.mp hq
    exact (constantDeclaration_needs.map _).refuses (by simp [hkind]) rest

/-! ### Statements -/

theorem keywordStatement_settles (meaning : Keyword) (rule : Rule) :
    (keywordStatement meaning rule).Settles nowhere := by
  refine settles_construct (fun word site => ?_) rule
  exact (payload_settles.require site _).bind_require_token (by simp)
    fun _ _ => completes_pure _ site nowhere

section Block

variable {statement : Parser Statement}

/-- Statements that settle, take at least a token each, and do not start with a closing brace. -/
structure SettlesStatements (statement : Parser Statement) : Prop where
  settles : statement.Settles nowhere
  sound : statement.Sound IsStatement
  refuses : ∀ ⦃t : Token⦄ ⦃rest⦄, ¬ startsStatement t.kind → statement.Refuses (t :: rest)

theorem SettlesStatements.block (hstatement : SettlesStatements statement) (site : Site)
    (owner : BlockOwner) : (block statement site owner).Completes site nowhere := by
  refine ((settles_token _).require site _).bind fun _ => ?_
  have hmany := hstatement.settles.many hstatement.sound
    (fun _ _ htaken => isStatement_length_pos htaken) hstatement.refuses site
  exact hmany.bind_require_token (by simp [startsStatement])
    fun _ _ => completes_pure _ site nowhere

theorem SettlesStatements.decision (hstatement : SettlesStatements statement) :
    (decision statement).Settles nowhere := by
  refine settles_construct (fun word site => ?_) .decision
  refine ((settles_token _).require site _).bind fun _ => ?_
  refine (operand_settles.require site _).bind fun condition => ?_
  refine ((settles_token _).require site _).bind fun _ => ?_
  refine (hstatement.block site _).bind fun body => ?_
  exact (hstatement.block site _).following.bind fun _ => completes_pure _ site nowhere

theorem SettlesStatements.loop (hstatement : SettlesStatements statement) :
    (loop statement).Settles nowhere := by
  refine settles_construct (fun word site => ?_) .loop
  refine (hstatement.block site _).bind fun body => ?_
  refine (Settles.require (settles_token _) site _).bind fun _ => ?_
  refine ((settles_token _).require site _).bind fun _ => ?_
  refine (operand_settles.require site _).bind fun condition => ?_
  refine ((settles_token _).require site _).bind fun _ => ?_
  exact ((settles_token _).require site _).bind fun _ => completes_pure _ site nowhere

end Block

theorem assignment_settles : assignment.Settles nowhere := by
  refine (settles_token _).bind fun target => settles_construct (fun _ site => ?_) .assignment
  exact (value_settles.require site _).bind_require_token (by simp)
    fun _ _ => completes_pure _ site nowhere

theorem callStatement_settles : callStatement.Settles nowhere :=
  call_settles.bind fun _ => (settles_optional_token _).bind fun _ => settles_pure _

theorem step_settles (direction : StepDirection) (operatorKind : TokenKind) :
    (step direction operatorKind).Settles nowhere :=
  (settles_token _).bind fun _ => (settles_token _).bind fun _ =>
    (settles_optional_token _).bind fun _ => settles_pure _

/-- The kinds of tokens with which the statements open, in the order in which they are tried. -/
def statementOpenings : List (List TokenKind) :=
  [[.keyword .print], [.keyword .ret], [.keyword .read], [.keyword .branch], [.keyword .var],
    [.keyword .const], [.identifier, .assignment .set], [.keyword .loop],
    [.identifier, .leftParen], [.identifier, .increment], [.identifier, .decrement]]

theorem statementWithin_settles (bound : Nat) : SettlesStatements (statementWithin bound) where
  sound := statementWithin_sound bound
  refuses t rest ht := statementWithin_refuses bound (by simpa using ht)
  settles := by
    induction bound with
    | zero => exact settles_reject
    | succ bound ih =>
      have hstatement : SettlesStatements (statementWithin bound) :=
        ⟨ih, statementWithin_sound bound, fun t rest ht =>
          statementWithin_refuses bound (by simpa using ht)⟩
      refine settles_firstOf statementOpenings ?_ ?_ (by decide)
      · have hword {α : Type} {word : Keyword} {f : Token → Parser α} :
            (token (.keyword word) >>= f).OpensWith [.keyword word] :=
          opensWith_token_bind fun _ => opensWith_nil _
        have hname {α : Type} {kind : TokenKind} {f : Token → Token → Parser α} :
            (token .identifier >>= fun t => token kind >>= f t).OpensWith [.identifier, kind] :=
          opensWith_token_bind fun _ => opensWith_token_bind fun _ => opensWith_nil _
        simp only [statementOpenings, List.forall₂_cons, List.forall₂_nil_left_iff, and_true]
        exact ⟨hword.map _, hword.map _, hword.map _, hword, hword.map _, hword.map _, hname, hword,
          OpensWith.bind (p := call) hname _, hname, hname⟩
      · simp only [List.mem_cons, List.not_mem_nil, or_false, forall_eq_or_imp, forall_eq]
        exact ⟨(keywordStatement_settles .print .print).map _,
          (keywordStatement_settles .ret .ret).map _, (keywordStatement_settles .read .read).map _,
          hstatement.decision, variableDeclaration_settlesOnce.settles.map _,
          constantDeclaration_settlesOnce.settles.map _, assignment_settles, hstatement.loop,
          callStatement_settles,
          step_settles .increment .increment, step_settles .decrement .decrement⟩

/-! ### Functions -/

theorem parameter_settles : parameter.Settles nowhere := by
  have hword ⦃tokens : List Token⦄ ⦃a : Token × ValueType⦄ ⦃rest : List Token⦄
      (hread : parameter.typeWord? tokens = some (a, rest)) : ∃ t, tokens = t :: rest := by
    unfold parameter.typeWord? at hread
    split at hread
    · cases hread
    · split at hread
      · obtain ⟨type, -, heq⟩ := Option.map_eq_some_iff.mp hread
        exact ⟨_, congrArg (List.cons _) (Prod.mk.inj heq).2⟩
      · cases hread
  refine Settles.enter (settles_ofFunction fun tokens a rest hread => ?_)
    (fun tokens a rest hparses => ?_) (fun a site => ?_) .parameter
  · obtain ⟨t, rfl⟩ := hword hread
    exact List.suffix_cons t rest
  · obtain ⟨t, rfl⟩ := hword (parses_ofFunction hparses)
    exact Nat.lt_succ_self _
  · exact ((settles_token _).require site _).bind fun _ => completes_pure _ site nowhere

theorem function_settles {statement : Parser Statement}
    (hstatement : SettlesStatements statement) : (function statement).Settles nowhere := by
  refine settles_construct (fun word site => ?_) .functionDeclaration
  refine ((settles_token _).require site _).bind fun name => ?_
  refine ((settles_token _).require site _).bind fun _ => ?_
  have hparameters := parameter_settles.separated (· ≠ .rightParen)
    (fun t rest hkind => parameter_refuses (not_not.mp hkind) rest) site .nextParameter
  refine hparameters.bind_require_token (fun hne => hne rfl) fun _ _ => ?_
  exact (hstatement.block site _).bind fun _ => completes_pure _ site nowhere

end FrontEnd.Parser
