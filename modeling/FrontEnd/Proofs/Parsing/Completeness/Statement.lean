import FrontEnd.Proofs.Parsing.Completeness.Value

/-!
Statements are taken in full where the grammar derives them and neither a terminator nor an
alternative follows. The constructs tried before the right one refuse by the first token or the
second.
-/

namespace FrontEnd.Parser

open Grammar

theorem endsOperand_rightParen {closing : Token} (hclosing : closing.kind = .rightParen)
    (rest : List Token) : EndsOperand (closing :: rest) :=
  Tier.endsBefore_cons (by rw [hclosing]; rfl) _ rest

/-- What follows a statement: no terminator that it may take, and no alternative of a decision. -/
def EndsStatement (rest : List Token) : Prop :=
  ∀ t ∈ rest.head?, t.kind ≠ .terminator ∧ t.kind ≠ .keyword .otherwise

theorem endsStatement_of_isStatement {taken : List Token} {statement : Statement}
    (hstatement : IsStatement taken statement) (rest : List Token) :
    EndsStatement (taken ++ rest) := by
  obtain ⟨first, more, rfl, hfirst, -⟩ := hstatement.starts
  intro t ht
  obtain rfl : first = t := by simpa using ht
  constructor <;> intro hkind <;> simp [hkind, startsStatement] at hfirst

theorem isStatement_length_pos {taken : List Token} {statement : Statement}
    (hstatement : IsStatement taken statement) : 0 < taken.length := by
  obtain ⟨first, more, rfl, -⟩ := hstatement.starts
  simp

theorem endsStatement_rightBrace {closing : Token} (hclosing : closing.kind = .rightBrace)
    (rest : List Token) : EndsStatement (closing :: rest) := by
  intro t ht
  obtain rfl : closing = t := by simpa using ht
  simp [hclosing]

section Block

variable {statement : Parser Statement} {limit : Nat}

/-- The parser reads every statement up to some number of tokens, and nothing before a brace. -/
structure ReadsStatements (statement : Parser Statement) (limit : Nat) : Prop where
  reads : ∀ ⦃taken s rest⦄, IsStatement taken s ∧ taken.length ≤ limit → EndsStatement rest →
    statement.Reads (taken ++ rest) s rest
  refuses : ∀ ⦃closing : Token⦄, closing.kind = .rightBrace → ∀ rest,
    statement.Refuses (closing :: rest)

theorem ReadsStatements.block (hstatement : ReadsStatements statement limit) {taken : List Token}
    {body : List Statement} (hblock : Block IsStatement taken body)
    (hlength : taken.length ≤ limit + 2) (site : Site) (owner : BlockOwner) (rest : List Token) :
    (block statement site owner).Reads (taken ++ rest) body rest := by
  cases hblock with
  | @mk opening closing tokens _ hopening hbody hclosing =>
    have hmany : (many statement).Reads (tokens ++ closing :: rest) body (closing :: rest) :=
      reads_many hstatement.reads (fun _ _ htaken => endsStatement_of_isStatement htaken.1)
        (fun _ _ htaken => isStatement_length_pos htaken.1)
        (hbody.within (by simpa using hlength)) (endsStatement_rightBrace hclosing rest)
        (hstatement.refuses hclosing rest)
    simp only [List.cons_append, List.append_assoc, List.nil_append]
    refine ((reads_token hopening _).require _ _).bind ?_
    refine hmany.bind ?_
    exact ((reads_token hclosing rest).require _ _).bind reads_pure

theorem ReadsStatements.decision (hstatement : ReadsStatements statement limit)
    {word opening closing : Token} {tokens bodyTokens rest : List Token} {condition : Operand}
    {body : List Statement} (hword : word.kind = .keyword .branch)
    (hopening : opening.kind = .leftParen) (hcondition : IsExpression tokens condition)
    (hclosing : closing.kind = .rightParen) (hbody : Block IsStatement bodyTokens body)
    (hlength : bodyTokens.length ≤ limit + 2) (hrest : EndsStatement rest) :
    (decision statement).Reads (word :: opening :: (tokens ++ closing :: (bodyTokens ++ rest)))
      (.decision word condition body none) rest := by
  refine (reads_token hword _).bind ?_
  refine (reads_commit _ _).bind ?_
  refine ((reads_token hopening _).require _ _).bind ?_
  refine ((operand_reads hcondition (endsOperand_rightParen hclosing _)).require _ _).bind ?_
  refine ((reads_token hclosing _).require _ _).bind ?_
  refine (hstatement.block hbody hlength _ _ _).bind ?_
  exact (reads_following_none fun t ht => (hrest t ht).2).bind reads_pure

theorem ReadsStatements.decisionWithAlternative (hstatement : ReadsStatements statement limit)
    {word opening closing otherwise : Token} {tokens bodyTokens elseTokens : List Token}
    {condition : Operand} {body alternative : List Statement}
    (hword : word.kind = .keyword .branch) (hopening : opening.kind = .leftParen)
    (hcondition : IsExpression tokens condition) (hclosing : closing.kind = .rightParen)
    (hbody : Block IsStatement bodyTokens body) (hotherwise : otherwise.kind = .keyword .otherwise)
    (helse : Block IsStatement elseTokens alternative) (hbodyLength : bodyTokens.length ≤ limit + 2)
    (helseLength : elseTokens.length ≤ limit + 2) (rest : List Token) :
    (Parser.decision statement).Reads
      (word :: opening :: (tokens ++ closing :: (bodyTokens ++ otherwise :: (elseTokens ++ rest))))
      (.decision word condition body (some alternative)) rest := by
  refine (reads_token hword _).bind ?_
  refine (reads_commit _ _).bind ?_
  refine ((reads_token hopening _).require _ _).bind ?_
  refine ((operand_reads hcondition (endsOperand_rightParen hclosing _)).require _ _).bind ?_
  refine ((reads_token hclosing _).require _ _).bind ?_
  refine (hstatement.block hbody hbodyLength _ _ _).bind ?_
  exact (Reads.following hotherwise (hstatement.block helse helseLength _ _ rest)).bind reads_pure

theorem ReadsStatements.loop (hstatement : ReadsStatements statement limit)
    {word whilst opening closing hash : Token} {bodyTokens tokens : List Token}
    {body : List Statement} {condition : Operand} (hword : word.kind = .keyword .loop)
    (hbody : Block IsStatement bodyTokens body) (hlength : bodyTokens.length ≤ limit + 2)
    (hwhilst : whilst.kind = .keyword .whilst) (hopening : opening.kind = .leftParen)
    (hcondition : IsExpression tokens condition) (hclosing : closing.kind = .rightParen)
    (hhash : hash.kind = .terminator) (rest : List Token) :
    (loop statement).Reads
      (word :: (bodyTokens ++ whilst :: opening :: (tokens ++ closing :: hash :: rest)))
      (.loop word body condition) rest := by
  refine (reads_token hword _).bind ?_
  refine (reads_commit _ _).bind ?_
  refine (hstatement.block hbody hlength _ _ _).bind ?_
  refine (Reads.require (reads_token hwhilst _) _ _).bind ?_
  refine ((reads_token hopening _).require _ _).bind ?_
  refine ((operand_reads hcondition (endsOperand_rightParen hclosing _)).require _ _).bind ?_
  refine ((reads_token hclosing _).require _ _).bind ?_
  exact ((reads_token hhash rest).require _ _).bind reads_pure

end Block

theorem keywordStatement_needs (meaning : Keyword) (rule : Rule) :
    (keywordStatement meaning rule).Needs (.keyword meaning) :=
  (needs_token _).bind _

theorem keywordStatement_reads {meaning : Keyword} (rule : Rule) {word hash : Token}
    {tokens : List Token} {taken : Payload} (hword : word.kind = .keyword meaning)
    (hpayload : IsPayload tokens taken) (hhash : hash.kind = .terminator) (rest : List Token) :
    (keywordStatement meaning rule).Reads (word :: (tokens ++ hash :: rest)) (word, taken)
      rest := by
  refine (reads_token hword _).bind ?_
  refine (reads_commit _ _).bind ?_
  refine ((payload_reads hpayload hhash rest).require _ _).bind ?_
  exact ((reads_token hhash rest).require _ _).bind reads_pure

theorem decision_needs (statement : Parser Statement) :
    (decision statement).Needs (.keyword .branch) :=
  (needs_token _).bind _

theorem loop_needs (statement : Parser Statement) : (loop statement).Needs (.keyword .loop) :=
  (needs_token _).bind _

theorem assignment_needs : assignment.Needs .identifier :=
  (needs_token _).bind _

theorem assignment_reads {target equals hash : Token} {tokens : List Token} {given : Value}
    (htarget : target.kind = .identifier) (hequals : equals.kind = .assignment .set)
    (hvalue : IsValue tokens given) (hhash : hash.kind = .terminator) (rest : List Token) :
    assignment.Reads (target :: equals :: (tokens ++ hash :: rest)) (.assign target given)
      rest := by
  refine (reads_token htarget _).bind ?_
  refine (reads_token hequals _).bind ?_
  refine (reads_commit _ _).bind ?_
  refine ((value_reads hvalue hhash rest).require _ _).bind ?_
  exact ((reads_token hhash rest).require _ _).bind reads_pure

/-- A name that no equals sign follows is not the target of an assignment. -/
theorem assignment_refuses {name : Token} {rest : List Token} (hname : name.kind = .identifier)
    (hnext : ∀ t ∈ rest.head?, t.kind ≠ .assignment .set) : assignment.Refuses (name :: rest) :=
  refuses_token_bind hname ((needs_token _ hnext).bind _)

theorem optionalTerminator_reads {ending rest : List Token} (hending : OptionalTerminator ending)
    (hrest : EndsStatement rest) :
    ∃ found, (optional (token .terminator)).Reads (ending ++ rest) found rest := by
  cases hending with
  | absent => exact ⟨none, (needs_token .terminator fun t ht => (hrest t ht).1).optional⟩
  | @present hash hkind => exact ⟨some hash, (reads_token hkind rest).optional⟩

theorem callStatement_needs : callStatement.Needs .identifier :=
  call_needs.bind _

theorem callStatement_reads {tokens ending rest : List Token} {called : Call}
    (hcall : IsCall tokens called) (hending : OptionalTerminator ending)
    (hrest : EndsStatement rest) :
    callStatement.Reads (tokens ++ (ending ++ rest)) (.call called) rest := by
  obtain ⟨found, hfound⟩ := optionalTerminator_reads hending hrest
  refine (call_reads hcall _).bind ?_
  exact hfound.bind reads_pure

theorem callStatement_refuses {name : Token} {rest : List Token}
    (hnext : ∀ t ∈ rest.head?, t.kind ≠ .leftParen) : callStatement.Refuses (name :: rest) :=
  (call_refuses hnext).bind _

theorem step_needs (direction : StepDirection) (operatorKind : TokenKind) :
    (step direction operatorKind).Needs .identifier :=
  (needs_token _).bind _

theorem step_reads (direction : StepDirection) {operatorKind : TokenKind} {target operator : Token}
    {ending rest : List Token} (htarget : target.kind = .identifier)
    (hoperator : operator.kind = operatorKind) (hending : OptionalTerminator ending)
    (hrest : EndsStatement rest) :
    (step direction operatorKind).Reads (target :: operator :: (ending ++ rest))
      (.step direction target operator) rest := by
  obtain ⟨found, hfound⟩ := optionalTerminator_reads hending hrest
  refine (reads_token htarget _).bind ?_
  refine (reads_token hoperator _).bind ?_
  exact hfound.bind reads_pure

theorem step_refuses (direction : StepDirection) {operatorKind : TokenKind} {name : Token}
    {rest : List Token} (hname : name.kind = .identifier)
    (hnext : ∀ t ∈ rest.head?, t.kind ≠ operatorKind) :
    (step direction operatorKind).Refuses (name :: rest) :=
  refuses_token_bind hname ((needs_token _ hnext).bind _)

theorem statementWithin_refuses (bound : Nat) {tokens : List Token}
    (hhead : ∀ t ∈ tokens.head?, ¬ startsStatement t.kind) :
    (statementWithin bound).Refuses tokens := by
  have hneeds {α : Type} {p : Parser α} {kind : TokenKind} (hp : p.Needs kind)
      (hkind : startsStatement kind) : p.Refuses tokens := by
    apply hp
    rintro t ht rfl
    exact hhead t ht hkind
  cases bound with
  | zero => exact fun _ _ => rfl
  | succ bound =>
    apply refuses_firstOf
    simp only [List.mem_cons, List.not_mem_nil, or_false, forall_eq_or_imp, forall_eq]
    refine ⟨?_, ?_, ?_, ?_, ?_, ?_, ?_, ?_, ?_, ?_, ?_⟩
    · exact hneeds ((keywordStatement_needs .print .print).map _) trivial
    · exact hneeds ((keywordStatement_needs .ret .ret).map _) trivial
    · exact hneeds ((keywordStatement_needs .read .read).map _) trivial
    · exact hneeds (decision_needs _) trivial
    · exact hneeds (variableDeclaration_needs.map _) trivial
    · exact hneeds (constantDeclaration_needs.map _) trivial
    · exact hneeds assignment_needs trivial
    · exact hneeds (loop_needs _) trivial
    · exact hneeds callStatement_needs trivial
    · exact hneeds (step_needs .increment .increment) trivial
    · exact hneeds (step_needs .decrement .decrement) trivial

section Dispatch

variable {first : Token} {more rest : List Token} {s : Statement} {statement : Parser Statement}
  {others : List (Parser Statement)}

/-- A token that opens no keyword statement leads past the three of them. -/
theorem Reads.after_keywordStatements
    (hfirst : first.kind ≠ .keyword .print ∧ first.kind ≠ .keyword .ret ∧
      first.kind ≠ .keyword .read)
    (hothers : (Parser.firstOf others).Reads (first :: more) s rest) :
    (Parser.firstOf ([
      (fun (word, taken) => .print word taken) <$> keywordStatement .print .print,
      (fun (word, taken) => .ret word taken) <$> keywordStatement .ret .ret,
      (fun (word, taken) => .read word taken) <$> keywordStatement .read .read] ++ others)).Reads
        (first :: more) s rest := by
  obtain ⟨hprint, hret, hread⟩ := hfirst
  refine (((keywordStatement_needs .print .print).map _).refuses hprint more).firstOf ?_
  refine (((keywordStatement_needs .ret .ret).map _).refuses hret more).firstOf ?_
  exact (((keywordStatement_needs .read .read).map _).refuses hread more).firstOf hothers

/-- A name or the reserved word of a loop leads past all constructs up to the declarations. -/
theorem Reads.after_declarations
    (hfirst : first.kind = .identifier ∨ first.kind = .keyword .loop)
    (hothers : (Parser.firstOf others).Reads (first :: more) s rest) :
    (Parser.firstOf ([
      (fun (word, taken) => .print word taken) <$> keywordStatement .print .print,
      (fun (word, taken) => .ret word taken) <$> keywordStatement .ret .ret,
      (fun (word, taken) => .read word taken) <$> keywordStatement .read .read,
      decision statement,
      (fun declared => .declare (.ofVariable declared)) <$> variableDeclaration,
      (fun declared => .declare (.ofConstant declared)) <$> constantDeclaration] ++ others)).Reads
        (first :: more) s rest := by
  have hkind {word : Keyword} (hword : word ≠ .loop) : first.kind ≠ .keyword word := by
    rcases hfirst with hfirst | hfirst <;> simp [hfirst, hword.symm]
  apply Reads.after_keywordStatements ⟨hkind (by decide), hkind (by decide), hkind (by decide)⟩
  refine ((decision_needs statement).refuses (hkind (by decide)) more).firstOf ?_
  refine ((variableDeclaration_needs.map _).refuses (hkind (by decide)) more).firstOf ?_
  exact ((constantDeclaration_needs.map _).refuses (hkind (by decide)) more).firstOf hothers

end Dispatch

/-- A statement parser reads every statement of the grammar of no more tokens than its bound. -/
theorem statementWithin_reads (bound : Nat) : ReadsStatements (statementWithin bound) bound where
  refuses := by
    intro closing hclosing rest
    apply statementWithin_refuses
    simp [hclosing, startsStatement]
  reads := by
    induction bound with
    | zero =>
      rintro taken s rest ⟨hs, hlength⟩ _
      have := isStatement_length_pos hs
      omega
    | succ bound ih =>
      have hstatement : ReadsStatements (statementWithin bound) bound := by
        refine ⟨ih, fun closing hclosing rest => ?_⟩
        exact statementWithin_refuses bound (by simp [hclosing, startsStatement])
      rintro taken s rest ⟨hs, hlength⟩ hrest
      cases hs with
      | print hword hpayload hhash =>
        simp only [List.cons_append, List.append_assoc, List.nil_append]
        exact ((keywordStatement_reads .print hword hpayload hhash rest).map _).firstOf _
      | ret hword hpayload hhash =>
        simp only [List.cons_append, List.append_assoc, List.nil_append]
        have hprint := keywordStatement_needs .print .print
        refine ((hprint.map _).refuses (by simp [hword]) _).firstOf ?_
        exact ((keywordStatement_reads .ret hword hpayload hhash rest).map _).firstOf _
      | read hword hpayload hhash =>
        simp only [List.cons_append, List.append_assoc, List.nil_append]
        have hprint := keywordStatement_needs .print .print
        have hret := keywordStatement_needs .ret .ret
        refine ((hprint.map _).refuses (by simp [hword]) _).firstOf ?_
        refine ((hret.map _).refuses (by simp [hword]) _).firstOf ?_
        exact ((keywordStatement_reads .read hword hpayload hhash rest).map _).firstOf _
      | decision hword hopening hcondition hclosing hbody =>
        simp only [List.length_cons, List.length_append] at hlength
        simp only [List.cons_append, List.append_assoc]
        apply Reads.after_keywordStatements (by simp [hword])
        have hread := hstatement.decision hword hopening hcondition hclosing hbody (by omega) hrest
        exact hread.firstOf _
      | decisionWithAlternative hword hopening hcondition hclosing hbody hotherwise helse =>
        simp only [List.length_cons, List.length_append] at hlength
        simp only [List.cons_append, List.append_assoc]
        apply Reads.after_keywordStatements (by simp [hword])
        have hread := hstatement.decisionWithAlternative hword hopening hcondition hclosing hbody
          hotherwise helse (by omega) (by omega) rest
        exact hread.firstOf _
      | declare hdeclaration =>
        cases hdeclaration with
        | ofVariable hvariable =>
          have hread := variableDeclaration_reads hvariable rest
          obtain ⟨word, more, rfl, hword⟩ := hvariable.starts
          apply Reads.after_keywordStatements (by simp [hword])
          refine ((decision_needs _).refuses (by simp [hword]) _).firstOf ?_
          exact (hread.map _).firstOf _
        | ofConstant hconstant =>
          have hread := constantDeclaration_reads hconstant rest
          obtain ⟨word, more, rfl, hword⟩ := hconstant.starts
          apply Reads.after_keywordStatements (by simp [hword])
          refine ((decision_needs _).refuses (by simp [hword]) _).firstOf ?_
          refine ((variableDeclaration_needs.map _).refuses (by simp [hword]) _).firstOf ?_
          exact (hread.map _).firstOf _
      | assign htarget hequals hvalue hhash =>
        simp only [List.cons_append, List.append_assoc, List.nil_append]
        apply Reads.after_declarations (.inl htarget)
        exact (assignment_reads htarget hequals hvalue hhash rest).firstOf _
      | loop hword hbody hwhilst hopening hcondition hclosing hhash =>
        simp only [List.length_cons, List.length_append] at hlength
        simp only [List.cons_append, List.append_assoc, List.nil_append]
        apply Reads.after_declarations (.inr hword)
        refine (assignment_needs.refuses (by simp [hword]) _).firstOf ?_
        exact (hstatement.loop hword hbody (by omega) hwhilst hopening hcondition hclosing hhash
          rest).firstOf _
      | call hcall hending =>
        have hread := callStatement_reads hcall hending hrest
        cases hcall with
        | mk hname hopening _ _ =>
          simp only [List.cons_append, List.append_assoc] at hread ⊢
          apply Reads.after_declarations (.inl hname)
          refine (assignment_refuses hname (by simp [hopening])).firstOf ?_
          refine ((loop_needs _).refuses (by simp [hname]) _).firstOf ?_
          exact hread.firstOf _
      | increment htarget hoperator hending =>
        apply Reads.after_declarations (.inl htarget)
        refine (assignment_refuses htarget (by simp [hoperator])).firstOf ?_
        refine ((loop_needs _).refuses (by simp [htarget]) _).firstOf ?_
        refine (callStatement_refuses (by simp [hoperator])).firstOf ?_
        exact (step_reads .increment htarget hoperator hending hrest).firstOf _
      | decrement htarget hoperator hending =>
        apply Reads.after_declarations (.inl htarget)
        refine (assignment_refuses htarget (by simp [hoperator])).firstOf ?_
        refine ((loop_needs _).refuses (by simp [htarget]) _).firstOf ?_
        refine (callStatement_refuses (by simp [hoperator])).firstOf ?_
        refine (step_refuses .increment htarget (by simp [hoperator])).firstOf ?_
        exact (step_reads .decrement htarget hoperator hending hrest).firstOf _

end FrontEnd.Parser
