import FrontEnd.Proofs.Grammar.Program

/-!
The tokens that a syntax tree keeps. Read from left to right they are the tokens the tree was
derived from, without those that only hold it together.
-/

namespace FrontEnd

/-- The kinds of tokens that syntax trees keep: all but comments, terminators, closing and round
brackets, braces, commas, equals signs, and the reserved words inside of decisions and loops. -/
def TokenKind.isStored : TokenKind → Bool
  | .blockComment | .lineComment | .terminator | .leftParen | .rightParen | .leftBrace | .rightBrace
  | .rightBracket | .comma | .assignment .set | .keyword .otherwise | .keyword .whilst => false
  | _ => true

def Token.isStored (token : Token) : Bool :=
  token.kind.isStored

theorem Token.isComment_of_isStored {token : Token} (hstored : token.isStored = true) :
    token.isComment = false := by
  unfold isStored at hstored
  unfold isComment
  cases hkind : token.kind <;> simp_all [TokenKind.isStored, TokenKind.isComment]

/-! ### Stored tokens, from left to right -/

def NumericValue.tokens (value : NumericValue) : List Token :=
  value.sign.toList ++ [value.number]

def Operand.tokens : Operand → List Token
  | binary left operator right => left.tokens ++ operator :: right.tokens
  | unary operator operand => operator :: operand.tokens
  | token t => [t]
  | numeric value => value.tokens

def Call.tokens (call : Call) : List Token :=
  call.name :: call.arguments.flatMap Operand.tokens

mutual

def ArrayElement.tokens : ArrayElement → List Token
  | .operand o => o.tokens
  | .array bracket elements => bracket :: ArrayElement.tokensOf elements

def ArrayElement.tokensOf : List ArrayElement → List Token
  | [] => []
  | element :: rest => element.tokens ++ ArrayElement.tokensOf rest

end

theorem ArrayElement.tokensOf_eq_flatMap (elements : List ArrayElement) :
    ArrayElement.tokensOf elements = elements.flatMap ArrayElement.tokens := by
  induction elements with
  | nil => rw [tokensOf, List.flatMap_nil]
  | cons element rest ih => rw [tokensOf, ih, List.flatMap_cons]

def Value.tokens : Value → List Token
  | call c => c.tokens
  | array a => a.toElement.tokens
  | operand o => o.tokens

def Payload.tokens : Payload → List Token
  | call c => c.tokens
  | operand o => o.tokens

def VariableDeclaration.tokens (declaration : VariableDeclaration) : List Token :=
  declaration.keyword :: declaration.name :: declaration.value.elim [] Value.tokens

def ConstantDeclaration.tokens (declaration : ConstantDeclaration) : List Token :=
  declaration.keyword :: declaration.name :: declaration.value.tokens

def Declaration.tokens : Declaration → List Token
  | ofVariable declaration => declaration.tokens
  | ofConstant declaration => declaration.tokens

mutual

def Statement.tokens : Statement → List Token
  | .print keyword payload | .ret keyword payload | .read keyword payload =>
    keyword :: payload.tokens
  | .decision keyword condition body alternative =>
    keyword :: condition.tokens ++ Statement.tokensOf body ++
      Statement.tokensOfAlternative alternative
  | .declare declaration => declaration.tokens
  | .assign target value => target :: value.tokens
  | .loop keyword body condition => keyword :: Statement.tokensOf body ++ condition.tokens
  | .call c => c.tokens
  | .step _ target operator => [target, operator]

def Statement.tokensOf : List Statement → List Token
  | [] => []
  | statement :: rest => statement.tokens ++ Statement.tokensOf rest

def Statement.tokensOfAlternative : Option (List Statement) → List Token
  | none => []
  | some body => Statement.tokensOf body

end

theorem Statement.tokensOf_eq_flatMap (statements : List Statement) :
    Statement.tokensOf statements = statements.flatMap Statement.tokens := by
  induction statements with
  | nil => rw [tokensOf, List.flatMap_nil]
  | cons statement rest ih => rw [tokensOf, ih, List.flatMap_cons]

def Parameter.tokens (parameter : Parameter) : List Token :=
  [parameter.keyword, parameter.name]

def FunctionDeclaration.tokens (function : FunctionDeclaration) : List Token :=
  function.keyword :: function.name :: function.parameters.flatMap Parameter.tokens ++
    Statement.tokensOf function.body

def CompilationUnit.tokens (unit : CompilationUnit) : List Token :=
  unit.declarations.flatMap Declaration.tokens ++
    unit.functions.flatMap FunctionDeclaration.tokens ++ Statement.tokensOf unit.statements

/-! ### First tokens -/

theorem NumericValue.firstToken_mem_tokens (value : NumericValue) :
    value.firstToken ∈ value.tokens := by
  obtain ⟨sign, number⟩ := value
  cases sign <;> simp [firstToken, tokens]

theorem Operand.firstToken_mem_tokens (operand : Operand) :
    operand.firstToken ∈ operand.tokens := by
  induction operand with
  | binary left operator right ihleft ihright => exact List.mem_append_left _ ihleft
  | unary operator operand ih => exact List.mem_cons_self
  | token t => exact List.mem_singleton_self t
  | numeric value => exact value.firstToken_mem_tokens

theorem ArrayElement.firstToken_mem_tokens (element : ArrayElement) :
    element.firstToken ∈ element.tokens := by
  cases element with
  | operand o =>
    rw [tokens]
    exact o.firstToken_mem_tokens
  | array bracket elements =>
    rw [tokens]
    exact List.mem_cons_self

theorem Value.firstToken_mem_tokens (value : Value) : value.firstToken ∈ value.tokens := by
  cases value with
  | call c => exact List.mem_cons_self
  | array a => exact a.toElement.firstToken_mem_tokens
  | operand o => exact o.firstToken_mem_tokens

namespace Grammar

variable {α : Type} {tokens : List Token}

/-- The trees of a language keep the tokens that are kept anywhere. -/
def Stores (language : List Token → α → Prop) (stored : α → List Token) : Prop :=
  ∀ ⦃tokens a⦄, language tokens a → stored a = tokens.filter Token.isStored

theorem Stores.of_within {language : List Token → α → Prop} {stored : α → List Token}
    (hstores : ∀ limit, Stores (fun taken a => language taken a ∧ taken.length ≤ limit) stored) :
    Stores language stored :=
  fun tokens _ hlanguage => hstores tokens.length ⟨hlanguage, Nat.le_refl _⟩

/-- A tree that keeps a token was derived from tokens. -/
theorem Stores.length_pos {language : List Token → α → Prop} {stored : α → List Token}
    (hstores : Stores language stored) {a : α} (hlanguage : language tokens a) {t : Token}
    (hmem : t ∈ stored a) : 0 < tokens.length := by
  rw [hstores hlanguage] at hmem
  exact List.length_pos_of_mem (List.mem_filter.mp hmem).1

/-! ### Lists -/

section Lists

variable {item : List Token → α → Prop} {stored : α → List Token} {as : List α}

theorem Stores.sequence (hitem : Stores item stored) :
    Stores (Sequence item) (List.flatMap stored) := by
  intro tokens as hitems
  induction hitems with
  | nil => rfl
  | cons hfirst _ ih => rw [List.flatMap_cons, hitem hfirst, ih, List.filter_append]

theorem filter_comma {comma : Token} (hcomma : comma.kind = .comma) (tokens : List Token) :
    (comma :: tokens).filter Token.isStored = tokens.filter Token.isStored := by
  simp [Token.isStored, TokenKind.isStored, hcomma]

theorem Stores.separated (hitem : Stores item stored) :
    Stores (Separated item) (List.flatMap stored) := by
  have hothers : Stores (AfterComma item) stored := by
    rintro _ a ⟨hcomma, ha⟩
    rw [filter_comma hcomma, hitem ha]
  rintro _ _ (_ | ⟨hfirst, hrest⟩)
  · rfl
  · rw [List.flatMap_cons, hitem hfirst, hothers.sequence hrest, List.filter_append]

end Lists

/-! ### Operands and values -/

theorem Level.isStored_of_ofKind? {kind : TokenKind} {level : Level}
    (hkind : Level.ofKind? kind = some level) : kind.isStored = true := by
  unfold Level.ofKind? at hkind
  split at hkind <;> first | rfl | cases hkind

theorem stores_operand (tier : Tier) : Stores (IsOperand tier) Operand.tokens := by
  intro tokens operand hoperand
  induction hoperand with
  | tighter _ ih | atom _ ih => exact ih
  | binary _ hoperator _ ihleft ihright =>
    rw [Operand.tokens, ihleft, ihright, List.filter_append, List.filter_cons_of_pos]
    exact Level.isStored_of_ofKind? hoperator
  | negation hnot _ ih =>
    simp [Operand.tokens, ih, Token.isStored, TokenKind.isStored, hnot]
  | parenthesized hopening _ hclosing ih =>
    simp [ih, Token.isStored, TokenKind.isStored, hopening, hclosing]
  | name hkind | string hkind | char hkind =>
    simp [Operand.tokens, Token.isStored, TokenKind.isStored, hkind]
  | number hnumber =>
    rcases hnumber with hkind | hkind <;>
      simp [Operand.tokens, NumericValue.tokens, Token.isStored, TokenKind.isStored, hkind]
  | signed hsign hnumber =>
    rcases hsign with hsign | hsign <;> rcases hnumber with hkind | hkind <;>
      simp [Operand.tokens, NumericValue.tokens, Token.isStored, TokenKind.isStored, hsign, hkind]

theorem stores_call : Stores IsCall Call.tokens := by
  rintro _ _ ⟨hname, hopening, harguments, hclosing⟩
  simp [Call.tokens, (stores_operand _).separated harguments, Token.isStored, TokenKind.isStored,
    hname, hopening, hclosing]

/-- Array elements hold elements of fewer tokens. -/
theorem stores_element : Stores IsElement ArrayElement.tokens := by
  apply Stores.of_within
  intro limit
  induction limit with
  | zero =>
    rintro tokens element ⟨_ | hoperand, hlength⟩
    · simp at hlength
    · have := hoperand.length_pos
      omega
  | succ limit ih =>
    rintro tokens element ⟨helement, hlength⟩
    cases helement with
    | operand hoperand => rw [ArrayElement.tokens, stores_operand _ hoperand]
    | @array opening closing inner elements hopening helements hclosing =>
      simp only [List.length_cons, List.length_append] at hlength
      have hinner := ih.separated (helements.within (show _ ≤ limit by omega))
      rw [ArrayElement.tokens, ArrayElement.tokensOf_eq_flatMap, hinner]
      simp [Token.isStored, TokenKind.isStored, hopening, hclosing]

theorem stores_value : Stores IsValue Value.tokens := by
  intro tokens value hvalue
  cases hvalue with
  | call hcall => exact stores_call hcall
  | array harray => exact stores_element harray
  | operand hoperand => exact stores_operand _ hoperand

theorem stores_payload : Stores IsPayload Payload.tokens := by
  intro tokens payload hpayload
  cases hpayload with
  | call hcall => exact stores_call hcall
  | operand hoperand => exact stores_operand _ hoperand

/-! ### Declarations and statements -/

theorem stores_declaration : Stores IsDeclaration Declaration.tokens := by
  intro tokens declaration hdeclaration
  cases hdeclaration with
  | ofVariable hvariable =>
    cases hvariable with
    | bare hword hname hhash =>
      simp [Declaration.tokens, VariableDeclaration.tokens, Token.isStored, TokenKind.isStored,
        hword, hname, hhash]
    | initialized hword hname hequals hvalue hhash =>
      simp [Declaration.tokens, VariableDeclaration.tokens, stores_value hvalue, Token.isStored,
        TokenKind.isStored, hword, hname, hequals, hhash]
  | ofConstant hconstant =>
    cases hconstant with
    | mk hword hname hequals hvalue hhash =>
      simp [Declaration.tokens, ConstantDeclaration.tokens, stores_value hvalue, Token.isStored,
        TokenKind.isStored, hword, hname, hequals, hhash]

theorem filter_ending {ending : List Token} (hending : OptionalTerminator ending) :
    ending.filter Token.isStored = [] := by
  cases hending with
  | absent => rfl
  | present hhash => simp [Token.isStored, TokenKind.isStored, hhash]

theorem Stores.block {item : List Token → α → Prop} {stored : α → List Token}
    (hitem : Stores item stored) : Stores (Block item) (List.flatMap stored) := by
  rintro _ as ⟨hopening, hitems, hclosing⟩
  simp [hitem.sequence hitems, Token.isStored, TokenKind.isStored, hopening, hclosing]

/-- A block holds statements of fewer tokens. -/
theorem Block.within {item : List Token → α → Prop} {limit : Nat} {as : List α}
    (hblock : Block item tokens as) (hlength : tokens.length ≤ limit) :
    Block (fun taken a => item taken a ∧ taken.length ≤ limit) tokens as := by
  cases hblock with
  | mk hopening hitems hclosing =>
    simp only [List.length_cons, List.length_append] at hlength
    exact .mk hopening (hitems.within (by omega)) hclosing

theorem stores_statement : Stores IsStatement Statement.tokens := by
  apply Stores.of_within
  intro limit
  induction limit with
  | zero =>
    rintro tokens statement ⟨hstatement, hlength⟩
    obtain ⟨first, rest, rfl, -⟩ := hstatement.starts
    simp at hlength
  | succ limit ih =>
    rintro tokens statement ⟨hstatement, hlength⟩
    cases hstatement with
    | print hword hpayload hhash | ret hword hpayload hhash | read hword hpayload hhash =>
      simp [Statement.tokens, stores_payload hpayload, Token.isStored, TokenKind.isStored, hword,
        hhash]
    | decision hword hopening hcondition hclosing hbody =>
      simp only [List.length_cons, List.length_append] at hlength
      simp [Statement.tokens, Statement.tokensOf_eq_flatMap, Statement.tokensOfAlternative,
        stores_operand _ hcondition, ih.block (hbody.within (show _ ≤ limit by omega)),
        Token.isStored, TokenKind.isStored, hword, hopening, hclosing]
    | decisionWithAlternative hword hopening hcondition hclosing hbody hotherwise halternative =>
      simp only [List.length_cons, List.length_append] at hlength
      simp [Statement.tokens, Statement.tokensOf_eq_flatMap, Statement.tokensOfAlternative,
        stores_operand _ hcondition, ih.block (hbody.within (show _ ≤ limit by omega)),
        ih.block (halternative.within (show _ ≤ limit by omega)),
        Token.isStored, TokenKind.isStored, hword, hopening, hclosing, hotherwise]
    | declare hdeclaration => rw [Statement.tokens, stores_declaration hdeclaration]
    | assign htarget hequals hvalue hhash =>
      simp [Statement.tokens, stores_value hvalue, Token.isStored, TokenKind.isStored, htarget,
        hequals, hhash]
    | loop hword hbody hwhilst hopening hcondition hclosing hhash =>
      simp only [List.length_cons, List.length_append] at hlength
      simp [Statement.tokens, Statement.tokensOf_eq_flatMap, stores_operand _ hcondition,
        ih.block (hbody.within (show _ ≤ limit by omega)), Token.isStored, TokenKind.isStored,
        hword, hwhilst, hopening, hclosing, hhash]
    | call hcall hending =>
      rw [Statement.tokens, stores_call hcall, List.filter_append, filter_ending hending,
        List.append_nil]
    | increment htarget hoperator hending | decrement htarget hoperator hending =>
      simp [Statement.tokens, filter_ending hending, Token.isStored, TokenKind.isStored, htarget,
        hoperator]

/-! ### Functions and programs -/

theorem isStored_of_ofKeyword? {word : Keyword} {type : ValueType}
    (htype : ValueType.ofKeyword? word = some type) : (TokenKind.keyword word).isStored = true := by
  cases word with
  | otherwise | whilst => cases htype
  | _ => rfl

theorem stores_parameter : Stores IsParameter Parameter.tokens := by
  rintro _ _ ⟨hword, htype, hname⟩
  rw [Parameter.tokens, List.filter_cons_of_pos, List.filter_cons_of_pos, List.filter_nil]
  · rw [Token.isStored, hname]
    rfl
  · rw [Token.isStored, hword, isStored_of_ofKeyword? htype]

theorem stores_function : Stores IsFunction FunctionDeclaration.tokens := by
  rintro _ _ ⟨hword, hname, hopening, hparameters, hclosing, hbody⟩
  simp [FunctionDeclaration.tokens, Statement.tokensOf_eq_flatMap,
    stores_parameter.separated hparameters, stores_statement.block hbody, Token.isStored,
    TokenKind.isStored, hword, hname, hopening, hclosing]

/-- A program keeps each token that is kept anywhere, once and in its place. -/
theorem stores_unit : Stores IsUnit CompilationUnit.tokens := by
  rintro _ _ ⟨hdeclarations, hfunctions, hstatements⟩
  rw [CompilationUnit.tokens, Statement.tokensOf_eq_flatMap,
    stores_declaration.sequence hdeclarations, stores_function.sequence hfunctions,
    stores_statement.sequence hstatements, List.filter_append, List.filter_append]

end Grammar

end FrontEnd
