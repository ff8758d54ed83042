import FrontEnd.Compilation.Basic
import FrontEnd.Proofs.Grammar.Operands
import FrontEnd.Proofs.Parsing.Failing.Unit
import FrontEnd.Proofs.Token.Rendering

/-!
What is parsed from a text. It is a program of the grammar, even where the text is not one, and its
tokens are spelled like words of their kinds.
-/

namespace FrontEnd

open Grammar

/-- The token is a word of its kind, unless it is unknown. -/
def Token.IsSpelled (token : Token) : Prop :=
  token.kind ≠ .unknown → IsWord token.kind token.lexeme.toList

theorem isSpelled_of_mem_tokenize {source : String} {token : Token}
    (hmem : token ∈ tokenize source) : token.IsSpelled :=
  isWord_of_mem_tokenize hmem

theorem known_of_number {kind : TokenKind} (hkind : kind = .integer ∨ kind = .decimal) :
    kind ≠ .unknown := by
  rcases hkind with rfl | rfl <;> simp

namespace Token.IsSpelled

theorem isWord {token : Token} {kind : TokenKind} (hspelled : token.IsSpelled)
    (hkind : token.kind = kind) (hknown : kind ≠ .unknown) :
    IsWord kind token.lexeme.toList := by
  subst hkind
  exact hspelled hknown

/-- A number starts with a digit. -/
theorem exists_digit {number : Token} (hspelled : number.IsSpelled)
    (hkind : number.kind = .integer ∨ number.kind = .decimal) :
    ∃ c rest, number.lexeme.toList = c :: rest ∧ c.isDigit = true :=
  (hspelled (known_of_number hkind)).exists_cons_of_number hkind

/-- A sign is an operator. -/
theorem exists_operator {sign : Token} (hspelled : sign.IsSpelled)
    (hkind : sign.kind = .arithmetic .add ∨ sign.kind = .arithmetic .sub) :
    ∃ operator, sign.kind = .arithmetic operator ∧
      IsWord (.arithmetic operator) sign.lexeme.toList := by
  obtain ⟨operator, hoperator⟩ : ∃ operator, sign.kind = .arithmetic operator :=
    hkind.elim (fun hadd => ⟨_, hadd⟩) fun hsub => ⟨_, hsub⟩
  exact ⟨operator, hoperator, hspelled.isWord hoperator (by simp)⟩

end Token.IsSpelled

/-- The program is derived from the tokens up to the one at which parsing stops. -/
theorem TokenStream.exists_isUnit_parse (stream : TokenStream) :
    ∃ read rest, stream.significant = read ++ rest ∧ IsUnit read stream.parse.unit := by
  obtain ⟨unit, rest, failures, again, hreads⟩ := Parser.exists_readsUnit stream.significant
  obtain ⟨read, hsignificant, hunit⟩ := hreads.exists_append
  exact ⟨read, rest, hsignificant, by rwa [parse_of_readsUnit hreads]⟩

namespace Grammar

theorem Level.known_of_ofKind? {kind : TokenKind} {level : Level}
    (hkind : Level.ofKind? kind = some level) : kind ≠ .unknown := by
  rintro rfl
  cases hkind

variable {α : Type} {item : List Token → α → Prop} {as : List α}

/-- The tree is derived from tokens that are spelled. -/
def Spelled (language : List Token → α → Prop) (a : α) : Prop :=
  ∃ tokens, language tokens a ∧ ∀ t ∈ tokens, t.IsSpelled

theorem Spelled.of_mem {items : List Token → List α → Prop} (hspelled : Spelled items as)
    (hitems : ∀ {tokens a}, items tokens as → a ∈ as → ∃ taken, taken ⊆ tokens ∧ item taken a) :
    ∀ a ∈ as, Spelled item a := by
  obtain ⟨tokens, hlist, hspelled⟩ := hspelled
  intro a ha
  obtain ⟨taken, hsubset, hitem⟩ := hitems hlist ha
  exact ⟨taken, hitem, fun t hmem => hspelled t (hsubset hmem)⟩

theorem Spelled.of_sequence (hspelled : Spelled (Sequence item) as) : ∀ a ∈ as, Spelled item a :=
  hspelled.of_mem Sequence.exists_of_mem

theorem Spelled.of_separated (hspelled : Spelled (Separated item) as) :
    ∀ a ∈ as, Spelled item a :=
  hspelled.of_mem Separated.exists_of_mem

theorem Spelled.of_block (hspelled : Spelled (Block item) as) : ∀ a ∈ as, Spelled item a :=
  hspelled.of_mem Block.exists_of_mem

/-! The parts of what is derived from spelled tokens are derived from spelled tokens, too. -/

theorem Spelled.of_decision {word : Token} {condition : Operand} {body : List Statement}
    {alternative : Option (List Statement)}
    (hdecision : Spelled IsStatement (.decision word condition body alternative)) :
    word.kind = .keyword .branch ∧ Spelled IsExpression condition ∧
      (∀ inner ∈ body, Spelled IsStatement inner) ∧
      ∀ other ∈ alternative, ∀ inner ∈ other, Spelled IsStatement inner := by
  obtain ⟨tokens, hstatement, hspelled⟩ := hdecision
  cases hstatement with
  | decision hword _ hcondition _ hbody =>
    exact ⟨hword, ⟨_, hcondition, fun t hmem => hspelled t (by simp [hmem])⟩,
      Spelled.of_block ⟨_, hbody, fun t hmem => hspelled t (by simp [hmem])⟩, by simp⟩
  | decisionWithAlternative hword _ hcondition _ hbody _ halternative =>
    have halternative := Spelled.of_block
      ⟨_, halternative, fun t hmem => hspelled t (by simp [hmem])⟩
    exact ⟨hword, ⟨_, hcondition, fun t hmem => hspelled t (by simp [hmem])⟩,
      Spelled.of_block ⟨_, hbody, fun t hmem => hspelled t (by simp [hmem])⟩,
      by simpa using halternative⟩

theorem Spelled.of_loop {word : Token} {body : List Statement} {condition : Operand}
    (hloop : Spelled IsStatement (.loop word body condition)) :
    word.kind = .keyword .loop ∧ (∀ inner ∈ body, Spelled IsStatement inner) ∧
      Spelled IsExpression condition := by
  obtain ⟨tokens, hstatement, hspelled⟩ := hloop
  cases hstatement with
  | loop hword hbody _ _ hcondition _ _ =>
    exact ⟨hword, Spelled.of_block ⟨_, hbody, fun t hmem => hspelled t (by simp [hmem])⟩,
      _, hcondition, fun t hmem => hspelled t (by simp [hmem])⟩

theorem Spelled.of_function {function : FunctionDeclaration}
    (hfunction : Spelled IsFunction function) :
    function.keyword.kind = .keyword .action ∧ function.name.kind = .identifier ∧
      function.name.IsSpelled ∧
      (∀ parameter ∈ function.parameters, Spelled IsParameter parameter) ∧
      ∀ inner ∈ function.body, Spelled IsStatement inner := by
  obtain ⟨tokens, hfunction, hspelled⟩ := hfunction
  cases hfunction with
  | mk hword hname _ hparameters _ hbody =>
    exact ⟨hword, hname, hspelled _ (by simp),
      Spelled.of_separated ⟨_, hparameters, fun t hmem => hspelled t (by simp [hmem])⟩,
      Spelled.of_block ⟨_, hbody, fun t hmem => hspelled t (by simp [hmem])⟩⟩

theorem Spelled.of_unit {unit : CompilationUnit} (hunit : Spelled IsUnit unit) :
    (∀ declaration ∈ unit.declarations, Spelled IsDeclaration declaration) ∧
      (∀ function ∈ unit.functions, Spelled IsFunction function) ∧
      ∀ statement ∈ unit.statements, Spelled IsStatement statement := by
  obtain ⟨tokens, hunit, hspelled⟩ := hunit
  cases hunit with
  | mk hdeclarations hfunctions hstatements =>
    exact ⟨Spelled.of_sequence ⟨_, hdeclarations, fun t hmem => hspelled t (by simp [hmem])⟩,
      Spelled.of_sequence ⟨_, hfunctions, fun t hmem => hspelled t (by simp [hmem])⟩,
      Spelled.of_sequence ⟨_, hstatements, fun t hmem => hspelled t (by simp [hmem])⟩⟩

end Grammar

theorem spelled_compile (source : String) : Spelled IsUnit (compile source).unit := by
  obtain ⟨read, rest, hsignificant, hunit⟩ := (TokenStream.ofString source).exists_isUnit_parse
  refine ⟨read, hunit, fun t hmem => ?_⟩
  have hsource : t ∈ (TokenStream.ofString source).significant := by
    rw [hsignificant]
    exact List.mem_append_left rest hmem
  exact isSpelled_of_mem_tokenize (List.mem_of_mem_filter hsource)

theorem spelled_of_mem_operands {source : String} {operand : Operand}
    (hmem : operand ∈ (compile source).unit.operands) : Spelled IsExpression operand := by
  obtain ⟨tokens, hunit, hspelled⟩ := spelled_compile source
  obtain ⟨taken, hsubset, hoperand⟩ := contains_unit hunit operand hmem
  exact ⟨taken, hoperand, fun t ht => hspelled t (hsubset ht)⟩

end FrontEnd
