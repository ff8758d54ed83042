import FrontEnd.Proofs.Grammar.Map
import FrontEnd.Proofs.Parsing.Recognition
import FrontEnd.Proofs.Parsing.Spelled

/-!
Printing operands and reading them again. The text of an operand has parentheses around every
operation, so that it is read back as the same operand, wherever its tokens stood before. Only `!`
touches what it is applied to, and there the text is read back if that is an operation too.
-/

namespace FrontEnd

open Grammar

/-- Words in parentheses. -/
def inParentheses (words : List (TokenKind × String)) : List (TokenKind × String) :=
  (.leftParen, "(") :: (words ++ [(.rightParen, ")")])

theorem atBoundary_append (c : Char) (hboundary : isBoundary c = true) (after : List Char) :
    AtBoundary ([c] ++ after) := by
  intro d hhead
  rwa [← Option.some.inj hhead]

namespace Operand

def isOperation : Operand → Bool
  | binary _ _ _ | unary _ _ => true
  | token _ | numeric _ => false

/-- Whether every `!` in the operand is applied to an operation, not to a name, a literal or a
number. -/
def negatesOperations : Operand → Bool
  | binary left _ right => left.negatesOperations && right.negatesOperations
  | unary _ operand => operand.isOperation && operand.negatesOperations
  | token _ | numeric _ => true

/-- The words of the text of an operand. -/
def words : Operand → List (TokenKind × String)
  | binary left operator right =>
    inParentheses (left.words ++ (operator.kind, operator.lexeme) :: right.words)
  | unary operator operand => inParentheses ((operator.kind, operator.lexeme) :: operand.words)
  | token t => [(t.kind, t.lexeme)]
  | numeric value => value.tokens.map fun t => (t.kind, t.lexeme)

/-! ### The text is read as its words -/

theorem toList_text_binary (left : Operand) (operator : Token) (right : Operand) :
    (binary left operator right).text.toList =
      ['('] ++ ((left.text.toList ++
        (([' '] ++ operator.lexeme.toList) ++ ([' '] ++ right.text.toList))) ++ [')']) := by
  simp [text, String.toList_append, toString]

theorem toList_text_unary (operator : Token) (operand : Operand) :
    (unary operator operand).text.toList =
      ['('] ++ ((operator.lexeme.toList ++ operand.text.toList) ++ [')']) := by
  simp [text, String.toList_append, toString]

/-- The text of an operation starts with its parenthesis. -/
theorem atBoundary_text {operand : Operand} (hoperation : operand.isOperation = true)
    (after : List Char) : AtBoundary (operand.text.toList ++ after) := by
  cases operand with
  | binary left operator right =>
    rw [toList_text_binary, List.append_assoc]
    exact atBoundary_append '(' rfl _
  | unary operator operand =>
    rw [toList_text_unary, List.append_assoc]
    exact atBoundary_append '(' rfl _
  | token | numeric => cases hoperation

end Operand

theorem ReadsAs.of_space {text after : List Char} {words : List (TokenKind × String)}
    (htext : ReadsAs text after words) : ReadsAs ([' '] ++ text) after words :=
  htext.of_gap (by simp [isBlank])

theorem ReadsAs.inParentheses {text after : List Char} {words : List (TokenKind × String)}
    (htext : ReadsAs text ([')'] ++ after) words) :
    ReadsAs (['('] ++ (text ++ [')'])) after (inParentheses words) := by
  have hopening : Leads .leftParen ['('] ((text ++ [')']) ++ after) := leads_bracket rfl _
  have hclosing : Leads .rightParen [')'] after := leads_bracket rfl _
  exact hopening.readsAs.cons (htext.append hclosing.readsAs)

namespace Token.IsSpelled

theorem readsAs {token : Token} (hspelled : token.IsSpelled) (hknown : token.kind ≠ .unknown)
    (hcomment : token.isComment = false) {after : List Char} (hafter : AtBoundary after) :
    ReadsAs token.lexeme.toList after [(token.kind, token.lexeme)] := by
  have hword := (hspelled hknown).leads hafter fun hline => by
    rw [Token.isComment, hline] at hcomment
    cases hcomment
  have hreads := hword.readsAs
  rwa [String.ofList_toList] at hreads

theorem readsAs_number {number : Token} (hspelled : number.IsSpelled)
    (hkind : number.kind = .integer ∨ number.kind = .decimal) {after : List Char}
    (hafter : AtBoundary after) :
    ReadsAs number.lexeme.toList after [(number.kind, number.lexeme)] := by
  rcases hkind with hkind | hkind <;>
    exact hspelled.readsAs (by simp [hkind])
      (by simp [Token.isComment, hkind, TokenKind.isComment]) hafter

/-- A sign is read by itself in front of a digit. -/
theorem readsAs_sign {sign : Token} (hspelled : sign.IsSpelled)
    (hkind : sign.kind = .arithmetic .add ∨ sign.kind = .arithmetic .sub) {after : List Char}
    (hafter : ∀ c ∈ after.head?, c.isDigit = true) :
    ReadsAs sign.lexeme.toList after [(sign.kind, sign.lexeme)] := by
  obtain ⟨operator, hoperator, hword⟩ := hspelled.exists_operator hkind
  have hreads := (hword.leads_arithmetic fun c hhead =>
    TokenClass.not_sign_of_isDigit (hafter c hhead)).readsAs
  rwa [String.ofList_toList, ← hoperator] at hreads

end Token.IsSpelled

namespace Grammar.IsOperand

/-- The text of an operand is read as its words in front of a boundary. The only tokens that touch
what comes after them are parentheses, signs, and `!` in front of a parenthesis. -/
theorem readsAs_text {tier : Tier} {tokens : List Token} {operand : Operand}
    (hoperand : IsOperand tier tokens operand) (hspelled : ∀ t ∈ tokens, t.IsSpelled)
    (hnegates : operand.negatesOperations = true) {after : List Char} (hafter : AtBoundary after) :
    ReadsAs operand.text.toList after operand.words := by
  induction hoperand generalizing after with
  | tighter _ ih | atom _ ih => exact ih hspelled hnegates hafter
  | @binary level before later operator left right hleft hoperator hright ihleft ihright =>
    have hcomment := (IsOperand.binary hleft hoperator hright).isComment_eq_false
    simp only [List.forall_mem_append, List.forall_mem_cons] at hspelled hcomment
    simp only [Operand.negatesOperations, Bool.and_eq_true] at hnegates
    have hknown := Level.known_of_ofKind? hoperator
    have hsecond := (ihright hspelled.2.2 hnegates.2 (atBoundary_append ')' rfl after)).of_space
    rw [Operand.toList_text_binary]
    refine (ReadsAs.append ?_ (.cons ?_ hsecond)).inParentheses
    · exact ihleft hspelled.1 hnegates.1 (atBoundary_append ' ' rfl _)
    · exact (hspelled.2.1.readsAs hknown hcomment.2.1 (atBoundary_append ' ' rfl _)).of_space
  | @negation operator tokens operand hnot hoperand ih =>
    simp only [List.forall_mem_cons] at hspelled
    simp only [Operand.negatesOperations, Bool.and_eq_true] at hnegates
    have hcomment : operator.isComment = false := by
      simp [Token.isComment, hnot, TokenKind.isComment]
    have hword := hspelled.1.readsAs (by simp [hnot]) hcomment
      (Operand.atBoundary_text hnegates.1 ([')'] ++ after))
    rw [Operand.toList_text_unary]
    exact (hword.cons (ih hspelled.2 hnegates.2 (atBoundary_append ')' rfl after))).inParentheses
  | parenthesized _ _ _ ih =>
    simp only [List.cons_append, List.forall_mem_cons, List.forall_mem_append] at hspelled
    exact ih hspelled.2.1 hnegates hafter
  | name hkind | string hkind | char hkind =>
    exact (hspelled _ List.mem_cons_self).readsAs (by simp [hkind])
      (by simp [Token.isComment, hkind, TokenKind.isComment]) hafter
  | @number number hkind =>
    have hnumber := (hspelled number List.mem_cons_self).readsAs_number hkind hafter
    simpa [Operand.text, NumericValue.text, Operand.words, NumericValue.tokens] using hnumber
  | @signed sign number hsign hkind =>
    simp only [List.forall_mem_cons] at hspelled
    have hnumber := hspelled.2.1.readsAs_number hkind hafter
    have hdigit : ∀ c ∈ (number.lexeme.toList ++ after).head?, c.isDigit = true := by
      obtain ⟨c, rest, hlexeme, hdigit⟩ := hspelled.2.1.exists_digit hkind
      simpa [hlexeme] using hdigit
    have hvalue := (hspelled.1.readsAs_sign hsign hdigit).cons hnumber
    simpa [Operand.text, NumericValue.text, Operand.words, NumericValue.tokens] using hvalue

end Grammar.IsOperand

/-! ### Tokens with these words are the operand -/

theorem Token.withoutPlace_eq {token other : Token}
    (hword : (token.kind, token.lexeme) = (other.kind, other.lexeme)) :
    token.withoutPlace = other.withoutPlace := by
  obtain ⟨hkind, hlexeme⟩ := Prod.mk.inj hword
  rw [withoutPlace, withoutPlace, hkind, hlexeme]

namespace Grammar.IsOperand

theorem exists_of_inParentheses {tokens : List Token} {words : List (TokenKind × String)}
    (hwords : tokens.map (fun t => (t.kind, t.lexeme)) = inParentheses words) :
    ∃ inner, inner.map (fun t => (t.kind, t.lexeme)) = words ∧
      ∀ tier operand, IsOperand tier inner operand → IsOperand .atom tokens operand := by
  obtain ⟨opening, rest, rfl, hopening, hrest⟩ := List.map_eq_cons_iff.mp hwords
  obtain ⟨inner, rest, rfl, hinner, hrest⟩ := List.map_eq_append_iff.mp hrest
  obtain ⟨closing, rfl, hclosing⟩ := List.map_eq_singleton_iff.mp hrest
  refine ⟨inner, hinner, fun tier operand hoperand => ?_⟩
  exact .parenthesized (Prod.mk.inj hopening).1 (hoperand.loosen (Nat.zero_le _))
    (Prod.mk.inj hclosing).1

/-- Tokens with the words of an operand are an atom, which differs from the operand in the places of
its tokens only. -/
theorem exists_copy {tier : Tier} {tokens : List Token} {operand : Operand}
    (hoperand : IsOperand tier tokens operand) {others : List Token}
    (hwords : others.map (fun t => (t.kind, t.lexeme)) = operand.words) :
    ∃ copy, IsOperand .atom others copy ∧
      copy.mapTokens Token.withoutPlace = operand.mapTokens Token.withoutPlace := by
  induction hoperand generalizing others with
  | tighter _ ih | atom _ ih | parenthesized _ _ _ ih => exact ih hwords
  | @binary level _ _ operator left right _ hoperator _ ihleft ihright =>
    obtain ⟨inner, hinner, hatom⟩ := exists_of_inParentheses hwords
    obtain ⟨before, rest, rfl, hleft, hrest⟩ := List.map_eq_append_iff.mp hinner
    obtain ⟨again, after, rfl, hagain, hright⟩ := List.map_eq_cons_iff.mp hrest
    obtain ⟨first, hfirst, hsameLeft⟩ := ihleft hleft
    obtain ⟨second, hsecond, hsameRight⟩ := ihright hright
    have hlevel : Level.ofKind? again.kind = some level := by
      rwa [(Prod.mk.inj hagain).1]
    refine ⟨.binary first again second, hatom (.binary level) _ ?_, ?_⟩
    · exact .binary (hfirst.loosen (Tier.rank_le_atom _)) hlevel
        (hsecond.loosen (Tier.rank_le_atom _))
    · rw [Operand.mapTokens, Operand.mapTokens, hsameLeft, hsameRight,
        Token.withoutPlace_eq hagain]
  | @negation operator _ operand hnot _ ih =>
    obtain ⟨inner, hinner, hatom⟩ := exists_of_inParentheses hwords
    obtain ⟨again, rest, rfl, hagain, hrest⟩ := List.map_eq_cons_iff.mp hinner
    obtain ⟨copy, hcopy, hsame⟩ := ih hrest
    refine ⟨.unary again copy, hatom .unary _ (.negation ?_ (.atom hcopy)), ?_⟩
    · rw [(Prod.mk.inj hagain).1, hnot]
    · rw [Operand.mapTokens, Operand.mapTokens, hsame, Token.withoutPlace_eq hagain]
  | @name token hkind | @string token hkind | @char token hkind =>
    obtain ⟨again, rfl, hagain⟩ := List.map_eq_singleton_iff.mp hwords
    have hkind := (Prod.mk.inj hagain).1.trans hkind
    refine ⟨.token again, ?_, ?_⟩
    · first | exact .name hkind | exact .string hkind | exact .char hkind
    · rw [Operand.mapTokens, Operand.mapTokens, Token.withoutPlace_eq hagain]
  | @number number hkind =>
    obtain ⟨again, rfl, hagain⟩ := List.map_eq_singleton_iff.mp hwords
    refine ⟨.numeric ⟨none, again⟩, .number (by rwa [(Prod.mk.inj hagain).1]), ?_⟩
    simp only [Operand.mapTokens, NumericValue.mapTokens, Token.withoutPlace_eq hagain,
      Option.map_none]
  | @signed sign number hsign hkind =>
    obtain ⟨first, rest, rfl, hfirst, hrest⟩ := List.map_eq_cons_iff.mp hwords
    obtain ⟨again, rfl, hagain⟩ := List.map_eq_singleton_iff.mp hrest
    refine ⟨.numeric ⟨some first, again⟩,
      .signed (by rwa [(Prod.mk.inj hfirst).1]) (by rwa [(Prod.mk.inj hagain).1]), ?_⟩
    simp only [Operand.mapTokens, NumericValue.mapTokens, Token.withoutPlace_eq hagain,
      Token.withoutPlace_eq hfirst, Option.map_some]

end Grammar.IsOperand

/-! ### A statement that prints the operand -/

theorem words_tokenize_print {tokens : List Token} {operand : Operand}
    (hoperand : IsExpression tokens operand) (hspelled : ∀ t ∈ tokens, t.IsSpelled)
    (hnegates : operand.negatesOperations = true) :
    (tokenize s!"muestre {operand.text} #").map (fun t => (t.kind, t.lexeme)) =
      (.keyword .print, "muestre") :: (operand.words ++ [(.terminator, "#")]) := by
  have hword : IsWord (.keyword .print) "muestre".toList :=
    .keyword (show ("muestre", .print) ∈ Keyword.spellings by decide)
  have hhash : Leads .terminator ['#'] [] :=
    IsWord.terminator.leads (by simp [AtBoundary]) (by simp)
  have htext : ReadsAs operand.text.toList (([' '] ++ ['#']) ++ []) operand.words :=
    hoperand.readsAs_text hspelled hnegates (atBoundary_append ' ' rfl _)
  have hlead : Leads (.keyword .print) "muestre".toList
      (([' '] ++ operand.text.toList) ++ ([' '] ++ ['#']) ++ []) :=
    hword.leads (atBoundary_append ' ' rfl _) (by simp)
  have hreads := hlead.readsAs.cons (htext.of_space.append hhash.readsAs.of_space)
  have hwords := Lexer.words_tokensBy_of_readsAs hreads {}
  simpa [tokenize, tokenizeBy, Lexer.ofString, toString] using hwords

/-- A program that prints an operand, as the grammar has it. -/
theorem isUnit_print {word hash : Token} {tokens : List Token} {operand : Operand}
    (hword : word.kind = .keyword .print) (hoperand : IsExpression tokens operand)
    (hhash : hash.kind = .terminator) :
    IsUnit (word :: (tokens ++ [hash])) ⟨[], [], [.print word (.operand operand)]⟩ := by
  have hstatement := IsStatement.print hword (.operand hoperand) hhash
  simpa using IsUnit.mk .nil .nil (.cons hstatement .nil)

/-- Printing can be undone. The text that prints an operand of a program, read as a program of its
own, is read without a report, and as the one statement that prints this operand, apart from the
places of its tokens. This takes that every `!` in the operand is applied to an operation. -/
theorem compile_print {source : String} {operand : Operand}
    (hoccurs : operand ∈ (compile source).unit.operands)
    (hnegates : operand.negatesOperations = true) :
    ∃ word copy,
      (compile s!"muestre {operand.text} #").syntaxDiagnostics = [] ∧
      (compile s!"muestre {operand.text} #").unit = ⟨[], [], [.print word (.operand copy)]⟩ ∧
      copy.mapTokens Token.withoutPlace = operand.mapTokens Token.withoutPlace := by
  obtain ⟨tokens, hoperand, hspelled⟩ := spelled_of_mem_operands hoccurs
  have hwords := words_tokenize_print hoperand hspelled hnegates
  obtain ⟨word, rest, htokens, hword, hrest⟩ := List.map_eq_cons_iff.mp hwords
  obtain ⟨others, rest, rfl, hothers, hrest⟩ := List.map_eq_append_iff.mp hrest
  obtain ⟨hash, rfl, hhash⟩ := List.map_eq_singleton_iff.mp hrest
  obtain ⟨copy, hcopy, hsame⟩ := hoperand.exists_copy hothers
  have hkind : word.kind = .keyword .print := (Prod.mk.inj hword).1
  have hending : hash.kind = .terminator := (Prod.mk.inj hhash).1
  have hunit := isUnit_print hkind (hcopy.loosen (Nat.zero_le _)) hending
  have hsignificant : (TokenStream.ofString s!"muestre {operand.text} #").significant =
      word :: (others ++ [hash]) := by
    rw [TokenStream.significant, TokenStream.ofString, htokens, List.filter_eq_self]
    simp only [List.forall_mem_cons, List.forall_mem_append, Token.isComment, hkind, hending]
    refine ⟨rfl, fun t hmem => ?_, rfl, by simp⟩
    have hcomment : t.kind.isComment = false := hcopy.isComment_eq_false t hmem
    rw [hcomment, Bool.not_false]
  rw [← hsignificant] at hunit
  have hparse := TokenStream.parse_of_isUnit hunit
  exact ⟨word, copy, congrArg ParsedUnit.diagnostics hparse, congrArg ParsedUnit.unit hparse, hsame⟩

/-- A negated conjunction in the body of a function, after a comment, with a sign apart from its
number. -/
theorem compile_print_negation :
    let source :=
      "accion @f() \x7b si (! « no » (- 3 <= @x && !(@x · ~a #~ == ^b^))) \x7b \x7d \x7d"
    ∃ operand ∈ (compile source).unit.operands,
      operand.negatesOperations = true ∧
      operand.text = "(!((-3 <= @x) && (!(@x · (~a #~ == ^b^)))))" ∧
      ∃ word copy,
        (compile s!"muestre {operand.text} #").syntaxDiagnostics = [] ∧
        (compile s!"muestre {operand.text} #").unit = ⟨[], [], [.print word (.operand copy)]⟩ ∧
        copy.mapTokens Token.withoutPlace = operand.mapTokens Token.withoutPlace := by
  intro source
  have hoperand : ∃ operand ∈ (compile source).unit.operands, operand.negatesOperations = true ∧
      operand.text = "(!((-3 <= @x) && (!(@x · (~a #~ == ^b^)))))" := by decide +kernel
  obtain ⟨operand, hoccurs, hnegates, htext⟩ := hoperand
  exact ⟨operand, hoccurs, hnegates, htext, compile_print hoccurs hnegates⟩

end FrontEnd
