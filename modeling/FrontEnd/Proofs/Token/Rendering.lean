import FrontEnd.Proofs.Token.Tiling
import FrontEnd.Proofs.Token.Word

/-!
Reading words back. Words with newlines between them are read as they were written, and what is read
from any text is words, apart from what is unknown.
-/

namespace FrontEnd

namespace TokenClass

theorem isBlank_eq_false_of_opens {cls : TokenClass} {c : Char} (hopens : cls.opens c = true) :
    isBlank c = false := by
  have hclosed : [' ', '\t', '\r', '\n'].all
      (fun c => byPriority.all fun cls => !cls.opens c) = true := by decide
  rw [← Bool.not_eq_true]
  intro hblank
  have hmem : c ∈ [' ', '\t', '\r', '\n'] := by simpa [isBlank, or_assoc] using hblank
  have hfalse := List.all_eq_true.mp (List.all_eq_true.mp hclosed c hmem) cls cls.mem_byPriority
  rw [hopens] at hfalse
  cases hfalse

/-- A text whose first token is known starts with it: with no blank, and with one character of it at
least. -/
theorem exists_cons_of_classify_ne_unknown {text : List Char}
    (hkind : (classify byPriority text).1 ≠ .unknown) :
    0 < (classify byPriority text).2 ∧ ∃ c rest, text = c :: rest ∧ isBlank c = false := by
  cases text with
  | nil => exact absurd rfl hkind
  | cons c rest =>
    obtain ⟨cls, hread, -⟩ := exists_of_classify_ne_unknown hkind
    exact ⟨(classify_takes byPriority (List.cons_ne_nil c rest)).pos, c, rest, rfl,
      isBlank_eq_false_of_opens (opens_of_recognize? hread)⟩

end TokenClass

namespace IsWord

theorem kind_ne_unknown {kind : TokenKind} {word : List Char} (hword : IsWord kind word) :
    kind ≠ .unknown := by
  rintro rfl
  cases hword

theorem exists_cons_of_number {kind : TokenKind} {word : List Char} (hword : IsWord kind word)
    (hkind : kind = .integer ∨ kind = .decimal) :
    ∃ c rest, word = c :: rest ∧ c.isDigit = true := by
  rcases hkind with rfl | rfl
  · cases hword with
    | integer hne hall =>
      obtain ⟨c, digits, rfl⟩ := List.exists_cons_of_ne_nil hne
      exact ⟨c, digits, rfl, hall c List.mem_cons_self⟩
  · cases hword with
    | decimal hwhole hall =>
      obtain ⟨c, digits, rfl⟩ := List.exists_cons_of_ne_nil hwhole
      exact ⟨c, _, List.cons_append, hall c List.mem_cons_self⟩

theorem eq_set_of_assignment {operator : AssignmentOperator} {word : List Char}
    (hword : IsWord (.assignment operator) word) : operator = .set := by
  cases hword with
  | assignment => rfl

end IsWord

/-! ### Reading a rendered text -/

/-- The first token of the text is the word, which is of the given kind. -/
structure Leads (kind : TokenKind) (word after : List Char) : Prop where
  ne_nil : word ≠ []
  begins : ∀ c ∈ word.head?, isBlank c = false
  classified : classify TokenClass.byPriority (word ++ after) = (kind, word.length)

theorem leads_of_classify {kind : TokenKind} {word after : List Char}
    (hclass : classify TokenClass.byPriority (word ++ after) = (kind, word.length))
    (hkind : kind ≠ .unknown) : Leads kind word after := by
  have hknown : (classify TokenClass.byPriority (word ++ after)).1 ≠ .unknown := by rwa [hclass]
  obtain ⟨hpos, c, rest, htext, hblank⟩ := TokenClass.exists_cons_of_classify_ne_unknown hknown
  rw [hclass] at hpos
  have hne : word ≠ [] := List.length_pos_iff.mp hpos
  refine ⟨hne, fun d hhead => ?_, hclass⟩
  have hfirst : (word ++ after).head? = some c := by rw [htext, List.head?_cons]
  rw [List.head?_append_of_ne_nil _ hne, Option.mem_def.mp hhead] at hfirst
  rwa [Option.some.inj hfirst]

theorem IsWord.leads {kind : TokenKind} {word after : List Char} (hword : IsWord kind word)
    (hboundary : AtBoundary after)
    (hline : kind = .lineComment → ∀ c ∈ after.head?, c = '\n') : Leads kind word after :=
  leads_of_classify (hword.classify_append hboundary hline) hword.kind_ne_unknown

/-- An arithmetic operator may touch whatever comes next, unless that is a sign. -/
theorem IsWord.leads_arithmetic {operator : ArithmeticOperator} {word after : List Char}
    (hword : IsWord (.arithmetic operator) word)
    (hafter : ∀ c ∈ after.head?, ¬ (c = '+' ∨ c = '-')) :
    Leads (.arithmetic operator) word after := by
  cases hword with
  | arithmetic hmem => exact leads_of_classify (classify_arithmetic hmem hafter) (by simp)

theorem leads_bracket {c : Char} {kind : TokenKind} (hkind : bracketKind? c = some kind)
    (after : List Char) : Leads kind [c] after := by
  refine leads_of_classify ?_ (IsWord.of_bracketKind? hkind).kind_ne_unknown
  exact TokenClass.classify_eq_of_closed .bracket (TokenClass.earlier_bracket_closed hkind)
    (singleKind?_eq_some_iff.mpr ⟨c, after, rfl, hkind, rfl⟩)

/-- In front of the rest, the text is read as the words, wherever it begins. -/
def ReadsAs (text after : List Char) (words : List (TokenKind × String)) : Prop :=
  ∀ position, ∃ tokens later,
    Lexer.tokensBy TokenClass.byPriority ⟨text ++ after, position⟩ =
      tokens ++ Lexer.tokensBy TokenClass.byPriority ⟨after, later⟩ ∧
    tokens.map (fun token => (token.kind, token.lexeme)) = words

theorem readsAs_nil (after : List Char) : ReadsAs [] after [] :=
  fun position => ⟨[], position, rfl, rfl⟩

theorem ReadsAs.append {text more after : List Char} {words others : List (TokenKind × String)}
    (htext : ReadsAs text (more ++ after) words) (hmore : ReadsAs more after others) :
    ReadsAs (text ++ more) after (words ++ others) := by
  intro position
  obtain ⟨front, middle, hfront, hwords⟩ := htext position
  obtain ⟨back, later, hback, hothers⟩ := hmore middle
  refine ⟨front ++ back, later, ?_, ?_⟩
  · rw [List.append_assoc, hfront, hback, List.append_assoc]
  · rw [List.map_append, hwords, hothers]

theorem ReadsAs.cons {text more after : List Char} {word : TokenKind × String}
    {words : List (TokenKind × String)} (htext : ReadsAs text (more ++ after) [word])
    (hmore : ReadsAs more after words) : ReadsAs (text ++ more) after (word :: words) :=
  htext.append hmore

theorem ReadsAs.of_gap {text after gap : List Char} {words : List (TokenKind × String)}
    (htext : ReadsAs text after words) (hgap : ∀ c ∈ gap, isBlank c = true) :
    ReadsAs (gap ++ text) after words := by
  intro position
  obtain ⟨tokens, later, hread, hwords⟩ := htext (position.advance gap)
  exact ⟨tokens, later, by rw [List.append_assoc, Lexer.tokensBy_of_gap hgap, hread], hwords⟩

theorem Leads.readsAs {kind : TokenKind} {word after : List Char} (hword : Leads kind word after) :
    ReadsAs word after [(kind, String.ofList word)] := by
  intro position
  obtain ⟨c, run, rfl⟩ := List.exists_cons_of_ne_nil hword.ne_nil
  have hnext := Lexer.nextBy?_of_gap (List.forall_mem_nil (isBlank · = true)) (hword.begins c rfl)
    hword.classified position
  simp only [List.length_cons, Nat.add_sub_cancel, List.append_eq, List.take_left,
    List.drop_left, List.nil_append] at hnext
  rw [List.cons_append, Lexer.tokensBy_of_some hnext]
  exact ⟨[_], _, rfl, rfl⟩

namespace Lexer

theorem nextBy?_of_blank {order : List TokenClass} {gap : List Char} (position : Position)
    (hgap : ∀ c ∈ gap, isBlank c = true) : nextBy? order ⟨gap, position⟩ = none := by
  simp only [nextBy?, skipBlanks, List.dropWhile_eq_nil_iff.mpr hgap]

theorem words_tokensBy_of_readsAs {text : List Char} {words : List (TokenKind × String)}
    (htext : ReadsAs text [] words) (position : Position) :
    (tokensBy TokenClass.byPriority ⟨text, position⟩).map
      (fun token => (token.kind, token.lexeme)) = words := by
  obtain ⟨tokens, later, hread, hwords⟩ := htext position
  rw [List.append_nil, tokensBy_of_none (nextBy?_of_blank later (by simp)),
    List.append_nil] at hread
  rw [hread, hwords]

end Lexer

/-! ### Words on lines of their own -/

/-- Words below each other, each of them after a newline. -/
def lines (words : List (TokenKind × String)) : List Char :=
  words.flatMap fun word => '\n' :: word.2.toList

theorem head?_lines (words : List (TokenKind × String)) : ∀ c ∈ (lines words).head?, c = '\n' := by
  cases words <;> simp [lines]

theorem intercalate_eq_append_lines (word : TokenKind × String)
    (words : List (TokenKind × String)) :
    ['\n'].intercalate ((word :: words).map fun word => word.2.toList) =
      word.2.toList ++ lines words := by
  induction words generalizing word with
  | nil => simp [lines]
  | cons next words ih =>
    have hrest := ih next
    rw [List.map_cons] at hrest
    rw [List.map_cons, List.map_cons, List.intercalate_cons_cons, hrest, lines, lines,
      List.flatMap_cons]
    simp

theorem readsAs_lines {words : List (TokenKind × String)}
    (hwords : ∀ word later, word :: later <:+ words → Leads word.1 word.2.toList (lines later)) :
    ReadsAs (lines words) [] words := by
  induction words with
  | nil => exact readsAs_nil []
  | cons word words ih =>
    have hnewline : ∀ c ∈ ['\n'], isBlank c = true := by simp [isBlank]
    have hfirst := (hwords word words (List.suffix_refl _)).readsAs.of_gap hnewline
    rw [String.ofList_toList, ← List.append_nil (lines words)] at hfirst
    exact hfirst.append (ih fun later others hsuffix =>
      hwords later others (hsuffix.trans (List.suffix_cons word words)))

/-- Words are read back from lines of their own if each is the first token of what is left when it
comes first. -/
theorem readsAs_intercalate {words : List (TokenKind × String)}
    (hwords : ∀ word later, word :: later <:+ words → Leads word.1 word.2.toList (lines later)) :
    ReadsAs (['\n'].intercalate (words.map fun word => word.2.toList)) [] words := by
  cases words with
  | nil => exact readsAs_nil []
  | cons word words =>
    have hfirst := (hwords word words (List.suffix_refl _)).readsAs
    rw [String.ofList_toList, ← List.append_nil (lines words)] at hfirst
    rw [intercalate_eq_append_lines]
    exact hfirst.append (readsAs_lines fun later others hsuffix =>
      hwords later others (hsuffix.trans (List.suffix_cons word words)))

theorem Lexer.words_tokensBy {words : List (TokenKind × String)} (gap : List Char)
    (position : Position) (hgap : ∀ c ∈ gap, isBlank c = true)
    (hwords : ∀ word ∈ words, IsWord word.1 word.2.toList) :
    (tokensBy TokenClass.byPriority
      ⟨gap ++ ['\n'].intercalate (words.map fun word => word.2.toList), position⟩).map
        (fun token => (token.kind, token.lexeme)) = words := by
  refine words_tokensBy_of_readsAs (ReadsAs.of_gap ?_ hgap) position
  refine readsAs_intercalate fun word later hsuffix => ?_
  have hnewline := head?_lines later
  exact (hwords word (hsuffix.mem List.mem_cons_self)).leads
    (fun c hhead => by rw [hnewline c hhead]; rfl) (fun _ => hnewline)

/-! ### What is read from any text -/

theorem isWord_of_classify {kind : TokenKind} {word after : List Char}
    (hclass : classify TokenClass.byPriority (word ++ after) = (kind, word.length))
    (hkind : kind ≠ .unknown) : IsWord kind word := by
  have hread : ReadsWord (word ++ after) (kind, word.length) :=
    hclass ▸ readsWord_classify (by rwa [hclass])
  obtain ⟨read, rest, htext, hlength, hword⟩ := hread
  obtain ⟨hsame, -⟩ := List.append_inj htext hlength
  rwa [hsame]

theorem isWord_of_mem_tokenize {source : String} {token : Token}
    (hmem : token ∈ tokenize source) (hkind : token.kind ≠ .unknown) :
    IsWord token.kind token.lexeme.toList := by
  obtain ⟨before, after, -, -, -, -, hclass⟩ := (tiles_tokenize source).standing token hmem
  rw [← String.length_toList] at hclass
  exact isWord_of_classify hclass hkind

/-- Reading inverts writing words with newlines between them, and reads nothing but words from any
text, apart from what is unknown. No number carries a sign, and the only assignment is the plain
one. -/
theorem tokenize_inverts_lines :
    (∀ words : List (TokenKind × String), (∀ word ∈ words, IsWord word.1 word.2.toList) →
      (tokenize ("\n".intercalate (words.map Prod.snd))).map
        (fun token => (token.kind, token.lexeme)) = words) ∧
    ∀ source, ∀ token ∈ tokenize source,
      (token.kind ≠ .unknown → IsWord token.kind token.lexeme.toList) ∧
      (token.kind = .integer ∨ token.kind = .decimal →
        ∀ c ∈ token.lexeme.toList.head?, c.isDigit = true) ∧
      token.kind ≠ .assignment .addTo ∧ token.kind ≠ .assignment .subtractFrom := by
  constructor
  · intro words hwords
    have hread := Lexer.words_tokensBy [] {} (by simp) hwords
    rw [List.nil_append] at hread
    rwa [tokenize, tokenizeBy, Lexer.ofString, String.toList_intercalate, List.map_map]
  · intro source token hmem
    have hword := isWord_of_mem_tokenize hmem
    refine ⟨hword, fun hkind => ?_, fun hkind => ?_, fun hkind => ?_⟩
    · have hknown : token.kind ≠ .unknown := by rcases hkind with h | h <;> rw [h] <;> simp
      obtain ⟨c, rest, hlexeme, hdigit⟩ := (hword hknown).exists_cons_of_number hkind
      simpa [hlexeme] using hdigit
    · rw [hkind] at hword
      cases (hword (by simp)).eq_set_of_assignment
    · rw [hkind] at hword
      cases (hword (by simp)).eq_set_of_assignment

/-- Words of which most have characters of other words in them, and a number after a sign. -/
theorem tokenize_inverts_mixedLines :
    (tokenize "+\n12.5\n~-3 # si~\n^\n^\n«~ ¶»\nsino\n==\n¶ += 1").map
        (fun token => (token.kind, token.lexeme)) =
      [(.arithmetic .add, "+"), (.decimal, "12.5"), (.string, "~-3 # si~"), (.char, "^\n^"),
        (.blockComment, "«~ ¶»"), (.keyword .otherwise, "sino"), (.relational .equal, "=="),
        (.lineComment, "¶ += 1")] ∧
    ∃ token ∈ tokenize "@x += -3#", token.kind = .integer ∧ IsWord token.kind token.lexeme.toList ∧
      ∀ c ∈ token.lexeme.toList.head?, c.isDigit = true := by
  have hadd : IsWord (.arithmetic .add) "+".toList :=
    .arithmetic (show ("+", .add) ∈ ArithmeticOperator.spellings by decide)
  have hdecimal : IsWord .decimal (['1', '2'] ++ '.' :: ['5']) :=
    .decimal (by decide) (List.all_eq_true.mp rfl) (by decide) (List.all_eq_true.mp rfl)
  have hstring : IsWord .string ('~' :: "-3 # si".toList ++ ['~']) := .string (by decide)
  have hchar : IsWord .char ('^' :: ['\n'] ++ ['^']) := .char (by decide) (by decide)
  have hblock : IsWord .blockComment ('«' :: "~ ¶".toList ++ ['»']) := .blockComment (by decide)
  have hkeyword : IsWord (.keyword .otherwise) "sino".toList :=
    .keyword (show ("sino", .otherwise) ∈ Keyword.spellings by decide)
  have hequal : IsWord (.relational .equal) "==".toList :=
    .relational (show ("==", .equal) ∈ RelationalOperator.spellings by decide)
  have hline : IsWord .lineComment ('¶' :: " += 1".toList) := .lineComment (by decide)
  constructor
  · refine tokenize_inverts_lines.1 [(.arithmetic .add, "+"), (.decimal, "12.5"),
      (.string, "~-3 # si~"), (.char, "^\n^"), (.blockComment, "«~ ¶»"),
      (.keyword .otherwise, "sino"), (.relational .equal, "=="), (.lineComment, "¶ += 1")] ?_
    simp only [List.forall_mem_cons, List.not_mem_nil, false_implies, implies_true, and_true]
    exact ⟨hadd, hdecimal, hstring, hchar, hblock, hkeyword, hequal, hline⟩
  · have hmem : (⟨.integer, "3", ⟨0, 7, ⟨7, 8⟩⟩⟩ : Token) ∈ tokenize "@x += -3#" := by
      decide +kernel
    obtain ⟨hword, hdigit, -, -⟩ := tokenize_inverts_lines.2 _ _ hmem
    exact ⟨_, hmem, rfl, hword (by decide), hdigit (.inl rfl)⟩

end FrontEnd
