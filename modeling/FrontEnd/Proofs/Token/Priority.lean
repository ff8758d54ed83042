import FrontEnd.Proofs.Token.Extent
import FrontEnd.Proofs.Token.Tiling
import FrontEnd.Proofs.Token.Word

/-!
How far the order of the classes matters. A text is recognized by two classes at most, and if there
are two of them, one is that of the arithmetic operators. Only what is asked before these operators
and what is asked after them makes a difference.
-/

namespace FrontEnd

namespace TokenClass

/-- The pairs of classes with texts in common, the class that is to be asked first in front. -/
def overlaps : List (TokenClass × TokenClass) :=
  [(increment, arithmetic), (decrement, arithmetic), (arithmetic, assignment),
   (arithmetic, integer), (arithmetic, decimal)]

/-- The classes that recognize a text. -/
def recognizing (text : List Char) : List TokenClass :=
  byPriority.filter fun cls => (cls.recognize? text).isSome

/-- The order asks every class once, and of two classes with texts in common it asks the one first
that is to be asked first. -/
structure KeepsPriority (order : List TokenClass) : Prop where
  perm : order.Perm byPriority
  overlapping : ∀ pair ∈ overlaps, order.idxOf pair.1 < order.idxOf pair.2

/-! ### Classes by the first character -/

/-- The classes whose tokens may start with the character. -/
def openers (c : Char) : List TokenClass :=
  byPriority.filter fun cls => cls.opens c

/-- The first characters of the spellings in a table. -/
def tableOpenings {Meaning : Type} (table : SpellingTable Meaning) : List Char :=
  table.filterMap fun entry => entry.1.toList.head?

/-- The characters that tokens of each class start with. -/
def openings : TokenClass → List Char
  | identifier => ['@']
  | increment => ['+']
  | decrement => ['-']
  | arithmetic => tableOpenings ArithmeticOperator.spellings
  | assignment => tableOpenings AssignmentOperator.spellings
  | relational => tableOpenings RelationalOperator.spellings
  | logical => tableOpenings LogicalOperator.spellings
  | integer | decimal => '+' :: '-' :: ['0', '1', '2', '3', '4', '5', '6', '7', '8', '9']
  | keyword => tableOpenings Keyword.spellings
  | string => ['~']
  | char => ['^']
  | blockComment => ['«']
  | lineComment => ['¶']
  | terminator => ['#']
  | bracket => ['(', ')', '{', '}', '[', ']']
  | separator => [',', ';', ':']
  | concat => ['·']

theorem mem_tableOpenings {Meaning : Type} {table : SpellingTable Meaning} {c : Char}
    (hopens : table.opens c = true) : c ∈ tableOpenings table := by
  obtain ⟨entry, hmem, hhead⟩ := List.any_eq_true.mp hopens
  exact List.mem_filterMap.mpr ⟨entry, hmem, of_decide_eq_true hhead⟩

theorem mem_openings_of_opens {cls : TokenClass} {c : Char} (hopens : cls.opens c = true) :
    c ∈ cls.openings := by
  cases cls with
  | arithmetic | assignment | relational | logical | keyword => exact mem_tableOpenings hopens
  | integer | decimal =>
    rcases of_decide_eq_true hopens with rfl | rfl | hdigit
    · exact List.mem_cons_self
    · exact List.mem_cons_of_mem _ List.mem_cons_self
    · exact List.mem_cons_of_mem _ (List.mem_cons_of_mem _ (mem_digits_of_isDigit hdigit))
  | bracket =>
    simp only [opens, isBracket, bracketKind?] at hopens
    split at hopens <;> first | decide | cases hopens
  | separator =>
    simp only [opens, isSeparator, separatorKind?] at hopens
    split at hopens <;> first | decide | cases hopens
  | _ => exact List.mem_singleton.mpr (of_decide_eq_true hopens)

/-- The classes that read more than the sign from a text that starts with one. -/
def signed : List TokenClass :=
  [increment, decrement, assignment, integer, decimal]

/-- Most characters leave no choice of classes. -/
theorem openers_cases (c : Char) :
    (openers c).length ≤ 1 ∨
      ((c = '+' ∨ c = '-') ∧ ∀ cls ∈ openers c, cls ∈ arithmetic :: signed) ∨
      openers c = [assignment, relational] ∨ openers c = [relational, logical] ∨
      openers c = [integer, decimal] := by
  have hall : (byPriority.flatMap openings).all (fun c => (openers c).length ≤ 1 ∨
      ((c = '+' ∨ c = '-') ∧ ∀ cls ∈ openers c, cls ∈ arithmetic :: signed) ∨
      openers c = [assignment, relational] ∨ openers c = [relational, logical] ∨
      openers c = [integer, decimal]) = true := by decide +kernel
  by_cases hmem : c ∈ byPriority.flatMap openings
  · exact of_decide_eq_true (List.all_eq_true.mp hall c hmem)
  · have hnone : openers c = [] := by
      refine List.filter_eq_nil_iff.mpr fun cls hcls hopens => hmem ?_
      exact List.mem_flatMap.mpr ⟨cls, hcls, mem_openings_of_opens hopens⟩
    exact .inl (by simp [hnone])

/-! ### Classes with no text in common -/

/-- No text is recognized by both classes. -/
def Excludes (first second : TokenClass) : Prop :=
  ∀ text, (first.recognize? text).isSome = true → second.recognize? text = none

theorem Excludes.eq_of_mem {first second a b : TokenClass} (hexcludes : first.Excludes second)
    (ha : a ∈ [first, second]) (hb : b ∈ [first, second]) {text : List Char}
    (hreadA : (a.recognize? text).isSome = true) (hreadB : (b.recognize? text).isSome = true) :
    a = b := by
  have hapart (hfirst : (first.recognize? text).isSome = true) :
      ¬ (second.recognize? text).isSome = true := by
    rw [hexcludes text hfirst]
    exact Bool.false_ne_true
  simp only [List.mem_cons, List.not_mem_nil, or_false] at ha hb
  rcases ha with rfl | rfl <;> rcases hb with rfl | rfl
  · rfl
  · exact absurd hreadB (hapart hreadA)
  · exact absurd hreadA (hapart hreadB)
  · rfl

theorem excludes_of_tables {Meaning Other : Type} {table : SpellingTable Meaning}
    {others : SpellingTable Other} (hlawful : table.Lawful) (hothers : others.Lawful)
    (hnew : ∀ entry ∈ table, entry.1 ∉ others.map Prod.fst) {text : List Char}
    (hread : (table.standalone? text).isSome = true) : others.standalone? text = none := by
  obtain ⟨found, hfound⟩ := Option.isSome_iff_exists.mp hread
  obtain ⟨entry, hmem, after, rfl, hafter, -⟩ := SpellingTable.exists_of_standalone?_eq_some hfound
  exact hlawful.standalone?_append_eq_none hothers hmem (hnew entry hmem) hafter

theorem assignment_excludes_relational : assignment.Excludes relational := by
  intro text hread
  rw [recognize?, Option.isSome_map] at hread
  rw [recognize?, excludes_of_tables AssignmentOperator.lawful_spellings
    RelationalOperator.lawful_spellings (by decide) hread, Option.map_none]

theorem relational_excludes_logical : relational.Excludes logical := by
  intro text hread
  rw [recognize?, Option.isSome_map] at hread
  rw [recognize?, excludes_of_tables RelationalOperator.lawful_spellings
    LogicalOperator.lawful_spellings (by decide) hread, Option.map_none]

/-- The digits of an integer end at a boundary, and a point is none. -/
theorem integer_excludes_decimal : integer.Excludes decimal := by
  intro text hread
  obtain ⟨found, hfound⟩ := Option.isSome_iff_exists.mp hread
  obtain ⟨⟨-, hends⟩, -⟩ := Option.ite_none_right_eq_some.mp hfound
  refine if_neg ?_
  rintro ⟨-, hpoint, -⟩
  rw [endsAtBoundary, hpoint] at hends
  cases hends

/-! ### Signs -/

/-- What comes after the sign in a token of the class. -/
def afterSign : TokenClass → Char → Bool
  | increment, d => d = '+'
  | decrement, d => d = '-'
  | assignment, d => d = '='
  | integer, d | decimal, d => d.isDigit
  | _, _ => true

theorem isDigit_of_digitRun {c : Char} {text : List Char} (hsign : c = '+' ∨ c = '-')
    (hdigits : 0 < digitRun ((c :: text).drop (signLength (c :: text)))) :
    ∃ d ∈ text.head?, d.isDigit = true := by
  cases text with
  | nil => rcases hsign with rfl | rfl <;> cases hdigits
  | cons d text =>
    by_cases hdigit : d.isDigit = true
    · exact ⟨d, rfl, hdigit⟩
    · have hlength : signLength (c :: d :: text) = 0 := if_neg fun h => hdigit h.2
      rw [hlength] at hdigits
      rcases hsign with rfl | rfl <;> cases hdigits

theorem exists_afterSign {cls : TokenClass} (hcls : cls ∈ signed) {c : Char}
    (hsign : c = '+' ∨ c = '-') {text : List Char}
    (hread : (cls.recognize? (c :: text)).isSome = true) :
    ∃ d ∈ text.head?, cls.afterSign d = true := by
  obtain ⟨found, hfound⟩ := Option.isSome_iff_exists.mp hread
  simp only [signed, List.mem_cons, List.not_mem_nil, or_false] at hcls
  rcases hcls with rfl | rfl | rfl | rfl | rfl
  · obtain ⟨⟨after, htext⟩, -⟩ := fixed?_eq_some_iff.mp hfound
    obtain ⟨-, rfl⟩ := List.cons.inj htext
    exact ⟨_, rfl, rfl⟩
  · obtain ⟨⟨after, htext⟩, -⟩ := fixed?_eq_some_iff.mp hfound
    obtain ⟨-, rfl⟩ := List.cons.inj htext
    exact ⟨_, rfl, rfl⟩
  · obtain ⟨meant, hmeant, -⟩ := Option.map_eq_some_iff.mp hfound
    obtain ⟨entry, hmem, after, htext, -, -⟩ :=
      SpellingTable.exists_of_standalone?_eq_some hmeant
    have hspelling : ∀ entry ∈ AssignmentOperator.spellings,
        entry.1.toList = ['='] ∨ entry.1.toList = ['+', '='] ∨ entry.1.toList = ['-', '='] := by
      decide
    rcases hspelling entry hmem with hspelled | hspelled | hspelled <;> rw [hspelled] at htext <;>
      obtain ⟨rfl, rfl⟩ := List.cons.inj htext
    · rcases hsign with hsign | hsign <;> cases hsign
    · exact ⟨_, rfl, rfl⟩
    · exact ⟨_, rfl, rfl⟩
  · obtain ⟨⟨hdigits, -⟩, -⟩ := Option.ite_none_right_eq_some.mp hfound
    exact isDigit_of_digitRun hsign hdigits
  · obtain ⟨⟨hdigits, -⟩, -⟩ := Option.ite_none_right_eq_some.mp hfound
    exact isDigit_of_digitRun hsign hdigits

/-- After a sign there is a choice between the two sorts of numbers at most. -/
theorem eq_or_isNumber_of_afterSign {a b : TokenClass} (ha : a ∈ signed) (hb : b ∈ signed)
    {d : Char} (hafterA : a.afterSign d = true) (hafterB : b.afterSign d = true) :
    a = b ∨ a ∈ [integer, decimal] ∧ b ∈ [integer, decimal] := by
  simp only [signed, List.mem_cons, List.not_mem_nil, or_false] at ha hb
  rcases ha with rfl | rfl | rfl | rfl | rfl <;> rcases hb with rfl | rfl | rfl | rfl | rfl <;>
    simp_all [afterSign]

theorem eq_of_signed {a b : TokenClass} (ha : a ∈ signed) (hb : b ∈ signed) {c : Char}
    (hsign : c = '+' ∨ c = '-') {text : List Char}
    (hreadA : (a.recognize? (c :: text)).isSome = true)
    (hreadB : (b.recognize? (c :: text)).isSome = true) : a = b := by
  obtain ⟨d, hhead, hafterA⟩ := exists_afterSign ha hsign hreadA
  obtain ⟨e, hhead', hafterB⟩ := exists_afterSign hb hsign hreadB
  obtain rfl := Option.some.inj (hhead.symm.trans hhead')
  rcases eq_or_isNumber_of_afterSign ha hb hafterA hafterB with hsame | ⟨ha, hb⟩
  · exact hsame
  · exact integer_excludes_decimal.eq_of_mem ha hb hreadA hreadB

/-! ### At most two classes -/

theorem mem_overlaps {a b : TokenClass} (hne : a ≠ b) {text : List Char}
    (hreadA : (a.recognize? text).isSome = true) (hreadB : (b.recognize? text).isSome = true) :
    (a, b) ∈ overlaps ∨ (b, a) ∈ overlaps := by
  obtain ⟨found, hfoundA⟩ := Option.isSome_iff_exists.mp hreadA
  obtain ⟨other, hfoundB⟩ := Option.isSome_iff_exists.mp hreadB
  have htakes := recognize?_takes hfoundA
  obtain ⟨c, rest, rfl⟩ := List.exists_cons_of_length_pos (Nat.lt_of_lt_of_le htakes.pos htakes.le)
  have ha : a ∈ openers c := List.mem_filter.mpr ⟨a.mem_byPriority, opens_of_recognize? hfoundA⟩
  have hb : b ∈ openers c := List.mem_filter.mpr ⟨b.mem_byPriority, opens_of_recognize? hfoundB⟩
  rcases openers_cases c with hone | ⟨hsign, hsigned⟩ | htwo | htwo | htwo
  · obtain ⟨cls, hcls⟩ := List.length_eq_one_iff.mp
      (Nat.le_antisymm hone (List.length_pos_of_mem ha))
    rw [hcls, List.mem_singleton] at ha hb
    exact absurd (ha.trans hb.symm) hne
  · have hsides : ∀ cls ∈ signed, (arithmetic, cls) ∈ overlaps ∨ (cls, arithmetic) ∈ overlaps := by
      decide
    rcases List.mem_cons.mp (hsigned a ha) with rfl | hsignedA
    · rcases List.mem_cons.mp (hsigned b hb) with rfl | hsignedB
      · exact absurd rfl hne
      · exact hsides b hsignedB
    · rcases List.mem_cons.mp (hsigned b hb) with rfl | hsignedB
      · exact (hsides a hsignedA).symm
      · exact absurd (eq_of_signed hsignedA hsignedB hsign hreadA hreadB) hne
  · rw [htwo] at ha hb
    exact absurd (assignment_excludes_relational.eq_of_mem ha hb hreadA hreadB) hne
  · rw [htwo] at ha hb
    exact absurd (relational_excludes_logical.eq_of_mem ha hb hreadA hreadB) hne
  · rw [htwo] at ha hb
    exact absurd (integer_excludes_decimal.eq_of_mem ha hb hreadA hreadB) hne

theorem recognizing_pairwise (text : List Char) :
    (recognizing text).Pairwise fun a b => (a, b) ∈ overlaps := by
  have horder : byPriority.Pairwise fun a b => a ≠ b ∧ (b, a) ∉ overlaps := by decide
  refine (horder.filter _).imp_of_mem fun {a b} ha hb hapart => ?_
  exact (mem_overlaps hapart.1 (List.mem_filter.mp ha).2 (List.mem_filter.mp hb).2).resolve_right
    hapart.2

theorem recognizing_cases (text : List Char) :
    recognizing text = [] ∨ (∃ cls, recognizing text = [cls]) ∨
      ∃ pair ∈ overlaps, recognizing text = [pair.1, pair.2] := by
  have hpairwise := recognizing_pairwise text
  match hclasses : recognizing text with
  | [] => exact .inl rfl
  | [cls] => exact .inr (.inl ⟨cls, rfl⟩)
  | [a, b] =>
    rw [hclasses, List.pairwise_pair] at hpairwise
    exact .inr (.inr ⟨(a, b), hpairwise, rfl⟩)
  | a :: b :: c :: rest =>
    -- the three classes would all be in pairs with each other
    rw [hclasses] at hpairwise
    obtain ⟨hfirst, hsecond, -⟩ := by simpa only [List.pairwise_cons] using hpairwise
    have hopen : ∀ p ∈ overlaps, ∀ q ∈ overlaps, p.2 = q.1 → (p.1, q.2) ∉ overlaps := by decide
    exact absurd (hfirst c (by simp)) (hopen _ (hfirst b (by simp)) _ (hsecond c (by simp)) rfl)

/-! ### Other orders -/

/-- A class that recognizes a text decides what it is if it is asked before all others that
recognize it. -/
theorem classify_of_first {order : List TokenClass} {cls : TokenClass} (hmem : cls ∈ order)
    {text : List Char} {found : TokenKind × Nat} (hread : cls.recognize? text = some found)
    (hfirst : ∀ other, other ≠ cls → (other.recognize? text).isSome = true →
      order.idxOf cls < order.idxOf other) : classify order text = found := by
  obtain ⟨before, later, rfl, hnew⟩ := List.eq_append_cons_of_mem hmem
  have hnone : before.findSome? (fun other => other.recognize? text) = none := by
    refine List.findSome?_eq_none_iff.mpr fun other hother => ?_
    cases hread : other.recognize? text with
    | none => rfl
    | some found =>
      have hlt := hfirst other (ne_of_mem_of_not_mem hother hnew) (by rw [hread]; rfl)
      rw [List.idxOf_append_of_notMem hnew, List.idxOf_append_of_mem hother] at hlt
      have hinside := List.idxOf_lt_length_of_mem hother
      omega
  rw [classify, List.findSome?_append, hnone, Option.none_or, List.findSome?_cons, hread,
    Option.getD_some]

/-- One class is in front of all others that recognize the same text. -/
theorem exists_first {text : List Char} (hsome : recognizing text ≠ []) :
    ∃ cls found, TokenClass.recognize? cls text = some found ∧
      ∀ other, other ≠ cls → (other.recognize? text).isSome = true → (cls, other) ∈ overlaps := by
  obtain ⟨cls, rest, hclasses⟩ := List.exists_cons_of_ne_nil hsome
  have hpairwise := recognizing_pairwise text
  have hread : cls ∈ recognizing text := by rw [hclasses]; exact List.mem_cons_self
  obtain ⟨found, hfound⟩ := Option.isSome_iff_exists.mp (List.mem_filter.mp hread).2
  refine ⟨cls, found, hfound, fun other hne hother => ?_⟩
  have hmem : other ∈ recognizing text := List.mem_filter.mpr ⟨other.mem_byPriority, hother⟩
  rw [hclasses] at hmem hpairwise
  exact (List.pairwise_cons.mp hpairwise).1 other ((List.mem_cons.mp hmem).resolve_left hne)

theorem keepsPriority_byPriority : KeepsPriority byPriority where
  perm := List.Perm.refl _
  overlapping := by decide

theorem KeepsPriority.classify_eq {order : List TokenClass} (horder : KeepsPriority order)
    (text : List Char) : classify order text = classify byPriority text := by
  by_cases hsome : recognizing text = []
  · have hnone : ∀ cls : TokenClass, cls.recognize? text = none := by
      intro cls
      simpa using List.filter_eq_nil_iff.mp hsome cls cls.mem_byPriority
    rw [classify_eq_unknown order hnone, classify_eq_unknown byPriority hnone]
  · obtain ⟨cls, found, hfound, hfirst⟩ := exists_first hsome
    have hread {order : List TokenClass} (horder : KeepsPriority order) :
        classify order text = found :=
      classify_of_first (horder.perm.mem_iff.mpr cls.mem_byPriority) hfound
        fun other hne hother => horder.overlapping _ (hfirst other hne hother)
    rw [hread horder, hread keepsPriority_byPriority]

end TokenClass

/-- Two orders that agree on the first token of each text agree on all tokens. -/
theorem Lexer.tokensBy_congr {order other : List TokenClass}
    (hclassify : ∀ text, classify order text = classify other text) (lexer : Lexer) :
    lexer.tokensBy order = lexer.tokensBy other := by
  have hnext : lexer.nextBy? order = lexer.nextBy? other := by simp only [nextBy?, hclassify]
  cases hother : lexer.nextBy? other with
  | none => rw [tokensBy_of_none hother, tokensBy_of_none (hnext.trans hother)]
  | some found =>
    obtain ⟨token, after⟩ := found
    rw [tokensBy_of_some hother, tokensBy_of_some (hnext.trans hother),
      tokensBy_congr hclassify after]
termination_by lexer.rest.length
decreasing_by exact length_rest_of_nextBy? hother

/-- A text is recognized by no class, by one class, or by the class of the arithmetic operators and
one that has texts in common with it. So the classes may be asked in any order in which those of
increments and decrements come before that of the arithmetic operators, and those of assignments and
numbers after it: every text is read as the same tokens. -/
theorem tokenizeBy_eq_of_keepsPriority :
    (∀ text, TokenClass.recognizing text = [] ∨ (∃ cls, TokenClass.recognizing text = [cls]) ∨
      ∃ pair ∈ TokenClass.overlaps, TokenClass.recognizing text = [pair.1, pair.2]) ∧
    ∀ order, TokenClass.KeepsPriority order → ∀ source, tokenizeBy order source = tokenize source :=
  ⟨TokenClass.recognizing_cases, fun _ horder source =>
    Lexer.tokensBy_congr horder.classify_eq (.ofString source)⟩

/-- An order that asks for reserved words first and for names last, and for decimals before
integers. -/
def TokenClass.keywordsFirst : List TokenClass :=
  [keyword, logical, relational, decrement, increment, arithmetic, decimal, integer, assignment,
    concat, separator, bracket, terminator, lineComment, blockComment, char, string, identifier]

theorem tokenizeBy_keywordsFirst :
    TokenClass.KeepsPriority TokenClass.keywordsFirst ∧
      tokenizeBy TokenClass.keywordsFirst "si(@x += -1.5) ++ = sino~" =
        tokenize "si(@x += -1.5) ++ = sino~" := by
  have hkeeps : TokenClass.KeepsPriority TokenClass.keywordsFirst := ⟨by decide, by decide⟩
  exact ⟨hkeeps, tokenizeBy_eq_of_keepsPriority.2 _ hkeeps _⟩

end FrontEnd
