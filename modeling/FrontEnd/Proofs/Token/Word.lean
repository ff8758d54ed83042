import FrontEnd.Proofs.Token.Opening
import Mathlib.Tactic.IntervalCases

/-!
The words of the language. What a text starts with is a word, if it is anything; and a word that
ends with its line is read back as what it is.
-/

namespace FrontEnd

/-- The words of each kind. -/
inductive IsWord : TokenKind → List Char → Prop
  | identifier {run : List Char} (hall : ∀ c ∈ run, c.isAlphanum = true) (hleast : 1 ≤ run.length)
      (hmost : run.length ≤ 9) : IsWord .identifier ('@' :: run)
  | integer {digits : List Char} (hne : digits ≠ []) (hall : ∀ c ∈ digits, c.isDigit = true) :
      IsWord .integer digits
  | decimal {whole fraction : List Char} (hwhole : whole ≠ [])
      (hwholeAll : ∀ c ∈ whole, c.isDigit = true) (hfraction : fraction ≠ [])
      (hfractionAll : ∀ c ∈ fraction, c.isDigit = true) :
      IsWord .decimal (whole ++ '.' :: fraction)
  | string {body : List Char} (hfree : '~' ∉ body) : IsWord .string ('~' :: body ++ ['~'])
  | char {body : List Char} (hfree : '^' ∉ body) (hmost : body.length ≤ 2) :
      IsWord .char ('^' :: body ++ ['^'])
  | blockComment {body : List Char} (hfree : '»' ∉ body) :
      IsWord .blockComment ('«' :: body ++ ['»'])
  | lineComment {body : List Char} (hfree : '\n' ∉ body) : IsWord .lineComment ('¶' :: body)
  | keyword {entry : String × Keyword} (hmem : entry ∈ Keyword.spellings) :
      IsWord (.keyword entry.2) entry.1.toList
  | arithmetic {entry : String × ArithmeticOperator} (hmem : entry ∈ ArithmeticOperator.spellings) :
      IsWord (.arithmetic entry.2) entry.1.toList
  | relational {entry : String × RelationalOperator} (hmem : entry ∈ RelationalOperator.spellings) :
      IsWord (.relational entry.2) entry.1.toList
  | logical {entry : String × LogicalOperator} (hmem : entry ∈ LogicalOperator.spellings) :
      IsWord (.logical entry.2) entry.1.toList
  | assignment : IsWord (.assignment .set) ['=']
  | increment : IsWord .increment ['+', '+']
  | decrement : IsWord .decrement ['-', '-']
  | concat : IsWord .concat ['·']
  | terminator : IsWord .terminator ['#']
  | leftParen : IsWord .leftParen ['(']
  | rightParen : IsWord .rightParen [')']
  | leftBrace : IsWord .leftBrace ['{']
  | rightBrace : IsWord .rightBrace ['}']
  | leftBracket : IsWord .leftBracket ['[']
  | rightBracket : IsWord .rightBracket [']']
  | comma : IsWord .comma [',']
  | semicolon : IsWord .semicolon [';']
  | colon : IsWord .colon [':']

theorem IsWord.of_bracketKind? {c : Char} {kind : TokenKind} (hkind : bracketKind? c = some kind) :
    IsWord kind [c] := by
  unfold bracketKind? at hkind
  split at hkind <;> cases hkind <;> constructor

theorem IsWord.of_separatorKind? {c : Char} {kind : TokenKind}
    (hkind : separatorKind? c = some kind) : IsWord kind [c] := by
  unfold separatorKind? at hkind
  split at hkind <;> cases hkind <;> constructor

/-! ### What is read is a word -/

/-- What a class reads at the start of a text is a word. -/
def ReadsWord (text : List Char) (found : TokenKind × Nat) : Prop :=
  ∃ word after, text = word ++ after ∧ found.2 = word.length ∧ IsWord found.1 word

namespace TokenClass

/-- The classes whose tokens could start with a sign, were it not for the operator that the sign is
by itself. -/
def mayBeSigned : TokenClass → Bool
  | assignment | integer | decimal => true
  | _ => false

theorem head_ne_sign {text : List Char} (hplain : arithmetic.recognize? text = none) :
    ∀ c ∈ text.head?, ¬ (c = '+' ∨ c = '-') := by
  have hlongest : ArithmeticOperator.spellings.longest? text = none :=
    Option.map_eq_none_iff.mp hplain
  intro c hhead hsign
  obtain ⟨text, rfl⟩ := List.head?_eq_some_iff.mp hhead
  rcases hsign with rfl | rfl
  · obtain ⟨found, hfound, -⟩ := SpellingTable.exists_longest?_of_mem
      (show ("+", .add) ∈ ArithmeticOperator.spellings by decide) text
    exact Option.some_ne_none found (hfound.symm.trans hlongest)
  · obtain ⟨found, hfound, -⟩ := SpellingTable.exists_longest?_of_mem
      (show ("-", .sub) ∈ ArithmeticOperator.spellings by decide) text
    exact Option.some_ne_none found (hfound.symm.trans hlongest)

theorem assignment_cases : ∀ entry ∈ AssignmentOperator.spellings, entry = ("=", .set) ∨
    entry.1.toList.head? = some '+' ∨ entry.1.toList.head? = some '-' := by
  decide

theorem signLength_of_plain {text : List Char} (hplain : arithmetic.recognize? text = none) :
    signLength text = 0 := by
  cases text with
  | nil => rfl
  | cons c text => exact signLength_eq_zero (head_ne_sign hplain c rfl) text

theorem readsWord_of_recognize? {cls : TokenClass} {text : List Char} {found : TokenKind × Nat}
    (hplain : cls.mayBeSigned = true → arithmetic.recognize? text = none)
    (hread : cls.recognize? text = some found) : ReadsWord text found := by
  cases cls with
  | identifier =>
    obtain ⟨run, after, htext, hrun, hleast, hmost, rfl⟩ := identifier?_eq_some_iff.mp hread
    exact ⟨'@' :: run, after, htext, rfl, .identifier hrun.all hleast (Nat.le_of_lt_succ hmost)⟩
  | increment =>
    obtain ⟨⟨after, htext⟩, rfl⟩ := fixed?_eq_some_iff.mp hread
    exact ⟨_, after, htext, rfl, .increment⟩
  | decrement =>
    obtain ⟨⟨after, htext⟩, rfl⟩ := fixed?_eq_some_iff.mp hread
    exact ⟨_, after, htext, rfl, .decrement⟩
  | arithmetic =>
    obtain ⟨meant, hmeant, rfl⟩ := Option.map_eq_some_iff.mp hread
    obtain ⟨entry, hmem, after, htext, rfl⟩ := SpellingTable.exists_of_longest?_eq_some hmeant
    exact ⟨_, after, htext, (String.length_toList ..).symm, .arithmetic hmem⟩
  | assignment =>
    obtain ⟨meant, hmeant, rfl⟩ := Option.map_eq_some_iff.mp hread
    obtain ⟨entry, hmem, after, htext, -, rfl⟩ :=
      SpellingTable.exists_of_standalone?_eq_some hmeant
    have hsign := head_ne_sign (hplain rfl)
    rw [htext, List.head?_append] at hsign
    rcases assignment_cases entry hmem with rfl | hhead | hhead
    · exact ⟨_, after, htext, rfl, .assignment⟩
    · exact absurd (.inl rfl) (hsign '+' (by rw [hhead]; rfl))
    · exact absurd (.inr rfl) (hsign '-' (by rw [hhead]; rfl))
  | relational =>
    obtain ⟨meant, hmeant, rfl⟩ := Option.map_eq_some_iff.mp hread
    obtain ⟨entry, hmem, after, htext, -, rfl⟩ :=
      SpellingTable.exists_of_standalone?_eq_some hmeant
    exact ⟨_, after, htext, (String.length_toList ..).symm, .relational hmem⟩
  | logical =>
    obtain ⟨meant, hmeant, rfl⟩ := Option.map_eq_some_iff.mp hread
    obtain ⟨entry, hmem, after, htext, -, rfl⟩ :=
      SpellingTable.exists_of_standalone?_eq_some hmeant
    exact ⟨_, after, htext, (String.length_toList ..).symm, .logical hmem⟩
  | keyword =>
    obtain ⟨meant, hmeant, rfl⟩ := Option.map_eq_some_iff.mp hread
    obtain ⟨entry, hmem, after, htext, -, rfl⟩ :=
      SpellingTable.exists_of_standalone?_eq_some hmeant
    exact ⟨_, after, htext, (String.length_toList ..).symm, .keyword hmem⟩
  | integer =>
    obtain ⟨digits, after, htext, hne, hall, -, rfl⟩ :=
      (integer?_eq_some_iff (signLength_of_plain (hplain rfl))).mp hread
    exact ⟨digits, after, htext, rfl, .integer hne hall⟩
  | decimal =>
    obtain ⟨whole, fraction, after, htext, hwhole, hwholeAll, hfraction, hfractionAll, -, rfl⟩ :=
      (decimal?_eq_some_iff (signLength_of_plain (hplain rfl))).mp hread
    exact ⟨_, after, htext, rfl, .decimal hwhole hwholeAll hfraction hfractionAll⟩
  | string =>
    rw [recognize?] at hread
    obtain ⟨body, after, rfl, hfree, -, rfl⟩ := delimited?_eq_some_iff.mp hread
    exact ⟨'~' :: body ++ ['~'], after, by simp, by simp, .string hfree⟩
  | char =>
    rw [recognize?] at hread
    obtain ⟨body, after, rfl, hfree, hfits, rfl⟩ := delimited?_eq_some_iff.mp hread
    exact ⟨'^' :: body ++ ['^'], after, by simp, by simp, .char hfree (of_decide_eq_true hfits)⟩
  | blockComment =>
    rw [recognize?] at hread
    obtain ⟨body, after, rfl, hfree, -, rfl⟩ := delimited?_eq_some_iff.mp hread
    exact ⟨'«' :: body ++ ['»'], after, by simp, by simp, .blockComment hfree⟩
  | lineComment =>
    obtain ⟨run, after, htext, hrun, rfl⟩ := lineComment?_eq_some_iff.mp hread
    have hfree : '\n' ∉ run := fun hmem => by simpa using hrun.all _ hmem
    exact ⟨'¶' :: run, after, htext, rfl, .lineComment hfree⟩
  | terminator =>
    obtain ⟨⟨after, htext⟩, rfl⟩ := fixed?_eq_some_iff.mp hread
    exact ⟨_, after, htext, rfl, .terminator⟩
  | bracket =>
    obtain ⟨c, after, htext, hkind, hlength⟩ := singleKind?_eq_some_iff.mp hread
    exact ⟨[c], after, htext, hlength, .of_bracketKind? hkind⟩
  | separator =>
    obtain ⟨c, after, htext, hkind, hlength⟩ := singleKind?_eq_some_iff.mp hread
    exact ⟨[c], after, htext, hlength, .of_separatorKind? hkind⟩
  | concat =>
    obtain ⟨⟨after, htext⟩, rfl⟩ := fixed?_eq_some_iff.mp hread
    exact ⟨_, after, htext, rfl, .concat⟩

end TokenClass

/-- What the classes read is a word. Those that could read a sign are asked after the operator that
the sign is, so that they see none. -/
theorem readsWord_of_findSome? {text : List Char} {found : TokenKind × Nat}
    (hread : TokenClass.byPriority.findSome? (fun cls => cls.recognize? text) = some found) :
    ReadsWord text found := by
  obtain ⟨cls, hcls, hearlier⟩ := TokenClass.exists_of_findSome?_eq_some hread
  refine TokenClass.readsWord_of_recognize? (fun hsigned => hearlier _ ?_) hcls
  revert hsigned
  cases cls <;> decide

/-- Whatever is not unknown is a word. -/
theorem readsWord_classify {text : List Char}
    (hkind : (classify TokenClass.byPriority text).1 ≠ .unknown) :
    ReadsWord text (classify TokenClass.byPriority text) := by
  unfold classify at hkind ⊢
  cases hread : TokenClass.byPriority.findSome? fun cls => cls.recognize? text with
  | none => simp [hread] at hkind
  | some found => exact readsWord_of_findSome? hread

/-! ### A word is read -/

namespace TokenClass

theorem mem_digits_of_isDigit {c : Char} (hdigit : c.isDigit = true) :
    c ∈ ['0', '1', '2', '3', '4', '5', '6', '7', '8', '9'] := by
  obtain ⟨hleast, hmost⟩ := Char.isDigit_iff_toNat.mp hdigit
  have hleast : 48 ≤ c.toNat := hleast
  have hmost : c.toNat ≤ 57 := hmost
  rw [← Char.ofNat_toNat c]
  interval_cases c.toNat <;> decide

theorem earlier_integer_closed {c : Char} (hdigit : c.isDigit = true) :
    ∀ other ∈ integer.earlier, other.opens c = false := by
  have hall : ['0', '1', '2', '3', '4', '5', '6', '7', '8', '9'].all
      (fun c => integer.earlier.all fun other => !other.opens c) = true := by decide
  simpa using List.all_eq_true.mp hall c (mem_digits_of_isDigit hdigit)

theorem earlier_decimal_opens {c : Char} (hdigit : c.isDigit = true) :
    ∀ other ∈ decimal.earlier, other.opens c = true → other = integer := by
  have hall : ['0', '1', '2', '3', '4', '5', '6', '7', '8', '9'].all
      (fun c => decimal.earlier.all fun other => other.opens c → other = integer) = true := by
    decide
  intro other hmem
  have hearlier := List.all_eq_true.mp hall c (mem_digits_of_isDigit hdigit)
  exact of_decide_eq_true (List.all_eq_true.mp hearlier other hmem)

theorem earlier_bracket_closed {c : Char} {kind : TokenKind} (hkind : bracketKind? c = some kind) :
    ∀ other ∈ bracket.earlier, other.opens c = false := by
  unfold bracketKind? at hkind
  split at hkind <;> first | decide | cases hkind

/-- The digits before a point are no integer. -/
theorem integer?_decimal {whole : List Char} (hwhole : whole ≠ [])
    (hall : ∀ c ∈ whole, c.isDigit = true) (rest : List Char) :
    integer? (whole ++ '.' :: rest) = none := by
  obtain ⟨c, digits, rfl⟩ := List.exists_cons_of_ne_nil hwhole
  have hsign := signLength_eq_zero (not_sign_of_isDigit (hall c List.mem_cons_self))
    (digits ++ '.' :: rest)
  cases hread : integer? (c :: digits ++ '.' :: rest) with
  | none => rfl
  | some found =>
    obtain ⟨run, after, htext, -, hrunAll, hafter, -⟩ := (integer?_eq_some_iff hsign).mp hread
    have hwholeRun : IsRun Char.isDigit (c :: digits) ('.' :: rest) := ⟨hall, by simp⟩
    have hrun := hafter.isRun_of_forall (fun _ => isDigit_eq_false_of_isBoundary) hrunAll
    obtain ⟨-, rfl⟩ := hwholeRun.unique hrun htext
    have hpoint : isBoundary '.' = true := hafter '.' rfl
    cases hpoint

end TokenClass

/-! ### Words with fixed spellings -/

theorem SpellingTable.Lawful.classify_append {Meaning : Type} {table : SpellingTable Meaning}
    (hlawful : table.Lawful) (cls : TokenClass) {entry : String × Meaning} (hmem : entry ∈ table)
    {after : List Char} {found : TokenKind × Nat}
    (hearlier : ∀ other ∈ cls.earlier, entry.1.toList.head?.any other.opens = true →
      other.recognize? (entry.1.toList ++ after) = none)
    (hread : cls.recognize? (entry.1.toList ++ after) = some found) :
    classify TokenClass.byPriority (entry.1.toList ++ after) = found := by
  obtain ⟨c, rest, hcons⟩ := List.exists_cons_of_ne_nil (hlawful.nonempty entry hmem)
  rw [hcons, List.cons_append] at hearlier hread ⊢
  exact TokenClass.classify_eq cls hearlier hread

section Spelled

variable {after : List Char}

theorem classify_keyword {entry : String × Keyword} (hmem : entry ∈ Keyword.spellings)
    (hafter : AtBoundary after) :
    classify TokenClass.byPriority (entry.1.toList ++ after) =
      (.keyword entry.2, entry.1.toList.length) := by
  have hclosed : ∀ entry ∈ Keyword.spellings, ∀ other ∈ TokenClass.keyword.earlier,
      entry.1.toList.head?.any other.opens = false := by decide +kernel
  have hread := Keyword.lawful_spellings.standalone?_append hmem hafter
  rw [← String.length_toList] at hread
  refine Keyword.lawful_spellings.classify_append .keyword hmem (fun other hother hopens => ?_)
    (congrArg (Option.map _) hread)
  rw [hclosed entry hmem other hother] at hopens
  cases hopens

theorem fixed?_pair_eq_none {c d : Char} {kind : TokenKind} (hafter : ∀ e ∈ after.head?, e ≠ c) :
    fixed? [c, c] kind ([d] ++ after) = none := by
  cases hread : fixed? [c, c] kind ([d] ++ after) with
  | none => rfl
  | some found =>
    obtain ⟨⟨rest, htext⟩, -⟩ := fixed?_eq_some_iff.mp hread
    obtain ⟨-, rfl⟩ := List.cons.inj htext
    exact absurd rfl (hafter c rfl)

/-- An arithmetic operator is one character, so that it is no increment or decrement unless another
sign comes next. -/
theorem classify_arithmetic {entry : String × ArithmeticOperator}
    (hmem : entry ∈ ArithmeticOperator.spellings)
    (hafter : ∀ c ∈ after.head?, ¬ (c = '+' ∨ c = '-')) :
    classify TokenClass.byPriority (entry.1.toList ++ after) =
      (.arithmetic entry.2, entry.1.toList.length) := by
  have hopening : ∀ entry ∈ ArithmeticOperator.spellings, ∀ other ∈ TokenClass.arithmetic.earlier,
      entry.1.toList.head?.any other.opens = true →
        other = .increment ∨ other = .decrement := by decide
  have hsingle : ∀ entry ∈ ArithmeticOperator.spellings, entry.1.toList.length = 1 := by decide
  have hread : ArithmeticOperator.spellings.longest? (entry.1.toList ++ after) =
      some (entry.2, entry.1.toList.length) := by
    obtain ⟨found, hfound, -⟩ := SpellingTable.exists_longest?_of_mem hmem after
    obtain ⟨other, hother, rest, htext, rfl⟩ := SpellingTable.exists_of_longest?_eq_some hfound
    have hlength := (hsingle entry hmem).trans (hsingle other hother).symm
    obtain ⟨hsame, -⟩ := List.append_inj htext hlength
    obtain rfl := ArithmeticOperator.lawful_spellings.eq_of_fst_eq hmem hother
      (String.toList_injective hsame)
    rw [hfound, String.length_toList]
  refine ArithmeticOperator.lawful_spellings.classify_append .arithmetic hmem
    (fun other hother hopens => ?_) (congrArg (Option.map _) hread)
  obtain ⟨d, hd⟩ := List.length_eq_one_iff.mp (hsingle entry hmem)
  rw [hd]
  rcases hopening entry hmem other hother hopens with rfl | rfl
  · exact fixed?_pair_eq_none fun c hhead hplus => hafter c hhead (.inl hplus)
  · exact fixed?_pair_eq_none fun c hhead hminus => hafter c hhead (.inr hminus)

/-- A spelling that stands alone is none of the one table that is asked earlier for words with the
same first character. -/
theorem classify_standalone {Meaning Other : Type} {table : SpellingTable Meaning}
    {others : SpellingTable Other} (hlawful : table.Lawful) (hothers : others.Lawful)
    (cls other : TokenClass) {kindOf : Meaning → TokenKind} {otherKindOf : Other → TokenKind}
    (hcls : ∀ text, cls.recognize? text =
      (table.standalone? text).map fun found => (kindOf found.1, found.2))
    (hother : ∀ text, other.recognize? text =
      (others.standalone? text).map fun found => (otherKindOf found.1, found.2))
    (hopening : ∀ entry ∈ table, ∀ asked ∈ cls.earlier,
      entry.1.toList.head?.any asked.opens = true → asked = other)
    (hnew : ∀ entry ∈ table, entry.1 ∉ others.map Prod.fst) {entry : String × Meaning}
    (hmem : entry ∈ table) (hafter : AtBoundary after) :
    classify TokenClass.byPriority (entry.1.toList ++ after) =
      (kindOf entry.2, entry.1.toList.length) := by
  refine hlawful.classify_append cls hmem (fun asked hasked hopens => ?_) ?_
  · rw [hopening entry hmem asked hasked hopens, hother,
      hlawful.standalone?_append_eq_none hothers hmem (hnew entry hmem) hafter, Option.map_none]
  · rw [hcls, hlawful.standalone?_append hmem hafter, Option.map_some, String.length_toList]

theorem classify_relational {entry : String × RelationalOperator}
    (hmem : entry ∈ RelationalOperator.spellings) (hafter : AtBoundary after) :
    classify TokenClass.byPriority (entry.1.toList ++ after) =
      (.relational entry.2, entry.1.toList.length) :=
  classify_standalone RelationalOperator.lawful_spellings AssignmentOperator.lawful_spellings
    .relational .assignment (fun _ => rfl) (fun _ => rfl) (by decide)
    (by decide) hmem hafter

theorem classify_logical {entry : String × LogicalOperator}
    (hmem : entry ∈ LogicalOperator.spellings) (hafter : AtBoundary after) :
    classify TokenClass.byPriority (entry.1.toList ++ after) =
      (.logical entry.2, entry.1.toList.length) :=
  classify_standalone LogicalOperator.lawful_spellings RelationalOperator.lawful_spellings
    .logical .relational (fun _ => rfl) (fun _ => rfl) (by decide) (by decide)
    hmem hafter

end Spelled

open TokenClass in
/-- A word that ends at a boundary is read as what it is. A comment to the end of its line has to
end there. -/
theorem IsWord.classify_append {kind : TokenKind} {word after : List Char}
    (hword : IsWord kind word) (hboundary : AtBoundary after)
    (hline : kind = .lineComment → ∀ c ∈ after.head?, c = '\n') :
    classify byPriority (word ++ after) = (kind, word.length) := by
  cases hword with
  | @identifier run hall hleast hmost =>
    have hrun := hboundary.isRun_of_forall (fun _ => isAlphanum_eq_false_of_isBoundary) hall
    refine classify_eq_of_closed .identifier (by decide) ?_
    exact identifier?_eq_some_iff.mpr
      ⟨run, after, rfl, hrun, hleast, Nat.lt_succ_of_le hmost, rfl⟩
  | integer hne hall =>
    obtain ⟨c, digits, rfl⟩ := List.exists_cons_of_ne_nil hne
    have hdigit := hall c List.mem_cons_self
    have hsign := signLength_eq_zero (not_sign_of_isDigit hdigit) (digits ++ after)
    refine classify_eq_of_closed .integer (earlier_integer_closed hdigit) ?_
    exact (integer?_eq_some_iff hsign).mpr ⟨c :: digits, after, rfl, hne, hall, hboundary, rfl⟩
  | @decimal whole fraction hwhole hwholeAll hfraction hfractionAll =>
    have hnone : TokenClass.integer.recognize? (whole ++ '.' :: (fraction ++ after)) = none :=
      integer?_decimal hwhole hwholeAll _
    obtain ⟨c, digits, rfl⟩ := List.exists_cons_of_ne_nil hwhole
    have hdigit := hwholeAll c List.mem_cons_self
    have hsign := signLength_eq_zero (not_sign_of_isDigit hdigit)
      (digits ++ '.' :: (fraction ++ after))
    have htext : c :: digits ++ '.' :: fraction ++ after =
        c :: (digits ++ '.' :: (fraction ++ after)) := by simp
    rw [htext]
    refine classify_eq .decimal (fun other hmem hopens => ?_) ?_
    · rw [earlier_decimal_opens hdigit other hmem hopens]
      exact hnone
    · exact (decimal?_eq_some_iff hsign).mpr ⟨c :: digits, fraction, after, htext.symm, hwhole,
        hwholeAll, hfraction, hfractionAll, hboundary, rfl⟩
  | string hfree =>
    refine classify_eq_of_closed .string (by decide) ?_
    rw [recognize?]
    exact delimited?_append hfree rfl after
  | char hfree hmost =>
    refine classify_eq_of_closed .char (by decide) ?_
    rw [recognize?]
    exact delimited?_append hfree (decide_eq_true hmost) after
  | blockComment hfree =>
    refine classify_eq_of_closed .blockComment (by decide) ?_
    rw [recognize?]
    exact delimited?_append hfree rfl after
  | @lineComment body hfree =>
    have hrun : IsRun (· ≠ '\n') body after :=
      ⟨fun c hmem => by simpa using ne_of_mem_of_not_mem hmem hfree,
        fun c hhead => by simpa using hline rfl c hhead⟩
    refine classify_eq_of_closed .lineComment (by decide) ?_
    exact lineComment?_eq_some_iff.mpr ⟨body, after, rfl, hrun, rfl⟩
  | keyword hmem => exact classify_keyword hmem hboundary
  | arithmetic hmem =>
    refine classify_arithmetic hmem fun c hhead hsign => ?_
    have hends := hboundary c hhead
    rcases hsign with rfl | rfl <;> cases hends
  | relational hmem => exact classify_relational hmem hboundary
  | logical hmem => exact classify_logical hmem hboundary
  | assignment =>
    have hread := AssignmentOperator.lawful_spellings.standalone?_append
      (show ("=", .set) ∈ AssignmentOperator.spellings by decide) hboundary
    exact classify_eq_of_closed .assignment (by decide) (congrArg (Option.map _) hread)
  | increment => exact classify_eq_of_closed .increment (by decide) rfl
  | decrement => exact classify_eq_of_closed .decrement (by decide) rfl
  | concat => exact classify_eq_of_closed .concat (by decide) rfl
  | terminator => exact classify_eq_of_closed .terminator (by decide) rfl
  | leftParen | rightParen | leftBrace | rightBrace | leftBracket | rightBracket =>
    exact classify_eq_of_closed .bracket (by decide) rfl
  | comma | semicolon | colon => exact classify_eq_of_closed .separator (by decide) rfl

end FrontEnd
