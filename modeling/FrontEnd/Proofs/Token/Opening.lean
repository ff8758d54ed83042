import FrontEnd.Proofs.Token.Shape

/-!
The characters that tokens of each class start with. Few classes share one, so that the first
character of a text leaves few of the classes that are asked before the right one.
-/

namespace FrontEnd

/-- Whether a spelling of the table starts with the character. -/
def SpellingTable.opens {Meaning : Type} (table : SpellingTable Meaning) (c : Char) : Bool :=
  table.any fun entry => entry.1.toList.head? = some c

theorem SpellingTable.Lawful.opens_of_append {Meaning : Type} {table : SpellingTable Meaning}
    (hlawful : table.Lawful) {entry : String × Meaning} (hmem : entry ∈ table) {c : Char}
    {text after : List Char} (htext : c :: text = entry.1.toList ++ after) :
    table.opens c = true := by
  refine List.any_eq_true.mpr ⟨entry, hmem, ?_⟩
  have hhead : (entry.1.toList ++ after).head? = some c := by rw [← htext, List.head?_cons]
  rw [List.head?_append_of_ne_nil _ (hlawful.nonempty entry hmem)] at hhead
  exact decide_eq_true hhead

theorem SpellingTable.Lawful.opens_of_standalone? {Meaning : Type} {table : SpellingTable Meaning}
    (hlawful : table.Lawful) {c : Char} {text : List Char} {found : Meaning × Nat}
    (hfound : table.standalone? (c :: text) = some found) : table.opens c = true := by
  obtain ⟨entry, hmem, after, htext, -⟩ := exists_of_standalone?_eq_some hfound
  exact hlawful.opens_of_append hmem htext

namespace TokenClass

/-- Whether a token of the class may start with the character. -/
def opens : TokenClass → Char → Bool
  | identifier, c => c = '@'
  | increment, c => c = '+'
  | decrement, c => c = '-'
  | arithmetic, c => ArithmeticOperator.spellings.opens c
  | assignment, c => AssignmentOperator.spellings.opens c
  | relational, c => RelationalOperator.spellings.opens c
  | logical, c => LogicalOperator.spellings.opens c
  | integer, c | decimal, c => c = '+' ∨ c = '-' ∨ c.isDigit
  | keyword, c => Keyword.spellings.opens c
  | string, c => c = '~'
  | char, c => c = '^'
  | blockComment, c => c = '«'
  | lineComment, c => c = '¶'
  | terminator, c => c = '#'
  | bracket, c => isBracket c
  | separator, c => isSeparator c
  | concat, c => c = '·'

/-- A number starts with a digit if it does not start with a sign. -/
theorem isDigit_of_append {c : Char} {text digits after : List Char} (hne : digits ≠ [])
    (hall : ∀ c ∈ digits, c.isDigit = true) (htext : c :: text = digits ++ after) :
    c.isDigit = true := by
  obtain ⟨d, digits, rfl⟩ := List.exists_cons_of_ne_nil hne
  obtain ⟨rfl, -⟩ := List.cons.inj htext
  exact hall c List.mem_cons_self

theorem opens_of_recognize? {cls : TokenClass} {c : Char} {text : List Char}
    {found : TokenKind × Nat} (hread : cls.recognize? (c :: text) = some found) :
    cls.opens c = true := by
  cases cls with
  | identifier =>
    obtain ⟨run, after, htext, -⟩ := identifier?_eq_some_iff.mp hread
    exact decide_eq_true (List.cons.inj htext).1
  | increment =>
    obtain ⟨⟨after, htext⟩, -⟩ := fixed?_eq_some_iff.mp hread
    exact decide_eq_true (List.cons.inj htext).1
  | decrement =>
    obtain ⟨⟨after, htext⟩, -⟩ := fixed?_eq_some_iff.mp hread
    exact decide_eq_true (List.cons.inj htext).1
  | arithmetic =>
    obtain ⟨meant, hmeant, -⟩ := Option.map_eq_some_iff.mp hread
    obtain ⟨entry, hmem, after, htext, -⟩ := SpellingTable.exists_of_longest?_eq_some hmeant
    exact ArithmeticOperator.lawful_spellings.opens_of_append hmem htext
  | assignment =>
    obtain ⟨meant, hmeant, -⟩ := Option.map_eq_some_iff.mp hread
    exact AssignmentOperator.lawful_spellings.opens_of_standalone? hmeant
  | relational =>
    obtain ⟨meant, hmeant, -⟩ := Option.map_eq_some_iff.mp hread
    exact RelationalOperator.lawful_spellings.opens_of_standalone? hmeant
  | logical =>
    obtain ⟨meant, hmeant, -⟩ := Option.map_eq_some_iff.mp hread
    exact LogicalOperator.lawful_spellings.opens_of_standalone? hmeant
  | keyword =>
    obtain ⟨meant, hmeant, -⟩ := Option.map_eq_some_iff.mp hread
    exact Keyword.lawful_spellings.opens_of_standalone? hmeant
  | integer =>
    by_cases hsign : c = '+' ∨ c = '-'
    · simp [opens, hsign, ← or_assoc]
    · obtain ⟨digits, after, htext, hne, hall, -⟩ :=
        (integer?_eq_some_iff (signLength_eq_zero hsign text)).mp hread
      simp [opens, isDigit_of_append hne hall htext]
  | decimal =>
    by_cases hsign : c = '+' ∨ c = '-'
    · simp [opens, hsign, ← or_assoc]
    · obtain ⟨whole, fraction, after, htext, hne, hall, -⟩ :=
        (decimal?_eq_some_iff (signLength_eq_zero hsign text)).mp hread
      rw [List.append_assoc] at htext
      simp [opens, isDigit_of_append hne hall htext]
  | string =>
    rw [recognize?] at hread
    obtain ⟨body, after, htext, -⟩ := delimited?_eq_some_iff.mp hread
    exact decide_eq_true (List.cons.inj htext).1
  | char =>
    rw [recognize?] at hread
    obtain ⟨body, after, htext, -⟩ := delimited?_eq_some_iff.mp hread
    exact decide_eq_true (List.cons.inj htext).1
  | blockComment =>
    rw [recognize?] at hread
    obtain ⟨body, after, htext, -⟩ := delimited?_eq_some_iff.mp hread
    exact decide_eq_true (List.cons.inj htext).1
  | lineComment =>
    obtain ⟨run, after, htext, -⟩ := lineComment?_eq_some_iff.mp hread
    exact decide_eq_true (List.cons.inj htext).1
  | terminator =>
    obtain ⟨⟨after, htext⟩, -⟩ := fixed?_eq_some_iff.mp hread
    exact decide_eq_true (List.cons.inj htext).1
  | bracket =>
    obtain ⟨d, after, htext, hkind, -⟩ := singleKind?_eq_some_iff.mp hread
    obtain ⟨rfl, -⟩ := List.cons.inj htext
    simp [opens, isBracket, hkind]
  | separator =>
    obtain ⟨d, after, htext, hkind, -⟩ := singleKind?_eq_some_iff.mp hread
    obtain ⟨rfl, -⟩ := List.cons.inj htext
    simp [opens, isSeparator, hkind]
  | concat =>
    obtain ⟨⟨after, htext⟩, -⟩ := fixed?_eq_some_iff.mp hread
    exact decide_eq_true (List.cons.inj htext).1

theorem mem_byPriority (cls : TokenClass) : cls ∈ byPriority := by
  cases cls <;> decide

/-- The classes that are asked before this one. -/
def earlier (cls : TokenClass) : List TokenClass :=
  byPriority.takeWhile (· ≠ cls)

theorem exists_byPriority_eq (cls : TokenClass) :
    ∃ later, byPriority = cls.earlier ++ cls :: later := by
  cases cls <;> exact ⟨_, rfl⟩

/-- A text that no class recognizes is unknown, whatever the order is in which they are asked. -/
theorem classify_eq_unknown (order : List TokenClass) {text : List Char}
    (hnone : ∀ cls : TokenClass, cls.recognize? text = none) :
    classify order text = (.unknown, unknownLength text) := by
  rw [classify, List.findSome?_eq_none_iff.mpr fun cls _ => hnone cls, Option.getD_none]

/-- The class that reads a text, with all classes that are asked before it in vain. -/
theorem exists_of_findSome?_eq_some {text : List Char} {found : TokenKind × Nat}
    (hread : byPriority.findSome? (fun cls => cls.recognize? text) = some found) :
    ∃ cls : TokenClass, cls.recognize? text = some found ∧
      ∀ other ∈ cls.earlier, other.recognize? text = none := by
  obtain ⟨before, cls, later, horder, hcls, hnone⟩ := List.findSome?_eq_some_iff.mp hread
  have hnodup : byPriority.Nodup := by decide
  rw [horder] at hnodup
  have hbefore : ∀ other ∈ before, decide (other ≠ cls) = true := fun other hmem =>
    decide_eq_true (List.nodup_append.mp hnodup |>.2.2 other hmem cls List.mem_cons_self)
  have hearlier : cls.earlier = before := by
    rw [earlier, horder, List.takeWhile_append_of_pos hbefore]
    simp
  exact ⟨cls, hcls, hearlier ▸ hnone⟩

theorem exists_of_classify_ne_unknown {text : List Char}
    (hkind : (classify byPriority text).1 ≠ .unknown) :
    ∃ cls : TokenClass, cls.recognize? text = some (classify byPriority text) ∧
      ∀ other ∈ cls.earlier, other.recognize? text = none := by
  unfold classify at hkind ⊢
  cases hread : byPriority.findSome? fun cls => cls.recognize? text with
  | none => simp [hread] at hkind
  | some found => exact exists_of_findSome?_eq_some hread

/-- A class decides what a text starts with if none of those asked before it recognizes the text. Of
these, only the ones that may start with the first character of the text count. -/
theorem classify_eq (cls : TokenClass) {c : Char} {text : List Char} {found : TokenKind × Nat}
    (hearlier : ∀ other ∈ cls.earlier, other.opens c = true → other.recognize? (c :: text) = none)
    (hread : cls.recognize? (c :: text) = some found) :
    classify byPriority (c :: text) = found := by
  have hnone : cls.earlier.findSome? (fun other => other.recognize? (c :: text)) = none := by
    refine List.findSome?_eq_none_iff.mpr fun other hmem => ?_
    cases hother : other.recognize? (c :: text) with
    | none => rfl
    | some read => rw [hearlier other hmem (opens_of_recognize? hother)] at hother; cases hother
  obtain ⟨later, horder⟩ := cls.exists_byPriority_eq
  rw [classify, horder, List.findSome?_append, hnone, Option.none_or, List.findSome?_cons, hread,
    Option.getD_some]

theorem classify_eq_of_closed (cls : TokenClass) {c : Char} {text : List Char}
    {found : TokenKind × Nat} (hclosed : ∀ other ∈ cls.earlier, other.opens c = false)
    (hread : cls.recognize? (c :: text) = some found) :
    classify byPriority (c :: text) = found :=
  classify_eq cls (fun other hmem hopens => absurd hopens (by simp [hclosed other hmem])) hread

end TokenClass

end FrontEnd
