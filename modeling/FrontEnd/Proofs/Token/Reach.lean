import FrontEnd.Proofs.Token.Extent
import FrontEnd.Proofs.Token.Opening

/-!
How far the classes look ahead. Those that look for a closing character go on until they find it,
and no further; none of the others looks past the end of the line that a text starts with.
-/

namespace FrontEnd

section

variable {line after : List Char}

/-! ### Runs and boundaries -/

theorem takeWhile_append_of_stops {p : Char → Bool} (hstops : ∀ c ∈ after.head?, p c = false) :
    (line ++ after).takeWhile p = line.takeWhile p := by
  obtain ⟨run, rest, rfl, hrun⟩ := IsRun.exists_append_eq p line
  have hlonger : IsRun p run (rest ++ after) := by
    refine ⟨hrun.all, fun c hhead => ?_⟩
    cases rest with
    | nil => exact hstops c hhead
    | cons d rest => exact hrun.stops c hhead
  rw [List.append_assoc, hlonger.takeWhile_eq, hrun.takeWhile_eq]

namespace AtBoundary

theorem digitRun_drop (hafter : AtBoundary after) {count : Nat} (hle : count ≤ line.length) :
    digitRun ((line ++ after).drop count) = digitRun (line.drop count) := by
  rw [digitRun, digitRun, List.drop_append_of_le_length hle,
    takeWhile_append_of_stops fun c hhead => isDigit_eq_false_of_isBoundary (hafter c hhead)]

theorem signLength_append (hafter : AtBoundary after) (hne : line ≠ []) :
    signLength (line ++ after) = signLength line := by
  match line, after with
  | [], _ => exact absurd rfl hne
  | [c], [] => rfl
  | [c], d :: after =>
    have hdigit := isDigit_eq_false_of_isBoundary (hafter d rfl)
    simp [signLength, hdigit]
  | c :: d :: line, _ => rfl

theorem endsAtBoundary_append (hafter : AtBoundary after) {count : Nat}
    (hle : count ≤ line.length) :
    endsAtBoundary (line ++ after) count = endsAtBoundary line count := by
  rw [endsAtBoundary, endsAtBoundary, List.drop_append_of_le_length hle]
  cases line.drop count with
  | nil =>
    rw [List.nil_append, List.head?_nil, Option.all_none, Option.all_eq_true]
    exact hafter
  | cons c rest => rfl

theorem head?_append_eq_point_iff (hafter : AtBoundary after) {front : List Char} :
    (front ++ after).head? = some '.' ↔ front.head? = some '.' := by
  cases front with
  | nil =>
    refine ⟨fun hhead => ?_, fun hhead => by cases hhead⟩
    have hboundary : isBoundary '.' = true := hafter '.' hhead
    cases hboundary
  | cons c front => rfl

theorem isPrefixOf_append (hafter : AtBoundary after) {spelling : List Char}
    (hfree : ∀ c ∈ spelling, isBoundary c = false) :
    spelling.isPrefixOf (line ++ after) = spelling.isPrefixOf line := by
  rw [Bool.eq_iff_iff, List.isPrefixOf_iff_prefix, List.isPrefixOf_iff_prefix]
  constructor
  · rintro ⟨rest, hrest⟩
    rcases List.append_eq_append_iff.mp hrest with ⟨more, hmore, -⟩ | ⟨more, hmore, hcut⟩
    · exact ⟨more, hmore.symm⟩
    · cases more with
      | nil => exact ⟨[], by rw [hmore, List.append_nil, List.append_nil]⟩
      | cons c more =>
        -- the spelling would go beyond the boundary
        have hboundary := hafter c (by rw [hcut]; rfl)
        rw [hfree c (by simp [hmore])] at hboundary
        cases hboundary
  · exact fun hprefix => hprefix.trans (List.prefix_append line after)

end AtBoundary

/-! ### Tables of spellings -/

namespace SpellingTable.Lawful

variable {Meaning : Type} {table : SpellingTable Meaning}

theorem longest?_append_eq (hlawful : table.Lawful) (hafter : AtBoundary after) :
    table.longest? (line ++ after) = table.longest? line := by
  have hfilter : (table.filter fun entry => entry.1.toList.isPrefixOf (line ++ after)) =
      table.filter fun entry => entry.1.toList.isPrefixOf line :=
    List.filter_congr fun entry hmem => hafter.isPrefixOf_append (hlawful.unbroken entry hmem)
  rw [longest?, longest?, hfilter]

theorem standalone?_append_eq (hlawful : table.Lawful) (hafter : AtBoundary after) :
    table.standalone? (line ++ after) = table.standalone? line := by
  rw [standalone?, standalone?, hlawful.longest?_append_eq hafter]
  cases hread : table.longest? line with
  | none => rfl
  | some found =>
    obtain ⟨entry, -, rest, rfl, rfl⟩ := exists_of_longest?_eq_some hread
    have hle : entry.1.length ≤ (entry.1.toList ++ rest).length := by
      rw [List.length_append, String.length_toList]
      exact Nat.le_add_right _ _
    rw [Option.filter_some, Option.filter_some, hafter.endsAtBoundary_append hle]

end SpellingTable.Lawful

/-! ### The classes -/

namespace TokenClass

/-- The classes that look for a closing character. -/
def isDelimited : TokenClass → Bool
  | string | char | blockComment => true
  | _ => false

theorem integer?_append (hafter : AtBoundary after) (hne : line ≠ []) :
    integer? (line ++ after) = integer? line := by
  have hsign := signLength_le line
  have hdigits := digitRun_drop_le line _ hsign
  simp only [integer?, hafter.signLength_append hne, hafter.digitRun_drop hsign,
    hafter.endsAtBoundary_append hdigits]

theorem decimal?_append (hafter : AtBoundary after) (hne : line ≠ []) :
    decimal? (line ++ after) = decimal? line := by
  have hsign := signLength_le line
  have hwhole := digitRun_drop_le line _ hsign
  simp only [decimal?, hafter.signLength_append hne, hafter.digitRun_drop hsign]
  generalize signLength line + digitRun (line.drop (signLength line)) = point at hwhole ⊢
  rw [List.drop_append_of_le_length hwhole]
  by_cases hpoint : (line.drop point).head? = some '.'
  · have hinside : point + 1 ≤ line.length := by
      rw [List.head?_drop] at hpoint
      exact (List.getElem?_eq_some_iff.mp hpoint).1
    have hfraction := digitRun_drop_le line _ hinside
    rw [hafter.digitRun_drop hinside, hafter.endsAtBoundary_append hfraction]
    simp only [hafter.head?_append_eq_point_iff]
  · simp only [hafter.head?_append_eq_point_iff, hpoint, false_and, and_false, if_false]

theorem fixed?_append {spelling : List Char} {kind : TokenKind}
    (hfree : (spelling.all fun c => !isBoundary c) = true) (hafter : AtBoundary after) :
    fixed? spelling kind (line ++ after) = fixed? spelling kind line := by
  have hunbroken : ∀ c ∈ spelling, isBoundary c = false := fun c hmem => by
    simpa using List.all_eq_true.mp hfree c hmem
  rw [fixed?, fixed?, hafter.isPrefixOf_append hunbroken]

theorem fixed?_singleton_append (c : Char) {kind : TokenKind} (hne : line ≠ []) :
    fixed? [c] kind (line ++ after) = fixed? [c] kind line := by
  obtain ⟨d, text, rfl⟩ := List.exists_cons_of_ne_nil hne
  simp [fixed?, List.isPrefixOf]

theorem identifier?_append (hafter : AtBoundary after) (text : List Char) :
    identifier? ('@' :: text ++ after) = identifier? ('@' :: text) := by
  have hrun : (text ++ after).takeWhile Char.isAlphanum = text.takeWhile Char.isAlphanum :=
    takeWhile_append_of_stops fun c hhead => isAlphanum_eq_false_of_isBoundary (hafter c hhead)
  simp only [List.cons_append, identifier?, hrun]

theorem lineComment?_append (hafter : ∀ c ∈ after.head?, c = '\n') (text : List Char) :
    lineComment? ('¶' :: text ++ after) = lineComment? ('¶' :: text) := by
  have hrun : (text ++ after).takeWhile (· ≠ '\n') = text.takeWhile (· ≠ '\n') :=
    takeWhile_append_of_stops fun c hhead => by simp [hafter c hhead]
  simp only [List.cons_append, lineComment?, hrun]

theorem singleKind?_append (kindOf : Char → Option TokenKind) (hne : line ≠ []) :
    singleKind? kindOf (line ++ after) = singleKind? kindOf line := by
  rw [singleKind?, singleKind?, List.head?_append_of_ne_nil _ hne]

theorem recognize?_eq_none_of_closed {cls : TokenClass} {c : Char} (hclosed : cls.opens c = false)
    (text : List Char) : cls.recognize? (c :: text) = none := by
  cases hread : cls.recognize? (c :: text) with
  | none => rfl
  | some found =>
    rw [opens_of_recognize? hread] at hclosed
    cases hclosed

/-- Only closing characters are looked for beyond a boundary, and the end of the line. -/
theorem recognize?_append_of_boundary {cls : TokenClass} (hcls : cls.isDelimited = false)
    (hne : line ≠ []) (hboundary : AtBoundary after)
    (hline : cls = .lineComment → ∀ c ∈ after.head?, c = '\n') :
    cls.recognize? (line ++ after) = cls.recognize? line := by
  obtain ⟨c, text, rfl⟩ := List.exists_cons_of_ne_nil hne
  cases hopens : cls.opens c with
  | false =>
    rw [recognize?_eq_none_of_closed hopens, List.cons_append, recognize?_eq_none_of_closed hopens]
  | true =>
    cases cls with
    | identifier =>
      obtain rfl : c = '@' := of_decide_eq_true hopens
      exact identifier?_append hboundary text
    | lineComment =>
      obtain rfl : c = '¶' := of_decide_eq_true hopens
      exact lineComment?_append (hline rfl) text
    | increment | decrement => exact fixed?_append (by decide) hboundary
    | terminator | concat => exact fixed?_singleton_append _ hne
    | arithmetic =>
      exact congrArg (Option.map _)
        (ArithmeticOperator.lawful_spellings.longest?_append_eq hboundary)
    | assignment =>
      exact congrArg (Option.map _)
        (AssignmentOperator.lawful_spellings.standalone?_append_eq hboundary)
    | relational =>
      exact congrArg (Option.map _)
        (RelationalOperator.lawful_spellings.standalone?_append_eq hboundary)
    | logical =>
      exact congrArg (Option.map _)
        (LogicalOperator.lawful_spellings.standalone?_append_eq hboundary)
    | keyword =>
      exact congrArg (Option.map _) (Keyword.lawful_spellings.standalone?_append_eq hboundary)
    | integer => exact integer?_append hboundary hne
    | decimal => exact decimal?_append hboundary hne
    | bracket | separator => exact singleKind?_append _ hne
    | string | char | blockComment => cases hcls

/-- Only closing characters are looked for beyond the line that a text starts with. -/
theorem recognize?_append_of_line {cls : TokenClass} (hcls : cls.isDelimited = false)
    (hne : line ≠ []) (hafter : ∀ c ∈ after.head?, c = '\n') :
    cls.recognize? (line ++ after) = cls.recognize? line :=
  recognize?_append_of_boundary hcls hne (fun c hhead => by rw [hafter c hhead]; rfl)
    (fun _ => hafter)

/-- A closing character that is found is found whatever comes after it. -/
theorem delimited?_append_of_some {opening closing : Char} {kind : TokenKind} {fits : Nat → Bool}
    {found : TokenKind × Nat} (hread : delimited? opening closing kind fits line = some found) :
    delimited? opening closing kind fits (line ++ after) = some found := by
  obtain ⟨body, rest, rfl, hfree, hfits, rfl⟩ := delimited?_eq_some_iff.mp hread
  exact delimited?_eq_some_iff.mpr ⟨body, rest ++ after, by simp, hfree, hfits, rfl⟩

theorem recognize?_append_of_some {cls : TokenClass} (hcls : cls.isDelimited = true)
    {found : TokenKind × Nat} (hread : cls.recognize? line = some found) :
    cls.recognize? (line ++ after) = some found := by
  cases cls with
  | string | char | blockComment =>
    rw [recognize?] at hread ⊢
    exact delimited?_append_of_some hread
  | _ => cases hcls

end TokenClass

theorem unknownLength_append (hne : line ≠ []) (hafter : ∀ c ∈ after.head?, c = '\n') :
    unknownLength (line ++ after) = unknownLength line := by
  obtain ⟨c, text, rfl⟩ := List.exists_cons_of_ne_nil hne
  rw [List.cons_append, unknownLength, unknownLength,
    takeWhile_append_of_stops fun d hhead => by rw [hafter d hhead]; rfl]

end

/-! ### The first token -/

namespace TokenClass

/-- The characters that texts with a closing character start with. -/
def delimiters : List Char := ['~', '^', '«']

theorem mem_delimiters_of_opens {cls : TokenClass} (hcls : cls.isDelimited = true) {c : Char}
    (hopens : cls.opens c = true) : c ∈ delimiters := by
  cases cls with
  | string | char | blockComment => simp [delimiters, of_decide_eq_true hopens]
  | _ => cases hcls

theorem isDelimited_of_opens {cls : TokenClass} {c : Char} (hc : c ∈ delimiters)
    (hopens : cls.opens c = true) : cls.isDelimited = true := by
  have hall : (delimiters.all fun c => !cls.opens c || cls.isDelimited) = true := by
    cases cls <;> decide
  simpa [hopens] using List.all_eq_true.mp hall c hc

theorem earlier_closed_of_opens {cls : TokenClass} {c : Char} (hc : c ∈ delimiters)
    (hopens : cls.opens c = true) : ∀ other ∈ cls.earlier, other.opens c = false := by
  have hall : (delimiters.all fun c =>
      !cls.opens c || cls.earlier.all fun other => !other.opens c) = true := by
    cases cls <;> decide
  simpa [hopens] using List.all_eq_true.mp hall c hc

/-- The first line of a text and what comes after it, which starts with the line's end. -/
theorem exists_line_append {text : List Char} (hfirst : ∀ c ∈ text.head?, c ≠ '\n')
    (hline : '\n' ∈ text) :
    ∃ line after, text = line ++ after ∧ line ≠ [] ∧ after ≠ [] ∧ ∀ c ∈ after.head?, c = '\n' := by
  obtain ⟨line, after, rfl, hrun⟩ := IsRun.exists_append_eq (· ≠ '\n') text
  have hafter : ∀ c ∈ after.head?, c = '\n' := fun c hhead => by simpa using hrun.stops c hhead
  refine ⟨line, after, rfl, ?_, ?_, hafter⟩
  · rintro rfl
    obtain ⟨c, rest, rfl⟩ := List.exists_cons_of_ne_nil (List.ne_nil_of_mem hline)
    exact hfirst c rfl (hafter c rfl)
  · rintro rfl
    rw [List.append_nil] at hline
    simpa using hrun.all _ hline

/-- Where a text does not start with a delimiter, no class looks beyond its first line. -/
theorem classify_append_of_not_delimiter {text : List Char}
    (hfirst : ∀ c ∈ text.head?, c ≠ '\n' ∧ c ∉ delimiters) (hline : '\n' ∈ text)
    (more : List Char) : classify byPriority (text ++ more) = classify byPriority text := by
  obtain ⟨line, after, rfl, hne, hcut, hafter⟩ :=
    exists_line_append (fun c hhead => (hfirst c hhead).1) hline
  have hlonger : ∀ c ∈ (after ++ more).head?, c = '\n' := by
    rwa [List.head?_append_of_ne_nil _ hcut]
  obtain ⟨c, rest, rfl⟩ := List.exists_cons_of_ne_nil hne
  have hread : ∀ cls : TokenClass, cls.recognize? (c :: rest ++ (after ++ more)) =
      cls.recognize? (c :: rest ++ after) := by
    intro cls
    cases hcls : cls.isDelimited with
    | true =>
      have hclosed : cls.opens c = false :=
        Bool.eq_false_iff.mpr fun hopens => (hfirst c rfl).2 (mem_delimiters_of_opens hcls hopens)
      rw [List.cons_append, recognize?_eq_none_of_closed hclosed, List.cons_append,
        recognize?_eq_none_of_closed hclosed]
    | false =>
      rw [recognize?_append_of_line hcls hne hlonger, recognize?_append_of_line hcls hne hafter]
  rw [List.append_assoc, classify, classify, unknownLength_append hne hlonger,
    unknownLength_append hne hafter, funext hread]

/-- What a text starts with does not depend on what comes after one of its line ends, unless it
starts with a delimiter for which there is no closing character. -/
theorem classify_append {text : List Char} (hfirst : ∀ c ∈ text.head?, c ≠ '\n')
    (hline : '\n' ∈ text)
    (hclosed : (classify byPriority text).1 = .unknown → ∀ c ∈ text.head?, c ∉ delimiters)
    (more : List Char) : classify byPriority (text ++ more) = classify byPriority text := by
  obtain ⟨c, rest, rfl⟩ := List.exists_cons_of_ne_nil (List.ne_nil_of_mem hline)
  by_cases hc : c ∈ delimiters
  · have hkind : (classify byPriority (c :: rest)).1 ≠ .unknown :=
      fun hunknown => hclosed hunknown c rfl hc
    obtain ⟨cls, hread, -⟩ := exists_of_classify_ne_unknown hkind
    have hopens := opens_of_recognize? hread
    have hmore : cls.recognize? (c :: rest ++ more) = some (classify byPriority (c :: rest)) :=
      recognize?_append_of_some (isDelimited_of_opens hc hopens) hread
    exact classify_eq_of_closed cls (earlier_closed_of_opens hc hopens) hmore
  · refine classify_append_of_not_delimiter (fun d hhead => ⟨hfirst d hhead, ?_⟩) hline more
    obtain rfl := Option.some.inj hhead
    exact hc

end TokenClass

end FrontEnd
