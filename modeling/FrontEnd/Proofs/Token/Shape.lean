import FrontEnd.Token.Class
import Mathlib.Data.List.Nodup
import Mathlib.Data.List.TakeWhile

/-!
What the shapes of token say of the text they are read from. Each of them cuts the text in two, the
part that the token takes and what comes after it.
-/

namespace FrontEnd

/-! ### Runs -/

/-- The run has characters of one sort only, and what follows it does not start with another of
them. -/
structure IsRun (p : Char → Bool) (run after : List Char) : Prop where
  all : ∀ c ∈ run, p c = true
  stops : ∀ c ∈ after.head?, p c = false

namespace IsRun

theorem takeWhile_eq {p : Char → Bool} {run after : List Char} (hrun : IsRun p run after) :
    (run ++ after).takeWhile p = run := by
  rw [List.takeWhile_append_of_pos hrun.all]
  cases after with
  | nil => simp
  | cons c after => simp [hrun.stops c rfl]

theorem exists_append_eq (p : Char → Bool) (text : List Char) :
    ∃ run after, text = run ++ after ∧ IsRun p run after := by
  refine ⟨text.takeWhile p, text.dropWhile p, List.takeWhile_append_dropWhile.symm, ?_, ?_⟩
  · exact fun c hmem => List.mem_takeWhile_imp hmem
  · intro c hhead
    have hstop := List.head?_dropWhile_not p text
    rw [Option.mem_def.mp hhead] at hstop
    simpa using hstop

theorem unique {p : Char → Bool} {run run' after after' : List Char} (hrun : IsRun p run after)
    (hrun' : IsRun p run' after') (htext : run ++ after = run' ++ after') :
    run = run' ∧ after = after' := by
  have hsame : run = run' := by rw [← hrun.takeWhile_eq, htext, hrun'.takeWhile_eq]
  exact ⟨hsame, List.append_cancel_left (hsame ▸ htext)⟩

end IsRun

theorem digitRun_append {digits after : List Char} (hrun : IsRun Char.isDigit digits after) :
    digitRun (digits ++ after) = digits.length := by
  rw [digitRun, hrun.takeWhile_eq]

/-! ### Boundaries -/

/-- A boundary comes next, or nothing at all. -/
def AtBoundary (text : List Char) : Prop :=
  ∀ c ∈ text.head?, isBoundary c = true

theorem endsAtBoundary_append (front after : List Char) :
    endsAtBoundary (front ++ after) front.length = true ↔ AtBoundary after := by
  rw [endsAtBoundary, List.drop_left]
  cases after <;> simp [AtBoundary]

theorem isBoundary_iff_mem (c : Char) :
    isBoundary c = true ↔
      c ∈ [' ', '\t', '\r', '\n', '(', ')', '{', '}', '[', ']', ',', ';', ':', '#'] := by
  unfold isBoundary isBracket isSeparator isBlank bracketKind? separatorKind?
  split <;> split <;> simp_all [or_assoc]

theorem AtBoundary.isRun_of_forall {p : Char → Bool} {run after : List Char}
    (hafter : AtBoundary after) (hp : ∀ c, isBoundary c = true → p c = false)
    (hall : ∀ c ∈ run, p c = true) : IsRun p run after :=
  ⟨hall, fun c hhead => hp c (hafter c hhead)⟩

theorem isAlphanum_eq_false_of_isBoundary {c : Char} (hboundary : isBoundary c = true) :
    c.isAlphanum = false := by
  have hall : [' ', '\t', '\r', '\n', '(', ')', '{', '}', '[', ']', ',', ';', ':', '#'].all
      (fun c => !c.isAlphanum) = true := by decide
  simpa using List.all_eq_true.mp hall c ((isBoundary_iff_mem c).mp hboundary)

theorem isDigit_eq_false_of_isBoundary {c : Char} (hboundary : isBoundary c = true) :
    c.isDigit = false :=
  (Bool.or_eq_false_iff.mp (isAlphanum_eq_false_of_isBoundary hboundary)).2

/-! ### Tables of spellings -/

namespace SpellingTable

variable {Meaning : Type} {table : SpellingTable Meaning}

/-- No two entries of the table have one spelling, and a spelling is not empty and has no boundary
in it. -/
structure Lawful (table : SpellingTable Meaning) : Prop where
  nodup : (table.map Prod.fst).Nodup
  nonempty : ∀ entry ∈ table, entry.1.toList ≠ []
  unbroken : ∀ entry ∈ table, ∀ c ∈ entry.1.toList, isBoundary c = false

theorem Lawful.of_all (hnodup : (table.map Prod.fst).Nodup)
    (hnonempty : ∀ entry ∈ table, entry.1.toList ≠ [])
    (hunbroken : ∀ entry ∈ table, (entry.1.toList.all fun c => !isBoundary c) = true) :
    table.Lawful where
  nodup := hnodup
  nonempty := hnonempty
  unbroken entry hmem c hc := by
    simpa using List.all_eq_true.mp (hunbroken entry hmem) c hc

theorem exists_of_longest?_eq_some {text : List Char} {found : Meaning × Nat}
    (hfound : table.longest? text = some found) :
    ∃ entry ∈ table, ∃ after, text = entry.1.toList ++ after ∧
      found = (entry.2, entry.1.length) := by
  obtain ⟨entry, hentry, rfl⟩ := List.mem_map.mp (List.maxOn?_mem hfound)
  obtain ⟨hmem, hstarts⟩ := List.mem_filter.mp hentry
  obtain ⟨after, hafter⟩ := List.isPrefixOf_iff_prefix.mp hstarts
  exact ⟨entry, hmem, after, hafter.symm, rfl⟩

/-- A spelling that the text starts with is no longer than the one that is found. -/
theorem exists_longest?_of_mem {entry : String × Meaning} (hmem : entry ∈ table)
    (after : List Char) :
    ∃ found, table.longest? (entry.1.toList ++ after) = some found ∧
      entry.1.length ≤ found.2 := by
  have hstarts : entry.1.toList.isPrefixOf (entry.1.toList ++ after) = true :=
    List.isPrefixOf_iff_prefix.mpr (List.prefix_append _ _)
  have hentry : entry ∈ table.filter
      fun other => other.1.toList.isPrefixOf (entry.1.toList ++ after) :=
    List.mem_filter.mpr ⟨hmem, hstarts⟩
  have hread := List.mem_map_of_mem (f := fun entry => (entry.2, entry.1.length)) hentry
  exact ⟨_, (Option.some_get _).symm, List.le_apply_get_maxOn?_of_mem (f := Prod.snd) hread⟩

theorem Lawful.eq_of_fst_eq (hlawful : table.Lawful) {entry other : String × Meaning}
    (hentry : entry ∈ table) (hother : other ∈ table) (heq : entry.1 = other.1) : entry = other :=
  List.inj_on_of_nodup_map hlawful.nodup hentry hother heq

/-- A spelling that ends at a boundary is the longest one, as no spelling goes beyond it. -/
theorem Lawful.longest?_append (hlawful : table.Lawful) {entry : String × Meaning}
    (hmem : entry ∈ table) {after : List Char} (hafter : AtBoundary after) :
    table.longest? (entry.1.toList ++ after) = some (entry.2, entry.1.length) := by
  obtain ⟨found, hfound, hle⟩ := exists_longest?_of_mem hmem after
  obtain ⟨other, hother, rest, htext, rfl⟩ := exists_of_longest?_eq_some hfound
  have hsame : other.1.toList = entry.1.toList := by
    rcases List.append_eq_append_iff.mp htext with ⟨more, hmore, hrest⟩ | ⟨more, hmore, -⟩
    · cases more with
      | nil => rw [hmore, List.append_nil]
      | cons c more =>
        -- the longer spelling would take the boundary
        have hboundary := hafter c (by rw [hrest]; rfl)
        have hfree := hlawful.unbroken other hother c (by simp [hmore])
        rw [hboundary] at hfree
        cases hfree
    · have hlength := congrArg List.length hmore
      simp only [List.length_append, String.length_toList] at hlength
      have hnil : more = [] := List.length_eq_zero_iff.mp (by omega)
      rw [hmore, hnil, List.append_nil]
  obtain rfl := hlawful.eq_of_fst_eq hother hmem (String.toList_injective hsame)
  exact hfound

theorem exists_of_standalone?_eq_some {text : List Char} {found : Meaning × Nat}
    (hfound : table.standalone? text = some found) :
    ∃ entry ∈ table, ∃ after, text = entry.1.toList ++ after ∧ AtBoundary after ∧
      found = (entry.2, entry.1.length) := by
  obtain ⟨hlongest, hends⟩ := Option.filter_eq_some_iff.mp hfound
  obtain ⟨entry, hmem, after, rfl, rfl⟩ := exists_of_longest?_eq_some hlongest
  rw [← String.length_toList, endsAtBoundary_append] at hends
  exact ⟨entry, hmem, after, rfl, hends, rfl⟩

theorem Lawful.standalone?_append (hlawful : table.Lawful) {entry : String × Meaning}
    (hmem : entry ∈ table) {after : List Char} (hafter : AtBoundary after) :
    table.standalone? (entry.1.toList ++ after) = some (entry.2, entry.1.length) := by
  have hends : endsAtBoundary (entry.1.toList ++ after) entry.1.length = true := by
    rw [← String.length_toList, endsAtBoundary_append]
    exact hafter
  rw [standalone?, hlawful.longest?_append hmem hafter, Option.filter_some, if_pos hends]

theorem Lawful.isRun (hlawful : table.Lawful) {entry : String × Meaning} (hmem : entry ∈ table)
    {after : List Char} (hafter : AtBoundary after) :
    IsRun (fun c => !isBoundary c) entry.1.toList after :=
  hafter.isRun_of_forall (fun c hboundary => by rw [hboundary, Bool.not_true])
    (fun c hc => by rw [hlawful.unbroken entry hmem c hc, Bool.not_false])

/-- A spelling of one table is none of another table that does not have it. -/
theorem Lawful.standalone?_append_eq_none {Other : Type} {others : SpellingTable Other}
    (hlawful : table.Lawful) (hothers : others.Lawful) {entry : String × Meaning}
    (hmem : entry ∈ table) (hnew : entry.1 ∉ others.map Prod.fst) {after : List Char}
    (hafter : AtBoundary after) : others.standalone? (entry.1.toList ++ after) = none := by
  cases hread : others.standalone? (entry.1.toList ++ after) with
  | none => rfl
  | some found =>
    obtain ⟨other, hother, rest, htext, hrest, -⟩ := exists_of_standalone?_eq_some hread
    have hsame := ((hlawful.isRun hmem hafter).unique (hothers.isRun hother hrest) htext).1
    refine absurd (List.mem_map_of_mem (f := Prod.fst) hother) ?_
    rwa [← String.toList_injective hsame]

end SpellingTable

theorem Keyword.lawful_spellings : Keyword.spellings.Lawful :=
  .of_all (by decide) (by decide) (by decide +kernel)

theorem ArithmeticOperator.lawful_spellings : ArithmeticOperator.spellings.Lawful :=
  .of_all (by decide) (by decide) (by decide)

theorem AssignmentOperator.lawful_spellings : AssignmentOperator.spellings.Lawful :=
  .of_all (by decide) (by decide) (by decide)

theorem RelationalOperator.lawful_spellings : RelationalOperator.spellings.Lawful :=
  .of_all (by decide) (by decide) (by decide)

theorem LogicalOperator.lawful_spellings : LogicalOperator.spellings.Lawful :=
  .of_all (by decide) (by decide) (by decide)

/-! ### Delimited texts -/

theorem delimitedBody?_eq_some_iff {opening closing : Char} {text body : List Char} :
    delimitedBody? opening closing text = some body ↔
      closing ∉ body ∧ ∃ after, text = opening :: body ++ closing :: after := by
  constructor
  · intro hbody
    cases text with
    | nil => cases hbody
    | cons c text =>
      obtain ⟨⟨rfl, hcloses⟩, hread⟩ := Option.ite_none_right_eq_some.mp hbody
      obtain rfl := Option.some.inj hread
      obtain ⟨run, after, rfl, hrun⟩ := IsRun.exists_append_eq (· ≠ closing) text
      rw [hrun.takeWhile_eq]
      have hfree : closing ∉ run := fun hmem => by simpa using hrun.all closing hmem
      refine ⟨hfree, ?_⟩
      cases after with
      | nil => simp [hfree] at hcloses
      | cons d after =>
        have hstop : d = closing := by simpa using hrun.stops d rfl
        exact ⟨after, by rw [hstop, List.cons_append]⟩
  · rintro ⟨hfree, after, rfl⟩
    have hrun : IsRun (· ≠ closing) body (closing :: after) :=
      ⟨fun c hmem => by simpa using ne_of_mem_of_not_mem hmem hfree, by simp⟩
    have hread := hrun.takeWhile_eq
    simp only [List.cons_append, delimitedBody?, List.mem_append, List.mem_cons, true_or, or_true,
      and_self, if_true, hread]

/-! ### The classes -/

theorem fixed?_eq_some_iff {spelling text : List Char} {kind : TokenKind}
    {found : TokenKind × Nat} :
    fixed? spelling kind text = some found ↔
      (∃ after, text = spelling ++ after) ∧ found = (kind, spelling.length) := by
  rw [fixed?, Option.ite_none_right_eq_some, List.isPrefixOf_iff_prefix, Option.some_inj,
    List.IsPrefix]
  simp only [eq_comm]

theorem singleKind?_eq_some_iff {kindOf : Char → Option TokenKind} {text : List Char}
    {found : TokenKind × Nat} :
    singleKind? kindOf text = some found ↔
      ∃ c after, text = c :: after ∧ kindOf c = some found.1 ∧ found.2 = 1 := by
  cases text with
  | nil => simp [singleKind?]
  | cons c text => simp [singleKind?, Option.map_eq_some_iff, Prod.ext_iff, eq_comm (a := 1)]

namespace TokenClass

theorem delimited?_eq_some_iff {opening closing : Char} {kind : TokenKind} {fits : Nat → Bool}
    {text : List Char} {found : TokenKind × Nat} :
    delimited? opening closing kind fits text = some found ↔
      ∃ body after, text = opening :: body ++ closing :: after ∧ closing ∉ body ∧
        fits body.length = true ∧ found = (kind, body.length + 2) := by
  rw [delimited?, Option.map_eq_some_iff]
  simp only [Option.filter_eq_some_iff, delimitedBody?_eq_some_iff]
  constructor
  · rintro ⟨body, ⟨⟨hfree, after, rfl⟩, hfits⟩, rfl⟩
    exact ⟨body, after, rfl, hfree, hfits, rfl⟩
  · rintro ⟨body, after, rfl, hfree, hfits, rfl⟩
    exact ⟨body, ⟨⟨hfree, after, rfl⟩, hfits⟩, rfl⟩

theorem delimited?_append {opening closing : Char} {kind : TokenKind} {fits : Nat → Bool}
    {body : List Char} (hfree : closing ∉ body) (hfits : fits body.length = true)
    (after : List Char) :
    delimited? opening closing kind fits (opening :: body ++ [closing] ++ after) =
      some (kind, (opening :: body ++ [closing]).length) :=
  delimited?_eq_some_iff.mpr ⟨body, after, by simp, hfree, hfits, by simp⟩

theorem identifier?_eq_some_iff {text : List Char} {found : TokenKind × Nat} :
    identifier? text = some found ↔
      ∃ run after, text = '@' :: run ++ after ∧ IsRun Char.isAlphanum run after ∧
        1 ≤ run.length ∧ run.length < maxIdentifierLength ∧
        found = (.identifier, run.length + 1) := by
  constructor
  · intro hfound
    unfold identifier? at hfound
    split at hfound
    · next text =>
      obtain ⟨run, after, rfl, hrun⟩ := IsRun.exists_append_eq Char.isAlphanum text
      obtain ⟨⟨hleast, hmost⟩, hread⟩ := Option.ite_none_right_eq_some.mp hfound
      rw [hrun.takeWhile_eq] at hleast hmost hread
      exact ⟨run, after, rfl, hrun, by omega, by omega, (Option.some.inj hread).symm⟩
    · cases hfound
  · rintro ⟨run, after, rfl, hrun, hleast, hmost, rfl⟩
    simp only [List.cons_append, identifier?, hrun.takeWhile_eq]
    exact if_pos ⟨by omega, by omega⟩

theorem lineComment?_eq_some_iff {text : List Char} {found : TokenKind × Nat} :
    lineComment? text = some found ↔
      ∃ run after, text = '¶' :: run ++ after ∧ IsRun (· ≠ '\n') run after ∧
        found = (.lineComment, run.length + 1) := by
  constructor
  · intro hfound
    unfold lineComment? at hfound
    split at hfound
    · next text =>
      obtain ⟨run, after, rfl, hrun⟩ := IsRun.exists_append_eq (· ≠ '\n') text
      rw [hrun.takeWhile_eq] at hfound
      exact ⟨run, after, rfl, hrun, (Option.some.inj hfound).symm⟩
    · cases hfound
  · rintro ⟨run, after, rfl, hrun, rfl⟩
    simp only [List.cons_append, lineComment?, hrun.takeWhile_eq]

/-! ### Numbers without a sign -/

theorem signLength_eq_zero {c : Char} (hsign : ¬ (c = '+' ∨ c = '-')) (text : List Char) :
    signLength (c :: text) = 0 := by
  cases text <;> simp [signLength, hsign]

theorem not_sign_of_isDigit {c : Char} (hdigit : c.isDigit = true) : ¬ (c = '+' ∨ c = '-') := by
  rintro (rfl | rfl) <;> simp at hdigit

theorem integer?_eq_some_iff {text : List Char} (hsign : signLength text = 0)
    {found : TokenKind × Nat} :
    integer? text = some found ↔
      ∃ digits after, text = digits ++ after ∧ digits ≠ [] ∧ (∀ c ∈ digits, c.isDigit = true) ∧
        AtBoundary after ∧ found = (.integer, digits.length) := by
  rw [integer?, hsign]
  simp only [List.drop_zero, Nat.zero_add]
  constructor
  · intro hfound
    obtain ⟨⟨hdigits, hends⟩, hread⟩ := Option.ite_none_right_eq_some.mp hfound
    obtain ⟨digits, after, rfl, hrun⟩ := IsRun.exists_append_eq Char.isDigit text
    rw [digitRun_append hrun] at hdigits hends hread
    exact ⟨digits, after, rfl, List.length_pos_iff.mp hdigits, hrun.all,
      (endsAtBoundary_append _ _).mp hends, (Option.some.inj hread).symm⟩
  · rintro ⟨digits, after, rfl, hne, hall, hafter, rfl⟩
    have hrun := hafter.isRun_of_forall (fun _ => isDigit_eq_false_of_isBoundary) hall
    rw [digitRun_append hrun]
    exact if_pos ⟨List.length_pos_iff.mpr hne, (endsAtBoundary_append _ _).mpr hafter⟩

theorem drop_past_point (whole rest : List Char) :
    (whole ++ '.' :: rest).drop (whole.length + 1) = rest := by
  rw [← List.drop_drop, List.drop_left, List.drop_one, List.tail_cons]

theorem length_through_point (whole fraction : List Char) :
    whole.length + 1 + fraction.length = (whole ++ '.' :: fraction).length := by
  rw [List.length_append, List.length_cons]
  omega

theorem decimal?_eq_some_iff {text : List Char} (hsign : signLength text = 0)
    {found : TokenKind × Nat} :
    decimal? text = some found ↔
      ∃ whole fraction after, text = whole ++ '.' :: fraction ++ after ∧
        whole ≠ [] ∧ (∀ c ∈ whole, c.isDigit = true) ∧
        fraction ≠ [] ∧ (∀ c ∈ fraction, c.isDigit = true) ∧
        AtBoundary after ∧ found = (.decimal, (whole ++ '.' :: fraction).length) := by
  rw [decimal?, hsign]
  simp only [List.drop_zero, Nat.zero_add]
  constructor
  · intro hfound
    obtain ⟨⟨hwhole, hpoint, hfraction, hends⟩, hread⟩ := Option.ite_none_right_eq_some.mp hfound
    obtain ⟨whole, rest, rfl, hrun⟩ := IsRun.exists_append_eq Char.isDigit text
    simp only [digitRun_append hrun] at hwhole hpoint hfraction hends hread
    rw [List.drop_left] at hpoint
    obtain ⟨rest, rfl⟩ := List.head?_eq_some_iff.mp hpoint
    obtain ⟨fraction, after, rfl, hlast⟩ := IsRun.exists_append_eq Char.isDigit rest
    rw [drop_past_point, digitRun_append hlast] at hfraction hends hread
    rw [length_through_point, ← List.cons_append, ← List.append_assoc] at hends
    rw [length_through_point] at hread
    exact ⟨whole, fraction, after, by simp, List.length_pos_iff.mp hwhole, hrun.all,
      List.length_pos_iff.mp hfraction, hlast.all, (endsAtBoundary_append _ _).mp hends,
      (Option.some.inj hread).symm⟩
  · rintro ⟨whole, fraction, after, rfl, hwhole, hwholeAll, hfraction, hfractionAll, hafter, rfl⟩
    have hrun : IsRun Char.isDigit whole ('.' :: (fraction ++ after)) := ⟨hwholeAll, by simp⟩
    have hlast := hafter.isRun_of_forall (fun _ => isDigit_eq_false_of_isBoundary) hfractionAll
    have htext : whole ++ '.' :: fraction ++ after = whole ++ '.' :: (fraction ++ after) := by simp
    have hends := (endsAtBoundary_append (whole ++ '.' :: fraction) after).mpr hafter
    rw [htext] at hends ⊢
    rw [digitRun_append hrun, drop_past_point, digitRun_append hlast, length_through_point,
      List.drop_left]
    exact if_pos ⟨List.length_pos_iff.mpr hwhole, rfl, List.length_pos_iff.mpr hfraction, hends⟩

end TokenClass

end FrontEnd
