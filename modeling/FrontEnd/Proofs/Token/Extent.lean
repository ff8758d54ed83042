import FrontEnd.Token.Class
import Mathlib.Data.List.TakeWhile

/-!
How much of a text a token takes. Whatever class recognizes it, the token has a kind of its own and
takes at least one character and no more than the text has.
-/

namespace FrontEnd

/-- What may be said of the first token of a text: a kind other than the end, and a part of the text
that is not empty. -/
structure Takes (text : List Char) (found : TokenKind × Nat) : Prop where
  kind_ne : found.1 ≠ .endOfInput
  pos : 0 < found.2
  le : found.2 ≤ text.length

theorem length_takeWhile_le (p : Char → Bool) (text : List Char) :
    (text.takeWhile p).length ≤ text.length :=
  (List.takeWhile_sublist p).length_le

/-! ### Tables of spellings -/

theorem SpellingTable.longest?_bounds {Meaning : Type} {table : SpellingTable Meaning}
    (hwords : ∀ entry ∈ table, 0 < entry.1.length) {text : List Char} {found : Meaning × Nat}
    (hfound : table.longest? text = some found) : 0 < found.2 ∧ found.2 ≤ text.length := by
  unfold longest? at hfound
  have hmem := List.maxOn?_mem hfound
  obtain ⟨entry, hentry, rfl⟩ := List.mem_map.mp hmem
  obtain ⟨htable, hstarts⟩ := List.mem_filter.mp hentry
  have hprefix := (List.isPrefixOf_iff_prefix.mp hstarts).length_le
  rw [String.length_toList] at hprefix
  exact ⟨hwords entry htable, hprefix⟩

theorem SpellingTable.standalone?_bounds {Meaning : Type} {table : SpellingTable Meaning}
    (hwords : ∀ entry ∈ table, 0 < entry.1.length) {text : List Char} {found : Meaning × Nat}
    (hfound : table.standalone? text = some found) : 0 < found.2 ∧ found.2 ≤ text.length :=
  longest?_bounds hwords (Option.filter_eq_some_iff.mp hfound).1

theorem takes_of_meaning {Meaning : Type} {kindOf : Meaning → TokenKind}
    (hkind : ∀ meaning, kindOf meaning ≠ .endOfInput) {read : Option (Meaning × Nat)}
    {text : List Char} (hbounds : ∀ found, read = some found → 0 < found.2 ∧ found.2 ≤ text.length)
    {found : TokenKind × Nat} (hfound : (read.map fun m => (kindOf m.1, m.2)) = some found) :
    Takes text found := by
  obtain ⟨meant, hread, rfl⟩ := Option.map_eq_some_iff.mp hfound
  obtain ⟨hpos, hle⟩ := hbounds meant hread
  exact ⟨hkind meant.1, hpos, hle⟩

/-! ### Other shapes -/

theorem fixed?_takes {spelling text : List Char} {kind : TokenKind} {found : TokenKind × Nat}
    (hkind : kind ≠ .endOfInput) (hspelling : 0 < spelling.length)
    (hfound : fixed? spelling kind text = some found) : Takes text found := by
  obtain ⟨hstarts, hread⟩ := Option.ite_none_right_eq_some.mp hfound
  obtain rfl := Option.some.inj hread
  exact ⟨hkind, hspelling, (List.isPrefixOf_iff_prefix.mp hstarts).length_le⟩

theorem singleKind?_takes {kindOf : Char → Option TokenKind} {text : List Char}
    (hkind : ∀ c, kindOf c ≠ some .endOfInput) {found : TokenKind × Nat}
    (hfound : singleKind? kindOf text = some found) : Takes text found := by
  unfold singleKind? at hfound
  obtain ⟨kind, hread, rfl⟩ := Option.map_eq_some_iff.mp hfound
  cases text with
  | nil => cases hread
  | cons c text =>
    refine ⟨?_, Nat.one_pos, ?_⟩
    · rintro rfl
      exact hkind c hread
    · simp only [List.length_cons]
      omega

theorem delimitedBody?_length {opening closing : Char} {text body : List Char}
    (hbody : delimitedBody? opening closing text = some body) : body.length + 2 ≤ text.length := by
  cases text with
  | nil => cases hbody
  | cons c text =>
    obtain ⟨⟨-, hcloses⟩, hread⟩ := Option.ite_none_right_eq_some.mp hbody
    obtain rfl := Option.some.inj hread
    -- the closing character is in the text and not in the body
    have hrest : text.dropWhile (· ≠ closing) ≠ [] := by
      intro hempty
      have hall := List.dropWhile_eq_nil_iff.mp hempty closing hcloses
      simp at hall
    have hpos := List.length_pos_iff.mpr hrest
    have hsplit : text.takeWhile (· ≠ closing) ++ text.dropWhile (· ≠ closing) = text :=
      List.takeWhile_append_dropWhile
    have hlength := congrArg List.length hsplit
    rw [List.length_append] at hlength
    simp only [List.length_cons]
    omega

theorem signLength_le (text : List Char) : signLength text ≤ text.length := by
  unfold signLength
  split
  · split <;> simp
  · omega

theorem digitRun_drop_le (text : List Char) (count : Nat) (hcount : count ≤ text.length) :
    count + digitRun (text.drop count) ≤ text.length := by
  have hrun := length_takeWhile_le Char.isDigit (text.drop count)
  rw [List.length_drop] at hrun
  unfold digitRun
  omega

/-! ### The classes -/

namespace TokenClass

theorem identifier?_takes {text : List Char} {found : TokenKind × Nat}
    (hfound : identifier? text = some found) : Takes text found := by
  unfold identifier? at hfound
  split at hfound
  · next text =>
    have hrun := length_takeWhile_le Char.isAlphanum text
    obtain ⟨-, hread⟩ := Option.ite_none_right_eq_some.mp hfound
    obtain rfl := Option.some.inj hread
    exact ⟨by simp, by simp, by simpa using hrun⟩
  · cases hfound

theorem integer?_takes {text : List Char} {found : TokenKind × Nat}
    (hfound : integer? text = some found) : Takes text found := by
  obtain ⟨⟨hdigits, -⟩, hread⟩ := Option.ite_none_right_eq_some.mp hfound
  obtain rfl := Option.some.inj hread
  have hlength := digitRun_drop_le text (signLength text) (signLength_le text)
  exact ⟨by simp, Nat.add_pos_right _ hdigits, hlength⟩

theorem decimal?_takes {text : List Char} {found : TokenKind × Nat}
    (hfound : decimal? text = some found) : Takes text found := by
  obtain ⟨⟨-, hpoint, hfraction, -⟩, hread⟩ := Option.ite_none_right_eq_some.mp hfound
  obtain rfl := Option.some.inj hread
  -- the point is a character of the text, so the fraction begins inside it
  have hinside : signLength text + digitRun (text.drop (signLength text)) < text.length := by
    rw [List.head?_drop] at hpoint
    exact (List.getElem?_eq_some_iff.mp hpoint).1
  have hlength := digitRun_drop_le text _ (Nat.succ_le_of_lt hinside)
  exact ⟨by simp, Nat.add_pos_right _ hfraction, hlength⟩

theorem lineComment?_takes {text : List Char} {found : TokenKind × Nat}
    (hfound : lineComment? text = some found) : Takes text found := by
  unfold lineComment? at hfound
  split at hfound
  · next text =>
    obtain rfl := Option.some.inj hfound
    have hrun := length_takeWhile_le (· ≠ '\n') text
    exact ⟨by simp, by simp, by simpa using hrun⟩
  · cases hfound

theorem delimited?_takes {opening closing : Char} {kind : TokenKind} {fits : Nat → Bool}
    {text : List Char} {found : TokenKind × Nat} (hkind : kind ≠ .endOfInput)
    (hfound : delimited? opening closing kind fits text = some found) : Takes text found := by
  unfold delimited? at hfound
  obtain ⟨body, hread, rfl⟩ := Option.map_eq_some_iff.mp hfound
  have hbody := (Option.filter_eq_some_iff.mp hread).1
  exact ⟨hkind, by simp, delimitedBody?_length hbody⟩

/-- Every class takes at least one character and no more than the text has. -/
theorem recognize?_takes {cls : TokenClass} {text : List Char} {found : TokenKind × Nat}
    (hfound : cls.recognize? text = some found) : Takes text found := by
  cases cls with
  | identifier => exact identifier?_takes hfound
  | increment => exact fixed?_takes (by simp) (by simp) hfound
  | decrement => exact fixed?_takes (by simp) (by simp) hfound
  | arithmetic =>
    exact takes_of_meaning (by simp)
      (fun _ hread => SpellingTable.longest?_bounds (by decide) hread) hfound
  | assignment =>
    exact takes_of_meaning (by simp)
      (fun _ hread => SpellingTable.standalone?_bounds (by decide) hread) hfound
  | relational =>
    exact takes_of_meaning (by simp)
      (fun _ hread => SpellingTable.standalone?_bounds (by decide) hread) hfound
  | logical =>
    exact takes_of_meaning (by simp)
      (fun _ hread => SpellingTable.standalone?_bounds (by decide) hread) hfound
  | integer => exact integer?_takes hfound
  | decimal => exact decimal?_takes hfound
  | keyword =>
    exact takes_of_meaning (by simp)
      (fun _ hread => SpellingTable.standalone?_bounds (by decide) hread) hfound
  | string =>
    have hread : delimited? '~' '~' .string (fun _ => true) text = some found := hfound
    exact delimited?_takes (by simp) hread
  | char =>
    have hread : delimited? '^' '^' .char (· ≤ maxCharBody) text = some found := hfound
    exact delimited?_takes (by simp) hread
  | blockComment =>
    have hread : delimited? '«' '»' .blockComment (fun _ => true) text = some found := hfound
    exact delimited?_takes (by simp) hread
  | lineComment => exact lineComment?_takes hfound
  | terminator => exact fixed?_takes (by simp) (by simp) hfound
  | bracket =>
    refine singleKind?_takes (fun c => ?_) hfound
    unfold bracketKind?
    split <;> simp
  | separator =>
    refine singleKind?_takes (fun c => ?_) hfound
    unfold separatorKind?
    split <;> simp
  | concat => exact fixed?_takes (by simp) (by simp) hfound

end TokenClass

theorem unknown_takes {text : List Char} (hne : text ≠ []) :
    Takes text (.unknown, unknownLength text) := by
  cases text with
  | nil => exact absurd rfl hne
  | cons c text =>
    have hrun := length_takeWhile_le (fun c => !stopsUnknown c) text
    exact ⟨by simp, by simp [unknownLength], by simpa [unknownLength] using hrun⟩

/-- The first token of a text that is not empty takes some of it, in whatever order the classes are
asked. -/
theorem classify_takes (order : List TokenClass) {text : List Char} (hne : text ≠ []) :
    Takes text (classify order text) := by
  unfold classify
  cases hread : order.findSome? fun cls => cls.recognize? text with
  | none => exact unknown_takes hne
  | some found =>
    obtain ⟨cls, -, hfound⟩ := List.exists_of_findSome?_eq_some hread
    exact TokenClass.recognize?_takes hfound

end FrontEnd
