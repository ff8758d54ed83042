import FrontEnd.Proofs.Grammar.Tokens
import FrontEnd.Proofs.Parsing.Failing.Unit
import FrontEnd.Proofs.Parsing.Recognition

/-!
The parser stops cleanly. What it returns for a faulty token list is the program that the tokens
before a certain place are, no token of which is lost; everything that is reported lies after that
place.
-/

namespace FrontEnd

open Grammar

/-- Where the elements that pass a test are split, the list can be split, too, with the second part
starting with such an element. -/
theorem exists_split_of_filter_eq_append {α : Type} {test : α → Bool} {items before after : List α}
    (hfilter : items.filter test = before ++ after) :
    ∃ front back, items = front ++ back ∧ front.filter test = before ∧ back.filter test = after ∧
      ∀ a ∈ back.head?, test a = true := by
  obtain ⟨first, second, rfl, rfl, rfl⟩ := List.filter_eq_append_iff.mp hfilter
  have hskipped : (second.takeWhile fun a => !test a).filter test = [] := by
    rw [List.filter_eq_nil_iff]
    intro a hmem
    simpa using List.all_eq_true.mp (List.all_takeWhile (p := fun a => !test a)) a hmem
  have hsplit := List.takeWhile_append_dropWhile (p := fun a => !test a) (l := second)
  refine ⟨first ++ second.takeWhile fun a => !test a, second.dropWhile fun a => !test a,
    ?_, ?_, ?_, ?_⟩
  · rw [List.append_assoc, hsplit]
  · rw [List.filter_append, hskipped, List.append_nil]
  · conv_rhs => rw [← hsplit, List.filter_append, hskipped, List.nil_append]
  · intro a ha
    have hhead := List.head?_dropWhile_not (fun a => !test a) second
    rw [Option.mem_def.mp ha] at hhead
    simpa using hhead

/-- What a failed program reports lies at the tokens that were not read or at the end. -/
theorem location_of_mem {ending : Token} {rest : List Token} {failures : List Failure}
    (hnested : Nested rest.length rest failures) {d : Diagnostic}
    (hmem : d ∈ failures.map (Failure.diagnostic ending) ++
      leftoverReport (failures.map (Failure.diagnostic ending)) rest) :
    (∃ t ∈ rest, d.location = t.location) ∨ d.location = ending.location := by
  rcases List.mem_append.mp hmem with hmem | hmem
  · obtain ⟨failure, hfailure, rfl⟩ := List.mem_map.mp hmem
    cases hfound : failure.found with
    | none =>
      refine .inr ?_
      rw [Failure.diagnostic, hfound]
      rfl
    | some t =>
      refine .inl ⟨t, hnested.found_mem failure hfailure t hfound, ?_⟩
      rw [Failure.diagnostic, hfound]
      rfl
  · cases rest with
    | nil => cases hmem
    | cons t rest =>
      refine .inl ⟨t, List.mem_cons_self, ?_⟩
      rw [leftoverReport] at hmem
      split at hmem
      · cases hmem
      · split at hmem <;> obtain rfl := List.mem_singleton.mp hmem <;> rfl

/-- Something is reported exactly if a token is left. -/
theorem report_eq_nil_iff {ending : Token} {rest : List Token} {failures : List Failure}
    (hnested : Nested rest.length rest failures) :
    failures.map (Failure.diagnostic ending) ++
      leftoverReport (failures.map (Failure.diagnostic ending)) rest = [] ↔ rest = [] := by
  constructor
  · intro hnone
    obtain ⟨hfailures, hleftover⟩ := List.append_eq_nil_iff.mp hnone
    rwa [hfailures, leftoverReport_nil_eq_nil_iff] at hleftover
  · rintro rfl
    rw [hnested.eq_nil]
    rfl

namespace TokenStream

/-- The tokens fall into two parts. The first part is a program, and it is what the parser returns,
with all of its tokens that trees keep and in their order. The second part is empty exactly if there
is nothing to report; it starts with a token of the grammar, and whatever is reported lies at such a
token of it or at the end of the input. -/
theorem exists_split_parse (stream : TokenStream) :
    ∃ before after, stream.tokens = before ++ after ∧ (∀ t ∈ after.head?, t.isComment = false) ∧
      (∀ length, (⟨before, length⟩ : TokenStream).parse = ⟨stream.parse.unit, []⟩) ∧
      (after = [] ↔ stream.parse.diagnostics = []) ∧
      (∀ d ∈ stream.parse.diagnostics,
        (∃ t ∈ after, t.isComment = false ∧ d.location = t.location) ∨
          d.location = stream.ending.location) ∧
      stream.parse.unit.tokens = before.filter Token.isStored := by
  obtain ⟨unit, rest, failures, again, hreads⟩ := Parser.exists_readsUnit stream.significant
  have hparse : stream.parse = ⟨unit, failures.map (Failure.diagnostic stream.ending) ++
      leftoverReport (failures.map (Failure.diagnostic stream.ending)) rest⟩ := by
    simp [parse, parseBy, hreads.never]
  obtain ⟨taken, hsignificant, hunit⟩ :=
    Parser.compilationUnit_sound ⟨.never, [], congrArg Outcome.parsed hreads.never⟩
  obtain ⟨before, after, htokens, rfl, rfl, hafter⟩ := exists_split_of_filter_eq_append hsignificant
  rw [hparse]
  refine ⟨before, after, htokens, ?_, ?_, ?_, ?_, ?_⟩
  · simpa using hafter
  · intro length
    have hbefore : (⟨before, length⟩ : TokenStream).parse = ⟨unit.hoist, []⟩ :=
      parse_of_isUnit hunit
    rw [hbefore, hreads.hoist]
  · refine Iff.trans ⟨?_, fun hnone => ?_⟩ (report_eq_nil_iff hreads.nested).symm
    · rintro rfl
      rfl
    · cases after with
      | nil => rfl
      | cons t rest =>
        have hsignificant := List.filter_eq_nil_iff.mp hnone t List.mem_cons_self
        exact absurd (hafter t rfl) hsignificant
  · intro d hd
    refine (location_of_mem hreads.nested hd).imp_left ?_
    rintro ⟨t, hmem, hlocation⟩
    obtain ⟨hmem, hsignificant⟩ := List.mem_filter.mp hmem
    exact ⟨t, hmem, by simpa using hsignificant, hlocation⟩
  · rw [stores_unit hunit, List.filter_filter]
    refine List.filter_congr fun t _ => ?_
    cases hstored : t.isStored with
    | false => rfl
    | true => rw [Token.isComment_of_isStored hstored]; rfl

end TokenStream

end FrontEnd
