import FrontEnd.Proofs.Places.Compilation

/-!
How the diagnostics of a text lie to each other. What is wrong with its syntax is told from the back
to the front, the innermost construct first, and all of it lies behind the tokens that were read.
What is wrong with names and types lies at those tokens.
-/

namespace FrontEnd

/-- A report on a token with which no construct can go on. -/
def Diagnostic.isLeftover (diagnostic : Diagnostic) : Bool :=
  match diagnostic.problem with
  | .inSyntax (.unexpected _) | .inSyntax (.unrecognized _) => true
  | _ => false

namespace TokenStream

theorem ordered_significant (source : String) :
    (ofString source).significant.Pairwise fun token later =>
      token.location.span.stop ≤ later.location.span.start :=
  (tiles_tokenize source).ordered.filter _

theorem mem_tokenize_of_mem_significant {source : String} {t : Token}
    (hmem : t ∈ (ofString source).significant) : t ∈ tokenize source ∧ t.isComment = false := by
  obtain ⟨hmem, hsignificant⟩ := List.mem_filter.mp hmem
  exact ⟨hmem, by simpa using hsignificant⟩

/-- A token ends before all that follow it, and before the end of the input. -/
theorem stop_le_start_of_suffix {source : String} {t : Token} {rest after : List Token}
    (hrest : t :: rest <:+ (ofString source).significant) (hafter : after <:+ rest) :
    t.location.span.stop ≤
      (after.head?.getD (ofString source).ending).location.span.start := by
  cases after with
  | nil =>
    have hmem := mem_tokenize_of_mem_significant (hrest.mem List.mem_cons_self)
    exact (tiles_tokenize source).stop_le hmem.1
  | cons u after =>
    have hordered := (ordered_significant source).sublist hrest.sublist
    exact (List.pairwise_cons.mp hordered).1 u (hafter.mem List.mem_cons_self)

theorem start_lt_start_of_suffix {source : String} {t : Token} {rest after : List Token}
    (hrest : t :: rest <:+ (ofString source).significant) (hafter : after <:+ rest) :
    t.location.span.start <
      (after.head?.getD (ofString source).ending).location.span.start := by
  have hmem := mem_tokenize_of_mem_significant (hrest.mem List.mem_cons_self)
  exact Nat.lt_of_lt_of_le ((tiles_tokenize source).nonempty t hmem.1)
    (stop_le_start_of_suffix hrest hafter)

/-! ### Syntax -/

section Failures

variable {source : String} {rest : List Token} {failures : List Failure}

theorem start_lt_of_showsAfter (hrest : rest <:+ (ofString source).significant)
    {later earlier : Failure} (hshows : later.ShowsAfter rest earlier) :
    (earlier.diagnostic (ofString source).ending).location.span.start <
      (later.diagnostic (ofString source).ending).location.span.start := by
  obtain ⟨t, more, after, hmore, hearlier, hafter, hlater⟩ := hshows
  have hlt := start_lt_start_of_suffix (hmore.trans hrest) hafter
  rw [← hlater] at hlt
  rw [Failure.diagnostic, hearlier]
  exact hlt

/-- A construct that failed at the first token left, or behind it, has said why nothing more is
read. -/
theorem leftoverReport_eq_nil (hrest : rest <:+ (ofString source).significant)
    (hnested : Nested rest.length rest failures) (hne : failures ≠ []) :
    leftoverReport (failures.map (Failure.diagnostic (ofString source).ending)) rest = [] := by
  obtain ⟨failure, hmem⟩ := List.exists_mem_of_ne_nil failures hne
  cases rest with
  | nil => rfl
  | cons t rest =>
    obtain ⟨after, hafter, -, hfound⟩ := hnested.shows failure hmem
    have hstart : t.location.span.start ≤
        (failure.diagnostic (ofString source).ending).location.span.start := by
      have hplace : (failure.diagnostic (ofString source).ending).location =
          (after.head?.getD (ofString source).ending).location := by
        rw [← hfound]
        rfl
      rw [hplace]
      rcases List.suffix_cons_iff.mp hafter with rfl | hafter
      · exact Nat.le_refl _
      · exact Nat.le_of_lt (start_lt_start_of_suffix hrest hafter)
    rw [leftoverReport, if_pos]
    simpa using ⟨failure, hmem, hstart⟩

/-- At most one token is reported. -/
theorem leftoverReport_eq_toList (diagnostics : List Diagnostic) (rest : List Token) :
    leftoverReport diagnostics rest = (leftoverReport diagnostics rest).head?.toList := by
  cases rest with
  | nil => rfl
  | cons t rest =>
    rw [leftoverReport]
    split
    · rfl
    · split <;> rfl

end Failures

/-- Each diagnostic about the syntax of a text lies before the one that was found before it: a
construct inside of another one reports first and further back. The token with which nothing goes on
is reported only if nothing else is. -/
theorem diagnostics_parse_descend (source : String) :
    (ofString source).parse.diagnostics.Pairwise
        (fun d next => next.location.span.start < d.location.span.start) ∧
      ((ofString source).failuresBy .never).Pairwise
        (fun inner outer => inner.site.left < outer.site.left) ∧
      ∀ d ∈ (ofString source).parse.diagnostics, d.isLeftover = true →
        (ofString source).parse.diagnostics = [d] := by
  obtain ⟨unit, rest, failures, again, hreads⟩ :=
    Parser.exists_readsUnit (ofString source).significant
  obtain ⟨read, hsignificant, -⟩ := hreads.exists_append
  have hrest : rest <:+ (ofString source).significant := ⟨read, hsignificant.symm⟩
  rw [parse_of_readsUnit hreads, failuresBy, hreads.never]
  by_cases hnone : failures = []
  · rw [hnone, List.map_nil, List.nil_append, leftoverReport_eq_toList]
    generalize (leftoverReport [] rest).head? = found
    refine ⟨?_, .nil, fun d hmem _ => ?_⟩
    · cases found with
      | none => exact .nil
      | some only => exact List.pairwise_singleton _ only
    · obtain rfl := Option.mem_toList.mp hmem
      rfl
  · rw [leftoverReport_eq_nil hrest hreads.nested hnone, List.append_nil]
    refine ⟨?_, hreads.nested.outward, fun d hmem hleftover => ?_⟩
    · rw [List.pairwise_map]
      exact hreads.nested.back.imp fun hshows => start_lt_of_showsAfter hrest hshows
    · obtain ⟨failure, -, rfl⟩ := List.mem_map.mp hmem
      cases hleftover

/-- A loop whose body holds a declaration without a name fails with it and has two diagnostics; a
bracket that closes nothing has one. -/
theorem diagnostics_parse_unnamedInLoop :
    ((ofString "do { variable }").parse.diagnostics.map fun d => d.location.span.start) = [14, 5] ∧
      ((ofString "do { variable }").parse.diagnostics.Pairwise
        fun d next => next.location.span.start < d.location.span.start) ∧
      (ofString "print 1 # )").parse.diagnostics =
        [.ofSyntax (.unexpected ⟨.rightParen, ")", ⟨0, 10, ⟨10, 11⟩⟩⟩)] := by
  refine ⟨by decide +kernel, (diagnostics_parse_descend _).1, ?_⟩
  exact (diagnostics_parse_descend _).2.2 _ (by decide +kernel) rfl

end TokenStream

/-! ### Meaning -/

/-- A fault in the use of names and types lies at a token of the text, and this token ends before
every fault in the syntax. -/
theorem semanticDiagnostics_before_syntaxDiagnostics (source : String) :
    ∀ d ∈ (compile source).semanticDiagnostics,
      (∃ t ∈ tokenize source, t.isComment = false ∧ d.location = t.location) ∧
        (∀ other ∈ (compile source).syntaxDiagnostics,
          d.location.span.stop ≤ other.location.span.start) ∧
        d.location.span.start < d.location.span.stop ∧
        d.location.span.stop ≤ source.utf8ByteSize := by
  intro d hd
  obtain ⟨read, rest, hsignificant, htokens, hparsed⟩ :=
    (TokenStream.ofString source).exists_significant_eq
  obtain ⟨problem, t, -, ht, rfl⟩ := CompilationUnit.diagnostics_analyze_reports _ d hd
  rw [htokens] at ht
  have hread : t ∈ read := List.mem_of_mem_filter ht
  obtain ⟨hmem, hsignificantToken⟩ := TokenStream.mem_tokenize_of_mem_significant
    (hsignificant ▸ List.mem_append_left rest hread)
  have htiles := tiles_tokenize source
  refine ⟨⟨t, hmem, hsignificantToken, rfl⟩, fun other hother => ?_, htiles.nonempty t hmem,
    htiles.stop_le hmem⟩
  rcases hparsed other hother with ⟨u, hu, hlocation⟩ | hlocation
  · have hordered := TokenStream.ordered_significant source
    rw [hsignificant] at hordered
    rw [hlocation]
    exact (List.pairwise_append.mp hordered).2.2 t hread u hu
  · rw [hlocation]
    exact htiles.stop_le hmem

/-- A name that is not declared is printed before a declaration that is not ended. -/
theorem semanticDiagnostics_before_unnamed :
    ∃ d ∈ (compile "print @x # variable \x7d").semanticDiagnostics,
      d.location = ⟨0, 6, ⟨6, 8⟩⟩ ∧
        ∃ other ∈ (compile "print @x # variable \x7d").syntaxDiagnostics,
          other.location.span.start = 20 ∧ d.location.span.stop ≤ other.location.span.start := by
  let name : Token := ⟨.identifier, "@x", ⟨0, 6, ⟨6, 8⟩⟩⟩
  let brace : Token := ⟨.rightBrace, "\x7d", ⟨0, 20, ⟨20, 21⟩⟩⟩
  have hd : Diagnostic.ofMeaning (.undeclaredVariable "@x" "unit") name ∈
      (compile "print @x # variable \x7d").semanticDiagnostics := by decide +kernel
  have hother : Diagnostic.ofSyntax (.missing (.declaredName "variable") brace) ∈
      (compile "print @x # variable \x7d").syntaxDiagnostics := by decide +kernel
  refine ⟨_, hd, rfl, _, hother, rfl, ?_⟩
  exact (semanticDiagnostics_before_syntaxDiagnostics _ _ hd).2.1 _ hother

end FrontEnd
