import FrontEnd.Compilation.Basic
import FrontEnd.Proofs.Relabeling.Analysis
import FrontEnd.Proofs.Relabeling.Outline
import FrontEnd.Proofs.Relabeling.Stream
import FrontEnd.Proofs.Token.Tiling

/-!
Layout does not matter. The tokens of any text are those of a stream whose places are the numbers of
its words, moved to where the text has them. Moving keeps their order, so that two texts with the
same words lead to the same messages, the same outline and the same symbols.
-/

namespace FrontEnd

namespace TokenStream

/-- The kinds and spellings of the tokens that belong to the grammar. -/
def words (stream : TokenStream) : List (TokenKind × String) :=
  stream.significant.map fun token => (token.kind, token.lexeme)

/-- The stream with the given words, each of them at its number. -/
def ofWords (words : List (TokenKind × String)) : TokenStream where
  tokens := words.zipIdx.map fun entry => ⟨entry.1.1, entry.1.2, ⟨0, 0, ⟨entry.2, entry.2⟩⟩⟩
  sourceLength := words.length

/-- Where the word of some number stands in a stream. The numbers past the last word lead to the end
of the stream and beyond. -/
def place (stream : TokenStream) (location : Location) : Location :=
  match stream.significant[location.span.start]? with
  | some token => token.location
  | none =>
    let offset := stream.sourceLength + (location.span.start - stream.significant.length)
    ⟨stream.ending.location.row, stream.ending.location.col, ⟨offset, offset⟩⟩

/-- The tokens of the grammar stand one after another inside the text. -/
structure InOrder (stream : TokenStream) : Prop where
  pairwise : stream.significant.Pairwise fun token later =>
    token.location.span.start < later.location.span.start
  inside : ∀ token ∈ stream.significant, token.location.span.start < stream.sourceLength

theorem inOrder_ofString (source : String) : (ofString source).InOrder := by
  have htiles := tiles_tokenize source
  refine ⟨htiles.pairwise_start.sublist List.filter_sublist, fun token hmem => ?_⟩
  have htoken : token ∈ tokenize source := List.mem_of_mem_filter hmem
  exact Nat.lt_of_lt_of_le (htiles.nonempty token htoken) (htiles.stop_le htoken)

variable {stream : TokenStream}

theorem place_of_getElem? {location : Location} {token : Token}
    (hfound : stream.significant[location.span.start]? = some token) :
    stream.place location = token.location := by
  unfold place
  rw [hfound]

theorem start_place_of_le {location : Location}
    (hpast : stream.significant.length ≤ location.span.start) :
    (stream.place location).span.start =
      stream.sourceLength + (location.span.start - stream.significant.length) := by
  unfold place
  rw [List.getElem?_eq_none hpast]

theorem start_place_lt (horder : stream.InOrder) {first second : Location}
    (hlt : first.span.start < second.span.start) :
    (stream.place first).span.start < (stream.place second).span.start := by
  by_cases hsecond : second.span.start < stream.significant.length
  · have hfirst : first.span.start < stream.significant.length := by omega
    rw [place_of_getElem? (List.getElem?_eq_getElem hfirst),
      place_of_getElem? (List.getElem?_eq_getElem hsecond)]
    exact List.pairwise_iff_getElem.mp horder.pairwise _ _ hfirst hsecond hlt
  · rw [start_place_of_le (Nat.le_of_not_lt hsecond)]
    by_cases hfirst : first.span.start < stream.significant.length
    · have hinside := horder.inside _ (List.getElem_mem hfirst)
      rw [place_of_getElem? (List.getElem?_eq_getElem hfirst)]
      omega
    · rw [start_place_of_le (Nat.le_of_not_lt hfirst)]
      omega

theorem keepsOrder_place (horder : stream.InOrder) :
    (Relabeling.ofLocation stream.place).KeepsOrder := by
  intro first second
  constructor
  · intro hle
    apply Nat.le_of_not_lt
    intro hlt
    have hplaces := start_place_lt horder hlt
    exact Nat.not_lt_of_le hle hplaces
  · intro hle
    rcases Nat.lt_or_eq_of_le hle with hlt | heq
    · exact Nat.le_of_lt (start_place_lt horder hlt)
    · have hsame : (stream.place first).span.start = (stream.place second).span.start := by
        unfold place
        rw [heq]
      exact Nat.le_of_eq hsame

/-! ### The words of a stream -/

theorem not_isComment_of_mem_words {word : TokenKind × String} (hmem : word ∈ stream.words) :
    word.1.isComment = false := by
  obtain ⟨token, htoken, rfl⟩ := List.mem_map.mp hmem
  simpa [Token.isComment] using (List.mem_filter.mp htoken).2

theorem significant_ofWords :
    (ofWords stream.words).significant = (ofWords stream.words).tokens := by
  refine List.filter_eq_self.mpr fun token hmem => ?_
  obtain ⟨⟨word, i⟩, hword, rfl⟩ := List.mem_map.mp hmem
  have hkind := not_isComment_of_mem_words (List.fst_mem_of_mem_zipIdx hword)
  simpa [Token.isComment] using hkind

/-- The tokens of a stream are its words, moved to their places. -/
theorem significant_eq_map_ofWords :
    stream.significant = (ofWords stream.words).significant.map
      (Token.relabel (.ofLocation stream.place)) := by
  rw [significant_ofWords]
  apply List.ext_getElem?
  intro i
  simp only [ofWords, words, List.map_map, List.getElem?_map, List.getElem?_zipIdx, Nat.zero_add]
  cases htoken : stream.significant[i]? with
  | none => rfl
  | some token =>
    have hplace : stream.place ⟨0, 0, ⟨i, i⟩⟩ = token.location := place_of_getElem? htoken
    simp [Token.relabel_ofLocation, hplace]

theorem ending_eq_relabel_ofWords :
    stream.ending = (ofWords stream.words).ending.relabel (.ofLocation stream.place) := by
  have hlength : (ofWords stream.words).sourceLength = stream.significant.length :=
    List.length_map _
  have hnone : stream.significant[stream.significant.length]? = none :=
    List.getElem?_eq_none (Nat.le_refl _)
  rw [Token.relabel_ofLocation]
  unfold place
  simp only [ending, Token.ending, hlength, hnone, Nat.sub_self, Nat.add_zero]

theorem parse_relabels_ofWords (horder : stream.InOrder) :
    stream.parse.unit =
        (ofWords stream.words).parse.unit.relabel (.ofLocation stream.place) ∧
      RelabelsAll (.ofLocation stream.place) (ofWords stream.words).parse.diagnostics
        stream.parse.diagnostics :=
  parseBy_relabel (keepsOrder_place horder) significant_eq_map_ofWords ending_eq_relabel_ofWords
    .never

end TokenStream

/-! ### Compilation -/

theorem Symbol.text_relabel_ofLocation {location : Location → Location} (symbol : Symbol) :
    (symbol.relabel (.ofLocation location)).text = symbol.text := rfl

/-- What a compilation shows without places is what analysis shows of the program that the words of
the text make. -/
theorem compile_ofWords (source : String) {words : List (TokenKind × String)}
    (hwords : (TokenStream.ofString source).words = words) :
    (compile source).syntaxDiagnostics.map Diagnostic.message =
        (TokenStream.ofWords words).parse.diagnostics.map Diagnostic.message ∧
      (compile source).semanticDiagnostics.map Diagnostic.message =
        (TokenStream.ofWords words).parse.unit.analyze.diagnostics.map Diagnostic.message ∧
      (compile source).unit.outline = (TokenStream.ofWords words).parse.unit.outline ∧
      (compile source).table.toList.map Symbol.text =
        (TokenStream.ofWords words).parse.unit.analyze.table.toList.map Symbol.text := by
  obtain ⟨hunit, hparsed⟩ :=
    TokenStream.parse_relabels_ofWords (TokenStream.inOrder_ofString source)
  rw [hwords] at hunit hparsed
  obtain ⟨hmeaning, htable⟩ := analyze_relabels
    (Relabeling.faithful_ofLocation (TokenStream.ofString source).place)
    (TokenStream.ofWords words).parse.unit
  rw [← hunit] at hmeaning htable
  refine ⟨messages_eq_of_relabels hparsed, messages_eq_of_relabels hmeaning, ?_, ?_⟩
  · have houtline : (TokenStream.ofString source).parse.unit.outline =
        (TokenStream.ofWords words).parse.unit.outline := by
      rw [hunit, CompilationUnit.outline_relabel_ofLocation]
    exact houtline
  · have hsymbols : (compile source).table.toList = _ := htable
    rw [hsymbols, List.map_map]
    exact List.map_congr_left fun symbol _ => symbol.text_relabel_ofLocation

/-- Two texts that differ only in blanks, comments and places are compiled alike: with the same
messages in the same order, the same outline and the same symbols. -/
theorem compile_eq_of_words_eq {first second : String}
    (hwords : (TokenStream.ofString first).words = (TokenStream.ofString second).words) :
    (compile first).syntaxDiagnostics.map Diagnostic.message =
        (compile second).syntaxDiagnostics.map Diagnostic.message ∧
      (compile first).semanticDiagnostics.map Diagnostic.message =
        (compile second).semanticDiagnostics.map Diagnostic.message ∧
      (compile first).unit.outline.render = (compile second).unit.outline.render ∧
      (compile first).table.toList.map Symbol.text =
        (compile second).table.toList.map Symbol.text := by
  obtain ⟨hparsed, hmeaning, houtline, hsymbols⟩ := compile_ofWords first hwords
  obtain ⟨hparsed', hmeaning', houtline', hsymbols'⟩ := compile_ofWords second rfl
  refine ⟨hparsed.trans hparsed'.symm, hmeaning.trans hmeaning'.symm, ?_,
    hsymbols.trans hsymbols'.symm⟩
  rw [houtline, houtline']

/-- Two faulty statements on one line. -/
def faultyLine : String :=
  "muestre @x# @x = ~a~ @y"

/-- The same statements over several lines, with comments. -/
def faultyLines : String :=
  "muestre ¶ note\n\t@x #\n@x = ~a~  «more\nnotes»  @y\n"

theorem compile_faultyLine_eq :
    (TokenStream.ofString faultyLine).words = (TokenStream.ofString faultyLines).words ∧
      (compile faultyLine).syntaxDiagnostics.map Diagnostic.message =
        (compile faultyLines).syntaxDiagnostics.map Diagnostic.message ∧
      (compile faultyLine).semanticDiagnostics.map Diagnostic.message =
        (compile faultyLines).semanticDiagnostics.map Diagnostic.message ∧
      (compile faultyLine).unit.outline.render = (compile faultyLines).unit.outline.render ∧
      (compile faultyLine).table.toList.map Symbol.text =
        (compile faultyLines).table.toList.map Symbol.text := by
  have hwords : (TokenStream.ofString faultyLine).words =
      (TokenStream.ofString faultyLines).words := by decide +kernel
  exact ⟨hwords, compile_eq_of_words_eq hwords⟩

end FrontEnd
