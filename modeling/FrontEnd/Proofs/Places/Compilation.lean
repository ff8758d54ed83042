import FrontEnd.Compilation.Basic
import FrontEnd.Proofs.Parsing.CleanStop
import FrontEnd.Proofs.Places.Semantic
import FrontEnd.Proofs.Token.Tiling

/-!
The two ways in which a diagnostic tells its place, as a row and column and as a range of bytes.
They agree at every token. At the end of the input the bytes are those of the end of the text, while
the row and column are those just past the last token, so that they agree only if nothing comes
after it.
-/

namespace FrontEnd

namespace Position

/-- Any text that is read changes the row or the column. -/
theorem eq_nil_of_past_eq {before text : List Char}
    (hrow : (past (before ++ text)).row = (past before).row)
    (hcol : (past (before ++ text)).col = (past before).col) : text = [] := by
  have hnone : text.count '\n' = 0 := by
    simp only [past, List.count_append] at hrow
    omega
  have hline : ∀ c ∈ text.reverse, decide (c ≠ '\n') = true := fun c hmem =>
    decide_eq_true (ne_of_mem_of_not_mem (List.mem_reverse.mp hmem) (List.count_eq_zero.mp hnone))
  simp only [past, List.reverse_append, List.takeWhile_append_of_pos hline, List.length_append,
    List.length_reverse] at hcol
  exact List.length_eq_zero_iff.mp (by omega)

theorem offset_past_append (before text : List Char) :
    (past (before ++ text)).offset = (past before).offset + (String.ofList text).utf8ByteSize :=
  utf8ByteSize_ofList_append before text

theorem eq_nil_of_offset_eq (before : List Char) {text : List Char}
    (hoffset : (past (before ++ text)).offset = (past before).offset) : text = [] := by
  by_contra hne
  have hpos := utf8ByteSize_ofList_pos hne
  rw [offset_past_append] at hoffset
  omega

/-- Going forward to a byte where some part of the text ends comes to the end of that part. -/
theorem advanceTo_append (before front after : List Char) :
    advanceTo (past (before ++ front)).offset (past before) (front ++ after) =
      past (before ++ front) := by
  induction front generalizing before with
  | nil => cases after <;> simp [advanceTo]
  | cons c front ih =>
    have hsize := offset_past_append before (c :: front)
    have hpos := utf8ByteSize_ofList_pos (List.cons_ne_nil c front)
    have hmore := ih (before ++ [c])
    rw [List.append_assoc, List.singleton_append] at hmore
    rw [List.cons_append, advanceTo, if_pos (by omega), step_past, hmore]

theorem exists_advanceTo_eq (offset : Nat) (before text : List Char) :
    ∃ front after, text = front ++ after ∧
      advanceTo offset (past before) text = past (before ++ front) := by
  induction text generalizing before with
  | nil => exact ⟨[], [], rfl, by rw [advanceTo, List.append_nil]⟩
  | cons c text ih =>
    by_cases hlt : (past before).offset < offset
    · obtain ⟨front, after, rfl, hadvance⟩ := ih (before ++ [c])
      refine ⟨c :: front, after, rfl, ?_⟩
      rw [advanceTo, if_pos hlt, step_past, hadvance, List.append_assoc, List.singleton_append]
    · exact ⟨[], c :: text, rfl, by rw [advanceTo, if_neg hlt, List.append_nil]⟩

end Position

namespace Location

/-- The row and the column are those of the byte that the span starts at. -/
def Agrees (location : Location) (source : String) : Prop :=
  ∃ before after : String, source = before ++ after ∧
    location.span.start = before.utf8ByteSize ∧
    location.row = before.toList.count '\n' ∧
    location.col = (before.toList.reverse.takeWhile (· ≠ '\n')).length

theorem agrees_iff_exists_past (location : Location) (source : String) :
    location.Agrees source ↔ ∃ before after, source.toList = before ++ after ∧
      Position.past before = ⟨location.row, location.col, location.span.start⟩ := by
  constructor
  · rintro ⟨before, after, rfl, hstart, hrow, hcol⟩
    refine ⟨before.toList, after.toList, String.toList_append, ?_⟩
    rw [hstart, hrow, hcol, Position.past, String.ofList_toList]
  · rintro ⟨before, after, hsource, hpast⟩
    obtain ⟨hrow, hcol, hstart⟩ := Position.mk.inj hpast
    refine ⟨String.ofList before, String.ofList after, ?_, hstart.symm, ?_, ?_⟩
    · rw [← String.ofList_append, ← hsource, String.ofList_toList]
    · rw [String.toList_ofList, hrow]
    · rw [String.toList_ofList, hcol]

/-- The place that a report works out from the byte is then the row and column of the location. -/
theorem agrees_iff_advanceTo (location : Location) (source : String) :
    location.Agrees source ↔ Position.advanceTo location.span.start {} source.toList =
      ⟨location.row, location.col, location.span.start⟩ := by
  rw [agrees_iff_exists_past]
  constructor
  · rintro ⟨before, after, hsource, hpast⟩
    have hadvance := Position.advanceTo_append [] before after
    rw [List.nil_append, hpast, ← hsource] at hadvance
    exact hadvance
  · intro hadvance
    obtain ⟨before, after, hsource, hpast⟩ :=
      Position.exists_advanceTo_eq location.span.start [] source.toList
    exact ⟨before, after, hsource, hpast.symm.trans hadvance⟩

end Location

theorem Token.StandsIn.agrees {token : Token} {source : String} (hstands : token.StandsIn source) :
    token.location.Agrees source := by
  obtain ⟨before, after, hsource, hspan, hrow, hcol, -⟩ := hstands
  refine ⟨before, token.lexeme ++ after, ?_, ?_, hrow, hcol⟩
  · rw [hsource, String.append_assoc]
  · rw [hspan]

namespace TokenStream

/-- What the parser returns keeps tokens that come before everything it reports. -/
theorem exists_significant_eq (stream : TokenStream) :
    ∃ read rest, stream.significant = read ++ rest ∧
      stream.parse.unit.tokens = read.filter Token.isStored ∧
      ∀ d ∈ stream.parse.diagnostics,
        (∃ t ∈ rest, d.location = t.location) ∨ d.location = stream.ending.location := by
  obtain ⟨unit, rest, failures, again, hreads⟩ := Parser.exists_readsUnit stream.significant
  obtain ⟨read, hsignificant, hunit⟩ := hreads.exists_append
  rw [parse_of_readsUnit hreads]
  exact ⟨read, rest, hsignificant, Grammar.stores_unit hunit,
    fun d hd => location_of_mem hreads.nested hd⟩

/-- The byte where the last token ends. -/
def stopOfLast (stream : TokenStream) : Nat :=
  (stream.tokens.getLast?.map fun token => token.location.span.stop).getD 0

theorem endOf_of_standsIn {token : Token} {source : String} (hstands : token.StandsIn source) :
    ∃ read gap, source.toList = read ++ gap ∧
      token.location.span.stop = (Position.past read).offset ∧
      endOf token = Position.past read := by
  obtain ⟨before, after, hsource, hspan, hrow, hcol, -⟩ := hstands
  have hstart : (⟨token.location.row, token.location.col, token.location.span.start⟩ : Position) =
      .past before.toList := by
    rw [hspan, hrow, hcol, Position.past, String.ofList_toList]
  refine ⟨before.toList ++ token.lexeme.toList, after.toList, ?_, ?_, ?_⟩
  · rw [hsource, String.toList_append, String.toList_append]
  · rw [hspan, Position.offset_past_append, Position.past, String.ofList_toList,
      String.ofList_toList]
  · rw [endOf, hstart, Position.advance_past]

/-- The row and column of the end of the input are those just past the last token of the text. -/
theorem exists_ending_ofString (source : String) :
    ∃ read gap, source.toList = read ++ gap ∧
      (ofString source).stopOfLast = (Position.past read).offset ∧
      (ofString source).ending.location = ⟨(Position.past read).row, (Position.past read).col,
        ⟨source.utf8ByteSize, source.utf8ByteSize⟩⟩ := by
  have htokens : (ofString source).tokens = tokenize source := rfl
  cases hlast : (tokenize source).getLast? with
  | none =>
    refine ⟨[], source.toList, rfl, ?_, ?_⟩
    · rw [stopOfLast, htokens, hlast]
      rfl
    · rw [ending, htokens, hlast]
      rfl
  | some token =>
    have hstands := (tiles_tokenize source).standing token (List.mem_of_getLast? hlast)
    obtain ⟨read, gap, hsource, hstop, hend⟩ := endOf_of_standsIn hstands
    refine ⟨read, gap, hsource, ?_, ?_⟩
    · rw [stopOfLast, htokens, hlast]
      exact hstop
    · rw [ending, htokens, hlast, Option.map_some, Option.getD_some, hend]
      rfl

/-- At the end of the input row and column agree with the byte exactly if the text ends with its
last token. -/
theorem agrees_ending_iff (source : String) :
    (ofString source).ending.location.Agrees source ↔
      (ofString source).stopOfLast = source.utf8ByteSize := by
  obtain ⟨read, gap, hsource, hstop, hending⟩ := exists_ending_ofString source
  have hwhole : (Position.past source.toList).offset = source.utf8ByteSize := by
    rw [Position.past, String.ofList_toList]
  rw [Location.agrees_iff_exists_past, hending, hstop]
  constructor
  · rintro ⟨before, after, htext, hpast⟩
    -- the end of the text is the only place with all of its bytes before it
    have hafter : after = [] :=
      Position.eq_nil_of_offset_eq before (by rw [← htext, hwhole, hpast])
    rw [hafter, List.append_nil] at htext
    rw [← htext, hsource] at hpast
    have hgap : gap = [] := Position.eq_nil_of_past_eq (by rw [hpast]) (by rw [hpast])
    rw [← hwhole, hsource, hgap, List.append_nil]
  · intro hlength
    have hgap : gap = [] :=
      Position.eq_nil_of_offset_eq read (by rw [← hsource, hwhole, hlength])
    refine ⟨read, gap, hsource, ?_⟩
    rw [← hlength]

end TokenStream

/-- Every diagnostic lies at a token of the text or at the end of the input. -/
theorem location_of_mem_diagnostics {source : String} {d : Diagnostic}
    (hmem : d ∈ (compile source).diagnostics) :
    (∃ t ∈ tokenize source, d.location = t.location) ∨
      d.location = (TokenStream.ofString source).ending.location := by
  obtain ⟨read, rest, hsignificant, htokens, hparsed⟩ :=
    (TokenStream.ofString source).exists_significant_eq
  have hsubset : read ++ rest ⊆ tokenize source := by
    rw [← hsignificant]
    exact List.filter_subset_self _
  rcases List.mem_append.mp hmem with hmem | hmem
  · refine (hparsed d hmem).imp_left ?_
    rintro ⟨t, ht, hlocation⟩
    exact ⟨t, hsubset (List.mem_append_right _ ht), hlocation⟩
  · obtain ⟨problem, t, -, ht, rfl⟩ := CompilationUnit.diagnostics_analyze_reports _ d hmem
    rw [htokens] at ht
    exact .inl ⟨t, hsubset (List.mem_append_left _ (List.mem_of_mem_filter ht)), rfl⟩

/-- The two places that a diagnostic gives agree, unless it lies at the end of the input and the
text goes on after the last token. -/
theorem agrees_iff_of_mem_diagnostics (source : String) :
    ∀ d ∈ (compile source).diagnostics,
      (d.location.Agrees source ↔ d.location.span.start < source.utf8ByteSize ∨
        (TokenStream.ofString source).stopOfLast = source.utf8ByteSize) ∧
      (source.utf8ByteSize ≤ d.location.span.start →
        d.location = (TokenStream.ofString source).ending.location) := by
  intro d hmem
  have htiles := tiles_tokenize source
  rcases location_of_mem_diagnostics hmem with ⟨t, ht, hlocation⟩ | hlocation
  · have hinside : d.location.span.start < source.utf8ByteSize := by
      rw [hlocation]
      exact Nat.lt_of_lt_of_le (htiles.nonempty t ht) (htiles.stop_le ht)
    have hagrees : d.location.Agrees source := hlocation ▸ (htiles.standing t ht).agrees
    exact ⟨⟨fun _ => .inl hinside, fun _ => hagrees⟩, fun hpast => absurd hinside (by omega)⟩
  · have hstart : d.location.span.start = source.utf8ByteSize := by
      rw [hlocation]
      rfl
    refine ⟨?_, fun _ => hlocation⟩
    rw [hstart, hlocation, TokenStream.agrees_ending_iff]
    simp

/-- A declaration that is not ended, with nothing after it. -/
theorem agrees_unendedText :
    ∃ d ∈ (compile "variable @x").diagnostics,
      d.location.span.start = 11 ∧ d.location.Agrees "variable @x" := by
  let ending : Token := .ending ⟨0, 11, ⟨11, 11⟩⟩
  have hmem : Diagnostic.ofSyntax (.missing .variableEnd ending) ∈
      (compile "variable @x").diagnostics := by decide +kernel
  refine ⟨_, hmem, rfl, (agrees_iff_of_mem_diagnostics _ _ hmem).1.mpr (.inr ?_)⟩
  decide +kernel

/-- After a declaration that is not ended, a newline parts the two places: the byte is that of the
next row, the row and the column are those of the place before. -/
theorem not_agrees_unendedLine :
    ∃ d ∈ (compile "variable @x\n").diagnostics,
      d.location = ⟨0, 11, ⟨12, 12⟩⟩ ∧ ¬ d.location.Agrees "variable @x\n" := by
  let ending : Token := .ending ⟨0, 11, ⟨12, 12⟩⟩
  have hmem : Diagnostic.ofSyntax (.missing .variableEnd ending) ∈
      (compile "variable @x\n").diagnostics := by decide +kernel
  refine ⟨_, hmem, rfl, ?_⟩
  rw [Location.agrees_iff_advanceTo]
  decide

end FrontEnd
