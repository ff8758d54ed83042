import FrontEnd.Proofs.Token.Extent
import FrontEnd.Proofs.Token.Position
import FrontEnd.Token.Lexer

/-!
The tokens of a text tile it: in order and without overlap, each of them on the text it was read
from, with nothing but blanks between them.
-/

namespace FrontEnd

/-- The token is what the first class that recognizes the text reads at some place of it, and its
location says which place that is. -/
def Token.StandsIn (token : Token) (source : String) : Prop :=
  ∃ before after : String,
    source = before ++ token.lexeme ++ after ∧
    token.location.span =
      ⟨before.utf8ByteSize, before.utf8ByteSize + token.lexeme.utf8ByteSize⟩ ∧
    token.location.row = before.toList.count '\n' ∧
    token.location.col = (before.toList.reverse.takeWhile (· ≠ '\n')).length ∧
    classify TokenClass.byPriority (token.lexeme.toList ++ after.toList) =
      (token.kind, token.lexeme.length)

/-- Tokens that stand in a text one after another and leave nothing but blanks. -/
structure Tiles (tokens : List Token) (source : String) : Prop where
  standing : ∀ token ∈ tokens, token.StandsIn source
  nonempty : ∀ token ∈ tokens, token.location.span.start < token.location.span.stop
  ordered : tokens.Pairwise fun token later =>
    token.location.span.stop ≤ later.location.span.start
  kind_ne : ∀ token ∈ tokens, token.kind ≠ .endOfInput
  /-- A character that no token covers lies before, between or after the tokens. -/
  covering : ∀ (before after : String) (c : Char), source = before ++ String.singleton c ++ after →
    (∀ token ∈ tokens, ¬ (token.location.span.start ≤ before.utf8ByteSize ∧
      before.utf8ByteSize < token.location.span.stop)) →
    c = ' ' ∨ c = '\t' ∨ c = '\r' ∨ c = '\n'

/-! ### One token -/

namespace Lexer

/-- What reading one token does to a text of which some part has been read. -/
structure Step (before : List Char) (lexer : Lexer) (token : Token) (after : Lexer)
    (gap lexeme : List Char) : Prop where
  blank : ∀ c ∈ gap, isBlank c
  begins : ∀ c ∈ lexeme.head?, isBlank c = false
  rest_eq : lexer.rest = gap ++ lexeme ++ after.rest
  takes : Takes (lexeme ++ after.rest) (token.kind, lexeme.length)
  classified : classify TokenClass.byPriority (lexeme ++ after.rest) = (token.kind, lexeme.length)
  lexeme_eq : token.lexeme = String.ofList lexeme
  location_eq : token.location = (Position.past (before ++ gap)).locate lexeme
  position_eq : after.position = .past (before ++ gap ++ lexeme)

theorem skipBlanks_position {lexer : Lexer} {before : List Char}
    (hposition : lexer.position = .past before) :
    lexer.skipBlanks.position = .past (before ++ lexer.rest.takeWhile isBlank) := by
  rw [skipBlanks, hposition, Position.advance_past]

/-- A token comes after blanks, if any, and starts with a character that is none. -/
theorem exists_gap_of_nextBy? {order : List TokenClass} {lexer after : Lexer} {token : Token}
    (hnext : lexer.nextBy? order = some (token, after)) :
    ∃ gap c text, lexer.rest = gap ++ c :: text ∧ (∀ d ∈ gap, isBlank d = true) ∧
      isBlank c = false := by
  have hstop := List.head?_dropWhile_not isBlank lexer.rest
  cases hrest : lexer.rest.dropWhile isBlank with
  | nil => simp [nextBy?, skipBlanks, hrest] at hnext
  | cons c text =>
    rw [hrest] at hstop
    refine ⟨lexer.rest.takeWhile isBlank, c, text, ?_, fun d hmem => List.mem_takeWhile_imp hmem,
      by simpa using hstop⟩
    rw [← hrest, List.takeWhile_append_dropWhile]

theorem nextBy?_of_gap {order : List TokenClass} {gap text : List Char} {c : Char}
    {kind : TokenKind} {length : Nat} (hgap : ∀ d ∈ gap, isBlank d = true)
    (hc : isBlank c = false) (hread : classify order (c :: text) = (kind, length))
    (position : Position) :
    let lexeme := c :: text.take (length - 1)
    nextBy? order ⟨gap ++ c :: text, position⟩ =
      some (⟨kind, String.ofList lexeme, (position.advance gap).locate lexeme⟩,
        ⟨text.drop (length - 1), (position.advance gap).advance lexeme⟩) := by
  have hstop : ¬ isBlank c = true := by simp [hc]
  have hskip : skipBlanks ⟨gap ++ c :: text, position⟩ = ⟨c :: text, position.advance gap⟩ := by
    rw [skipBlanks, List.takeWhile_append_of_pos hgap, List.dropWhile_append_of_pos hgap,
      List.takeWhile_cons_of_neg hstop, List.dropWhile_cons_of_neg hstop, List.append_nil]
  simp only [nextBy?, hskip, hread]

theorem step_of_nextBy? {lexer after : Lexer} {before : List Char} {token : Token}
    (hposition : lexer.position = .past before)
    (hnext : lexer.nextBy? TokenClass.byPriority = some (token, after)) :
    ∃ gap lexeme, Step before lexer token after gap lexeme := by
  obtain ⟨gap, c, text, hrest, hgap, hblank⟩ := exists_gap_of_nextBy? hnext
  have htakes := classify_takes TokenClass.byPriority (List.cons_ne_nil c text)
  cases hread : classify TokenClass.byPriority (c :: text) with
  | mk kind length =>
    have hfound := nextBy?_of_gap hgap hblank hread lexer.position
    rw [← hrest, hnext] at hfound
    obtain ⟨rfl, rfl⟩ := Prod.mk.inj (Option.some.inj hfound)
    rw [hread] at htakes
    -- the token takes as many characters as its class says
    have hlength : (c :: text.take (length - 1)).length = length := by
      have hpos := htakes.pos
      have hle := htakes.le
      simp only [List.length_cons] at hpos hle
      rw [List.length_cons, List.length_take, Nat.min_eq_left (by omega)]
      omega
    have hwhole : c :: text.take (length - 1) ++ text.drop (length - 1) = c :: text := by
      rw [List.cons_append, List.take_append_drop]
    refine ⟨gap, c :: text.take (length - 1), hgap, ?_, ?_, ?_, ?_, rfl, ?_, ?_⟩
    · intro d hhead
      rwa [← Option.some.inj hhead]
    · rw [List.append_assoc, hwhole, hrest]
    · rw [hwhole, hlength]
      exact htakes
    · rw [hwhole, hlength]
      exact hread
    · rw [hposition, Position.advance_past]
    · rw [hposition, Position.advance_past, Position.advance_past]

theorem blank_of_nextBy?_eq_none {order : List TokenClass} {lexer : Lexer}
    (hnext : lexer.nextBy? order = none) : ∀ c ∈ lexer.rest, isBlank c := by
  unfold nextBy? at hnext
  split at hnext
  · next position hlexer =>
    have hrest : lexer.rest.dropWhile isBlank = [] := congrArg Lexer.rest hlexer
    exact List.dropWhile_eq_nil_iff.mp hrest
  · cases hnext

namespace Step

variable {before gap lexeme : List Char} {lexer after : Lexer} {token : Token}

theorem text_eq (hstep : Step before lexer token after gap lexeme) :
    before ++ lexer.rest = before ++ gap ++ lexeme ++ after.rest := by
  rw [hstep.rest_eq]
  simp only [List.append_assoc]

theorem start_eq (hstep : Step before lexer token after gap lexeme) :
    token.location.span.start = (String.ofList (before ++ gap)).utf8ByteSize := by
  rw [hstep.location_eq]
  rfl

theorem stop_eq (hstep : Step before lexer token after gap lexeme) :
    token.location.span.stop = (String.ofList (before ++ gap ++ lexeme)).utf8ByteSize := by
  rw [hstep.location_eq, Position.locate, Position.advance_past]
  rfl

theorem start_lt_stop (hstep : Step before lexer token after gap lexeme) :
    token.location.span.start < token.location.span.stop := by
  have hsize := Position.utf8ByteSize_ofList_append (before ++ gap) lexeme
  have hpos := Position.utf8ByteSize_ofList_pos (List.length_pos_iff.mp hstep.takes.pos)
  rw [hstep.start_eq, hstep.stop_eq]
  omega

theorem standsIn (hstep : Step before lexer token after gap lexeme) :
    token.StandsIn (String.ofList (before ++ lexer.rest)) := by
  refine ⟨String.ofList (before ++ gap), String.ofList after.rest, ?_, ?_, ?_, ?_, ?_⟩
  · rw [hstep.text_eq, hstep.lexeme_eq, String.ofList_append, String.ofList_append]
  · have hsize := Position.utf8ByteSize_ofList_append (before ++ gap) lexeme
    rw [hstep.lexeme_eq, ← hsize, ← hstep.start_eq, ← hstep.stop_eq]
  · rw [hstep.location_eq, String.toList_ofList]
    rfl
  · rw [hstep.location_eq, String.toList_ofList]
    rfl
  · rw [hstep.lexeme_eq, String.toList_ofList, String.toList_ofList, String.length_ofList]
    exact hstep.classified

end Step

/-! ### The whole text -/

/-- The tokens that are read one after another, up to a rest of blanks. -/
inductive Reading : List Char → Lexer → List Token → Prop
  | done {before : List Char} {lexer : Lexer} (hblank : ∀ c ∈ lexer.rest, isBlank c) :
      Reading before lexer []
  | step {before gap lexeme : List Char} {lexer after : Lexer} {token : Token}
      {tokens : List Token} (hstep : Step before lexer token after gap lexeme)
      (hrest : Reading (before ++ gap ++ lexeme) after tokens) :
      Reading before lexer (token :: tokens)

theorem reading_tokensBy (lexer : Lexer) (before : List Char)
    (hposition : lexer.position = .past before) :
    Reading before lexer (lexer.tokensBy TokenClass.byPriority) := by
  unfold tokensBy
  split
  · next hnext => exact .done (blank_of_nextBy?_eq_none hnext)
  · next token after hnext =>
    obtain ⟨gap, lexeme, hstep⟩ := step_of_nextBy? hposition hnext
    exact .step hstep (reading_tokensBy after _ hstep.position_eq)
termination_by lexer.rest.length
decreasing_by exact length_rest_of_nextBy? ‹_›

namespace Reading

variable {before : List Char} {lexer : Lexer} {tokens : List Token}

theorem standsIn (hreading : Reading before lexer tokens) :
    ∀ token ∈ tokens, token.StandsIn (String.ofList (before ++ lexer.rest)) := by
  induction hreading with
  | done => simp
  | step hstep hrest ih =>
    intro token hmem
    rcases List.mem_cons.mp hmem with rfl | hmem
    · exact hstep.standsIn
    · rw [hstep.text_eq]
      exact ih token hmem

theorem start_lt_stop (hreading : Reading before lexer tokens) :
    ∀ token ∈ tokens, token.location.span.start < token.location.span.stop := by
  induction hreading with
  | done => simp
  | step hstep hrest ih => exact List.forall_mem_cons.mpr ⟨hstep.start_lt_stop, ih⟩

theorem kind_ne (hreading : Reading before lexer tokens) :
    ∀ token ∈ tokens, token.kind ≠ .endOfInput := by
  induction hreading with
  | done => simp
  | step hstep hrest ih => exact List.forall_mem_cons.mpr ⟨hstep.takes.kind_ne, ih⟩

theorem le_start (hreading : Reading before lexer tokens) :
    ∀ token ∈ tokens, (String.ofList before).utf8ByteSize ≤ token.location.span.start := by
  induction hreading with
  | done => simp
  | @step before gap lexeme lexer after token tokens hstep hrest ih =>
    have hgap := Position.utf8ByteSize_ofList_append before gap
    have hlexeme := Position.utf8ByteSize_ofList_append (before ++ gap) lexeme
    refine List.forall_mem_cons.mpr ⟨?_, fun later hmem => ?_⟩
    · rw [hstep.start_eq]
      omega
    · have hle := ih later hmem
      omega

theorem ordered (hreading : Reading before lexer tokens) :
    tokens.Pairwise fun token later => token.location.span.stop ≤ later.location.span.start := by
  induction hreading with
  | done => exact .nil
  | step hstep hrest ih =>
    refine .cons (fun later hmem => ?_) ih
    rw [hstep.stop_eq]
    exact hrest.le_start later hmem

theorem covering (hreading : Reading before lexer tokens) {front back : List Char} {c : Char}
    (htext : front ++ c :: back = before ++ lexer.rest)
    (hbefore : (String.ofList before).utf8ByteSize ≤ (String.ofList front).utf8ByteSize)
    (hfree : ∀ token ∈ tokens, ¬ (token.location.span.start ≤ (String.ofList front).utf8ByteSize ∧
      (String.ofList front).utf8ByteSize < token.location.span.stop)) :
    isBlank c := by
  induction hreading with
  | done hblank =>
    obtain ⟨middle, -, hrest⟩ := Position.exists_append_of_utf8ByteSize_le htext hbefore
    exact hblank c (by simp [hrest])
  | @step before gap lexeme lexer after token tokens hstep hrest ih =>
    obtain ⟨hfirst, hlater⟩ := List.forall_mem_cons.mp hfree
    rw [hstep.start_eq, hstep.stop_eq] at hfirst
    by_cases hpast : (String.ofList (before ++ gap ++ lexeme)).utf8ByteSize ≤
        (String.ofList front).utf8ByteSize
    · exact ih (by rw [htext, hstep.text_eq]) hpast hlater
    · -- the token does not cover the character, so that it lies in the gap
      obtain ⟨middle, rfl, htail⟩ := Position.exists_append_of_utf8ByteSize_le htext hbefore
      have hgap := Position.utf8ByteSize_ofList_append before gap
      have hmiddle := Position.utf8ByteSize_ofList_append before middle
      rw [hstep.rest_eq, List.append_assoc] at htail
      exact hstep.blank c (Position.mem_of_utf8ByteSize_lt htail.symm (by omega))

end Reading

/-! ### Reading on -/

/-- The text that is left after so many tokens have been asked for. -/
def after (lexer : Lexer) : Nat → Lexer
  | 0 => lexer
  | count + 1 => lexer.next.2.after count

theorem tokensBy_of_none {order : List TokenClass} {lexer : Lexer}
    (hnext : lexer.nextBy? order = none) : lexer.tokensBy order = [] := by
  unfold tokensBy
  split
  · rfl
  · next hsome => rw [hnext] at hsome; cases hsome

theorem tokensBy_of_some {order : List TokenClass} {lexer after : Lexer} {token : Token}
    (hnext : lexer.nextBy? order = some (token, after)) :
    lexer.tokensBy order = token :: after.tokensBy order := by
  rw [tokensBy]
  split
  · next hnone => rw [hnext] at hnone; cases hnone
  · next hsome =>
    rw [hnext] at hsome
    obtain ⟨rfl, rfl⟩ := Prod.mk.inj (Option.some.inj hsome)
    rfl

/-- Blanks in front of a text only move its tokens. -/
theorem tokensBy_of_gap {order : List TokenClass} {gap : List Char}
    (hgap : ∀ c ∈ gap, isBlank c = true) (text : List Char) (position : Position) :
    tokensBy order ⟨gap ++ text, position⟩ = tokensBy order ⟨text, position.advance gap⟩ := by
  have hskip : skipBlanks ⟨gap ++ text, position⟩ = skipBlanks ⟨text, position.advance gap⟩ := by
    simp only [skipBlanks, List.dropWhile_append_of_pos hgap, List.takeWhile_append_of_pos hgap,
      Position.advance, List.foldl_append]
  have hnext : nextBy? order ⟨gap ++ text, position⟩ =
      nextBy? order ⟨text, position.advance gap⟩ := by rw [nextBy?, nextBy?, hskip]
  cases hread : nextBy? order ⟨text, position.advance gap⟩ with
  | none => rw [tokensBy_of_none hread, tokensBy_of_none (hnext.trans hread)]
  | some found => rw [tokensBy_of_some hread, tokensBy_of_some (hnext.trans hread)]

theorem skipBlanks_of_nextBy?_eq_none {order : List TokenClass} {lexer : Lexer}
    {before : List Char} (hposition : lexer.position = .past before)
    (hnext : lexer.nextBy? order = none) :
    lexer.skipBlanks = ⟨[], .past (before ++ lexer.rest)⟩ := by
  have hblank := blank_of_nextBy?_eq_none hnext
  have hskip := skipBlanks_position hposition
  rw [List.takeWhile_eq_self_iff.mpr hblank] at hskip
  have hrest : lexer.skipBlanks.rest = [] := List.dropWhile_eq_nil_iff.mpr hblank
  rw [← hskip, ← hrest]

/-- Asking for one token after another gives the tokens of the text and then, without end, the token
that stands at the end of the text. -/
theorem next_after (count : Nat) (lexer : Lexer) (before : List Char)
    (hposition : lexer.position = .past before) :
    (lexer.after count).next.1 = (lexer.tokensBy TokenClass.byPriority)[count]?.getD
      (.ending ((Position.past (before ++ lexer.rest)).locate [])) := by
  induction count generalizing lexer before with
  | zero =>
    cases hnext : lexer.nextBy? TokenClass.byPriority with
    | none =>
      have hskip := skipBlanks_of_nextBy?_eq_none hposition hnext
      simp [after, next, hnext, hskip, tokensBy_of_none hnext]
    | some found => simp [after, next, hnext, tokensBy_of_some hnext]
  | succ count ih =>
    cases hnext : lexer.nextBy? TokenClass.byPriority with
    | none =>
      have hskip := skipBlanks_of_nextBy?_eq_none hposition hnext
      have hmore : lexer.next.2 = ⟨[], .past (before ++ lexer.rest)⟩ := by
        rw [← hskip, next, hnext, Option.getD_none]
      have hnone : nextBy? TokenClass.byPriority ⟨[], .past (before ++ lexer.rest)⟩ = none := rfl
      rw [after, hmore, ih _ (before ++ lexer.rest) rfl, tokensBy_of_none hnone,
        tokensBy_of_none hnext, List.append_nil]
      rfl
    | some found =>
      obtain ⟨token, later⟩ := found
      obtain ⟨gap, lexeme, hstep⟩ := step_of_nextBy? hposition hnext
      have hmore : lexer.next.2 = later := by rw [next, hnext, Option.getD_some]
      rw [after, hmore, ih later _ hstep.position_eq, ← hstep.text_eq, tokensBy_of_some hnext,
        List.getElem?_cons_succ]

end Lexer

theorem tiles_tokenize (source : String) : Tiles (tokenize source) source := by
  have hreading : Lexer.Reading [] (Lexer.ofString source) (tokenize source) :=
    Lexer.reading_tokensBy (Lexer.ofString source) [] rfl
  have htext : String.ofList ([] ++ (Lexer.ofString source).rest) = source := String.ofList_toList
  refine ⟨?_, hreading.start_lt_stop, hreading.ordered, hreading.kind_ne, ?_⟩
  · have hstanding := hreading.standsIn
    rwa [htext] at hstanding
  · intro before after c hsource hfree
    have hlist : before.toList ++ c :: after.toList = [] ++ (Lexer.ofString source).rest := by
      rw [Lexer.ofString, hsource, String.toList_append, String.toList_append]
      simp
    rw [← String.ofList_toList (s := before)] at hfree
    have hblank := hreading.covering hlist (Nat.zero_le _) hfree
    simpa [isBlank, or_assoc] using hblank

/-- The tokens of a text tile it, and asking for tokens beyond the last one gives the end of the
text every time. -/
theorem tokenize_tiles_source (source : String) :
    Tiles (tokenize source) source ∧
      ∀ count, ((Lexer.ofString source).after count).next.1 =
        (tokenize source)[count]?.getD
          (.ending ⟨source.toList.count '\n', (source.toList.reverse.takeWhile (· ≠ '\n')).length,
            ⟨source.utf8ByteSize, source.utf8ByteSize⟩⟩) := by
  refine ⟨tiles_tokenize source, fun count => ?_⟩
  rw [Lexer.next_after count (Lexer.ofString source) [] rfl]
  simp [Position.locate, Position.past, Lexer.ofString, tokenize, tokenizeBy]

/-- No token reaches beyond the end of the text. -/
theorem Tiles.stop_le {tokens : List Token} {source : String} (htiles : Tiles tokens source)
    {token : Token} (hmem : token ∈ tokens) : token.location.span.stop ≤ source.utf8ByteSize := by
  obtain ⟨before, after, hsource, hspan, -⟩ := htiles.standing token hmem
  rw [hspan, hsource, String.utf8ByteSize_append, String.utf8ByteSize_append]
  simp only
  omega

/-- Every token starts before the next one. -/
theorem Tiles.pairwise_start {tokens : List Token} {source : String}
    (htiles : Tiles tokens source) :
    tokens.Pairwise fun token later => token.location.span.start < later.location.span.start := by
  refine htiles.ordered.imp_of_mem ?_
  intro token later hmem _ hordered
  have hnonempty := htiles.nonempty token hmem
  omega

end FrontEnd
