import FrontEnd.Proofs.Token.Reach
import FrontEnd.Proofs.Token.Tiling

/-!
Texts in front of each other. Only a delimiter without its closing character makes the tokens of
some lines depend on the lines below them; the tokens of those lines are the same wherever they
begin.
-/

namespace FrontEnd

/-! ### Lines in front -/

/-- The same column of the same line, with some rows in front of the text. -/
def Position.below (position : Position) (rows bytes : Nat) : Position :=
  ⟨position.row + rows, position.col, position.offset + bytes⟩

@[inherit_doc Position.below]
def Location.below (location : Location) (rows bytes : Nat) : Location :=
  ⟨location.row + rows, location.col, ⟨location.span.start + bytes, location.span.stop + bytes⟩⟩

/-- The token as it is read with some rows in front of the text. -/
def Token.below (token : Token) (rows bytes : Nat) : Token :=
  { token with location := token.location.below rows bytes }

def Lexer.below (lexer : Lexer) (rows bytes : Nat) : Lexer :=
  ⟨lexer.rest, lexer.position.below rows bytes⟩

section

variable (rows bytes : Nat)

namespace Position

theorem step_below (position : Position) (c : Char) :
    (position.below rows bytes).step c = (position.step c).below rows bytes := by
  unfold step
  split <;> simp [below, Nat.add_right_comm]

theorem advance_below (position : Position) (text : List Char) :
    (position.below rows bytes).advance text = (position.advance text).below rows bytes := by
  induction text generalizing position with
  | nil => rfl
  | cons c text ih => rw [advance_cons, advance_cons, step_below, ih]

theorem locate_below (position : Position) (text : List Char) :
    (position.below rows bytes).locate text = (position.locate text).below rows bytes := by
  rw [locate, advance_below]
  rfl

/-- After whole lines, a text begins in the first column. -/
theorem past_eq_below {text : List Char} (hends : ∀ c ∈ text.getLast?, c = '\n') :
    past text = ({} : Position).below (text.count '\n') (String.ofList text).utf8ByteSize := by
  have hcol : text.reverse.takeWhile (· ≠ '\n') = [] := by
    rw [← List.head?_reverse] at hends
    cases hreverse : text.reverse with
    | nil => rfl
    | cons c rest => simp [hends c (by rw [hreverse]; rfl)]
  rw [past, hcol]
  simp [below]

end Position

namespace Lexer

theorem skipBlanks_below (lexer : Lexer) :
    (lexer.below rows bytes).skipBlanks = lexer.skipBlanks.below rows bytes := by
  rw [skipBlanks, below, Position.advance_below]
  rfl

theorem nextBy?_below (order : List TokenClass) (lexer : Lexer) :
    (lexer.below rows bytes).nextBy? order =
      (lexer.nextBy? order).map fun (token, after) =>
        (token.below rows bytes, after.below rows bytes) := by
  rw [nextBy?, nextBy?, skipBlanks_below]
  cases hskip : lexer.skipBlanks with
  | mk rest position =>
    cases rest with
    | nil => rfl
    | cons c text =>
      simp only [below, Position.locate_below, Position.advance_below]
      rfl

/-- Text is read alike wherever it begins. -/
theorem tokensBy_below (order : List TokenClass) (lexer : Lexer) :
    (lexer.below rows bytes).tokensBy order =
      (lexer.tokensBy order).map fun token => token.below rows bytes := by
  have hbelow := nextBy?_below rows bytes order lexer
  cases hnext : lexer.nextBy? order with
  | none =>
    rw [hnext] at hbelow
    rw [tokensBy_of_none hbelow, tokensBy_of_none hnext, List.map_nil]
  | some found =>
    obtain ⟨token, after⟩ := found
    rw [hnext] at hbelow
    rw [tokensBy_of_some hbelow, tokensBy_of_some hnext, List.map_cons, tokensBy_below order after]
termination_by lexer.rest.length
decreasing_by exact length_rest_of_nextBy? hnext

end Lexer

end

/-! ### Lines below -/

namespace Lexer

/-- A token of whole lines is read the same with more text below. -/
theorem nextBy?_append {lexer after : Lexer} {token : Token}
    (hends : ∀ c ∈ lexer.rest.getLast?, c = '\n')
    (hnext : lexer.nextBy? TokenClass.byPriority = some (token, after))
    (hclosed : token.kind = .unknown →
      ∀ c ∈ token.lexeme.toList.head?, c ∉ TokenClass.delimiters) (more : List Char) :
    nextBy? TokenClass.byPriority ⟨lexer.rest ++ more, lexer.position⟩ =
      some (token, ⟨after.rest ++ more, after.position⟩) := by
  obtain ⟨gap, c, text, hrest, hgap, hblank⟩ := exists_gap_of_nextBy? hnext
  have hne : c :: text ≠ [] := List.cons_ne_nil c text
  cases hread : classify TokenClass.byPriority (c :: text) with
  | mk kind length =>
    have hfound := nextBy?_of_gap hgap hblank hread lexer.position
    rw [← hrest, hnext] at hfound
    obtain ⟨rfl, rfl⟩ := Prod.mk.inj (Option.some.inj hfound)
    have hline : '\n' ∈ c :: text := by
      rw [hrest, List.getLast?_append_of_ne_nil _ hne, List.getLast?_eq_some_getLast hne] at hends
      exact hends _ rfl ▸ List.getLast_mem hne
    have hfirst : ∀ d ∈ (c :: text).head?, d ≠ '\n' := by
      rintro d hhead rfl
      rw [Option.some.inj hhead] at hblank
      cases hblank
    have hclass : classify TokenClass.byPriority (c :: (text ++ more)) = (kind, length) := by
      refine (TokenClass.classify_append hfirst hline (fun hunknown d hhead => ?_) more).trans hread
      rw [hread] at hunknown
      exact hclosed hunknown d (by simpa using hhead)
    have hcount : length - 1 ≤ text.length := by
      have hle := (classify_takes TokenClass.byPriority hne).le
      rw [hread] at hle
      exact Nat.sub_le_of_le_add hle
    have hlonger := nextBy?_of_gap hgap hblank hclass lexer.position
    rw [List.take_append_of_le_length hcount, List.drop_append_of_le_length hcount] at hlonger
    rw [hrest, List.append_assoc, List.cons_append, hlonger]

/-- The tokens of whole lines are read the same with more text below, which is then read from the
end of the lines on. -/
theorem tokensBy_append (lexer : Lexer) (before : List Char)
    (hposition : lexer.position = .past before) (hends : ∀ c ∈ lexer.rest.getLast?, c = '\n')
    (hclosed : ∀ token ∈ lexer.tokensBy TokenClass.byPriority, token.kind = .unknown →
      ∀ c ∈ token.lexeme.toList.head?, c ∉ TokenClass.delimiters) (more : List Char) :
    tokensBy TokenClass.byPriority ⟨lexer.rest ++ more, lexer.position⟩ =
      lexer.tokensBy TokenClass.byPriority ++
        tokensBy TokenClass.byPriority ⟨more, .past (before ++ lexer.rest)⟩ := by
  cases hnext : lexer.nextBy? TokenClass.byPriority with
  | none =>
    rw [tokensBy_of_none hnext, tokensBy_of_gap (blank_of_nextBy?_eq_none hnext), hposition,
      Position.advance_past, List.nil_append]
  | some found =>
    obtain ⟨token, after⟩ := found
    obtain ⟨gap, lexeme, hstep⟩ := step_of_nextBy? hposition hnext
    rw [tokensBy_of_some hnext, List.forall_mem_cons] at hclosed
    have hleft : ∀ c ∈ after.rest.getLast?, c = '\n' := by
      intro c hlast
      refine hends c ?_
      rw [hstep.rest_eq, List.getLast?_append, Option.mem_def.mp hlast, Option.some_or]
      rfl
    rw [tokensBy_of_some (nextBy?_append hends hnext hclosed.1 more), tokensBy_of_some hnext,
      tokensBy_append after _ hstep.position_eq hleft hclosed.2 more, hstep.text_eq,
      List.cons_append]
termination_by lexer.rest.length
decreasing_by exact length_rest_of_nextBy? hnext

end Lexer

/-! ### Whole texts -/

/-- A text that ends with a line and leaves no delimiter open is read the same whatever comes below,
and what comes below is read as it is by itself, so many rows and bytes further down. -/
theorem tokenize_append {source : String} (hends : source.toList.getLast? = some '\n')
    (hclosed : ∀ token ∈ tokenize source, token.kind = .unknown →
      ∀ c ∈ token.lexeme.toList.head?, c ∉ ['~', '^', '«']) (more : String) :
    tokenize (source ++ more) = tokenize source ++ (tokenize more).map fun token =>
      token.below (source.toList.count '\n') source.utf8ByteSize := by
  have hlines : ∀ c ∈ source.toList.getLast?, c = '\n' := by
    intro c hlast
    exact Option.some.inj (hlast.symm.trans hends)
  have happend := Lexer.tokensBy_append (.ofString source) [] rfl hlines hclosed more.toList
  have hbelow := Lexer.tokensBy_below (source.toList.count '\n') source.utf8ByteSize
    TokenClass.byPriority (.ofString more)
  rw [tokenize, tokenizeBy, Lexer.ofString, String.toList_append]
  refine happend.trans (congrArg (tokenize source ++ ·) ?_)
  rw [List.nil_append, Lexer.ofString, Position.past_eq_below hlines, String.ofList_toList]
  exact hbelow

theorem tokenize_append_closedString :
    tokenize ("$ ~\n~\n" ++ "@y\n 1") =
      [⟨.unknown, "$", ⟨0, 0, ⟨0, 1⟩⟩⟩, ⟨.string, "~\n~", ⟨0, 2, ⟨2, 5⟩⟩⟩,
        ⟨.identifier, "@y", ⟨2, 0, ⟨6, 8⟩⟩⟩, ⟨.integer, "1", ⟨3, 1, ⟨10, 11⟩⟩⟩] := by
  have hsource : tokenize "$ ~\n~\n" =
      [⟨.unknown, "$", ⟨0, 0, ⟨0, 1⟩⟩⟩, ⟨.string, "~\n~", ⟨0, 2, ⟨2, 5⟩⟩⟩] := by decide +kernel
  have hmore : tokenize "@y\n 1" =
      [⟨.identifier, "@y", ⟨0, 0, ⟨0, 2⟩⟩⟩, ⟨.integer, "1", ⟨1, 1, ⟨4, 5⟩⟩⟩] := by decide +kernel
  rw [tokenize_append rfl (by simp [hsource]) "@y\n 1", hsource, hmore]
  rfl

end FrontEnd
