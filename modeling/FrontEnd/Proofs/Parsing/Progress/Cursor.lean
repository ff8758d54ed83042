import FrontEnd.Token.Stream

/-!
Where a reader of the grammar can stand in the whole list of tokens, comments included. It starts at
the first token that is no comment and goes on to the next such token, up to the end of the list.
Each of these places has its own rest of the significant tokens, and every shorter rest belongs to a
later place.
-/

namespace FrontEnd.TokenStream

/-- The first index, from the given one on, under which no comment stands. -/
def skipComments (stream : TokenStream) (index : Nat) : Nat :=
  index + (stream.tokens.drop index).findIdx fun token => !token.isComment

/-- The place before anything is read. -/
def start (stream : TokenStream) : Nat :=
  stream.skipComments 0

/-- The place after one more token is read. At the end nothing is left to read, and the place stays
the same. -/
def advance (stream : TokenStream) (cursor : Nat) : Nat :=
  if cursor < stream.tokens.length then stream.skipComments (cursor + 1) else cursor

/-- The places that are reached from the start, one token after the other. -/
inductive IsCursor (stream : TokenStream) : Nat → Prop
  | start : IsCursor stream stream.start
  | advance {cursor : Nat} : IsCursor stream cursor → IsCursor stream (stream.advance cursor)

/-- The significant tokens from an index on. -/
def remaining (stream : TokenStream) (index : Nat) : List Token :=
  (stream.tokens.drop index).filter fun token => !token.isComment

variable {stream : TokenStream} {cursor next index : Nat} {t : Token} {rest : List Token}

theorem skipComments_le (hindex : index ≤ stream.tokens.length) :
    stream.skipComments index ≤ stream.tokens.length := by
  have hfound : (stream.tokens.drop index).findIdx (fun token => !token.isComment) ≤
      (stream.tokens.drop index).length := List.findIdx_le_length
  rw [List.length_drop] at hfound
  rw [skipComments]
  omega

theorem isComment_skipComments (ht : t ∈ stream.tokens[stream.skipComments index]?) :
    t.isComment = false := by
  rw [skipComments, ← List.getElem?_drop, Option.mem_def, List.getElem?_eq_some_iff] at ht
  obtain ⟨hlt, rfl⟩ := ht
  have hfound := List.findIdx_getElem (w := hlt)
  simpa using hfound

/-- Nothing significant is skipped. -/
theorem remaining_skipComments (stream : TokenStream) (index : Nat) :
    stream.remaining (stream.skipComments index) = stream.remaining index := by
  rw [remaining, remaining, skipComments, ← List.drop_drop]
  generalize stream.tokens.drop index = tokens
  induction tokens with
  | nil => rfl
  | cons token tokens ih =>
    cases hcomment : token.isComment with
    | false => simp [List.findIdx_cons, hcomment]
    | true => simpa [List.findIdx_cons, hcomment] using ih

/-- Before anything is read, all significant tokens are left. -/
theorem remaining_start (stream : TokenStream) :
    stream.remaining stream.start = stream.significant :=
  stream.remaining_skipComments 0

/-- An index in the list or at its end, with no comment under it. -/
structure Stands (stream : TokenStream) (index : Nat) : Prop where
  le_length : index ≤ stream.tokens.length
  isComment_eq_false : ∀ t ∈ stream.tokens[index]?, t.isComment = false

theorem stands_skipComments (hindex : index ≤ stream.tokens.length) :
    stream.Stands (stream.skipComments index) where
  le_length := skipComments_le hindex
  isComment_eq_false _ ht := isComment_skipComments ht

theorem IsCursor.stands (hcursor : stream.IsCursor cursor) : stream.Stands cursor := by
  induction hcursor with
  | start => exact stands_skipComments (Nat.zero_le _)
  | @advance cursor _ ih =>
    rw [TokenStream.advance]
    split
    · next hlt => exact stands_skipComments hlt
    · exact ih

/-- There are no more significant tokens left than tokens. -/
theorem add_length_remaining_le (hcursor : cursor ≤ stream.tokens.length) :
    cursor + (stream.remaining cursor).length ≤ stream.tokens.length := by
  have hfilter := List.length_filter_le (fun token : Token => !token.isComment)
    (stream.tokens.drop cursor)
  rw [List.length_drop] at hfilter
  rw [remaining]
  omega

theorem remaining_suffix (stream : TokenStream) (hle : index ≤ next) :
    stream.remaining next <:+ stream.remaining index :=
  (List.drop_suffix_drop_left stream.tokens hle).filter _

/-- The token under an index is the first that is left there. -/
theorem Stands.remaining_eq (hstands : stream.Stands index) (hlt : index < stream.tokens.length) :
    stream.remaining index = stream.tokens[index] :: stream.remaining (index + 1) := by
  have hcomment := hstands.isComment_eq_false _ (List.getElem?_eq_getElem hlt)
  rw [remaining, List.drop_eq_getElem_cons hlt, List.filter_cons_of_pos (by simp [hcomment]),
    remaining]

/-- Of two places the later one has fewer tokens left. -/
theorem Stands.length_remaining_lt (hstands : stream.Stands index) (hlt : index < next)
    (hnext : next ≤ stream.tokens.length) :
    (stream.remaining next).length < (stream.remaining index).length := by
  have hlater := (stream.remaining_suffix (show index + 1 ≤ next by omega)).length_le
  rw [hstands.remaining_eq (by omega), List.length_cons]
  omega

/-- A place is known by the tokens that are left there. -/
theorem Stands.eq_of_remaining_eq (hindex : stream.Stands index) (hnext : stream.Stands next)
    (heq : stream.remaining index = stream.remaining next) : index = next := by
  rcases Nat.lt_trichotomy index next with hlt | heq | hlt
  · have hfewer := hindex.length_remaining_lt hlt hnext.le_length
    rw [heq] at hfewer
    omega
  · exact heq
  · have hfewer := hnext.length_remaining_lt hlt hindex.le_length
    rw [heq] at hfewer
    omega

/-- The tokens after the first are left at the next place. -/
theorem IsCursor.remaining_advance (hcursor : stream.IsCursor cursor)
    (hremaining : stream.remaining cursor = t :: rest) :
    stream.remaining (stream.advance cursor) = rest := by
  have hlt : cursor < stream.tokens.length := by
    refine Nat.lt_of_not_le fun hle => ?_
    rw [remaining, List.drop_eq_nil_of_le hle] at hremaining
    cases hremaining
  rw [hcursor.stands.remaining_eq hlt] at hremaining
  rw [TokenStream.advance, if_pos hlt, remaining_skipComments]
  exact (List.cons.inj hremaining).2

/-- Whatever rest of the tokens a parser leaves, it is what is left at some place. -/
theorem IsCursor.exists_of_suffix (hcursor : stream.IsCursor cursor)
    (hsuffix : rest <:+ stream.remaining cursor) :
    ∃ next, stream.IsCursor next ∧ stream.remaining next = rest := by
  generalize hremaining : stream.remaining cursor = tokens at hsuffix
  induction tokens generalizing cursor with
  | nil => exact ⟨cursor, hcursor, hremaining.trans (List.suffix_nil.mp hsuffix).symm⟩
  | cons t tokens ih =>
    rcases List.suffix_cons_iff.mp hsuffix with rfl | hsuffix
    · exact ⟨cursor, hcursor, hremaining⟩
    · exact ih hcursor.advance (hcursor.remaining_advance hremaining) hsuffix

/-- Every significant token and the end of the list are reached. -/
theorem Stands.isCursor (hstands : stream.Stands index) : stream.IsCursor index := by
  have hstart : stream.remaining index <:+ stream.remaining stream.start := by
    rw [remaining_start]
    exact (List.drop_suffix index stream.tokens).filter _
  obtain ⟨cursor, hcursor, hremaining⟩ := IsCursor.start.exists_of_suffix hstart
  obtain rfl := hcursor.stands.eq_of_remaining_eq hstands hremaining
  exact hcursor

/-- The stops of a stream are the places that are reached from the start. -/
theorem isCursor_iff_mem_stops : stream.IsCursor cursor ↔ cursor ∈ stream.stops.map Prod.fst := by
  have hstops : cursor ∈ stream.stops.map Prod.fst ↔
      (∃ t, stream.tokens[cursor]? = some t ∧ t.isComment = false) ∨
        cursor = stream.tokens.length := by
    simp [stops, List.mem_zipIdx_iff_getElem?]
  rw [hstops]
  constructor
  · intro hcursor
    rcases Nat.lt_or_eq_of_le hcursor.stands.le_length with hlt | heq
    · have ht := List.getElem?_eq_getElem hlt
      exact .inl ⟨_, ht, hcursor.stands.isComment_eq_false _ ht⟩
    · exact .inr heq
  · rintro (⟨t, ht, hcomment⟩ | rfl)
    · have hlt := (List.getElem?_eq_some_iff.mp ht).1
      refine Stands.isCursor ⟨Nat.le_of_lt hlt, fun other hother => ?_⟩
      obtain rfl := Option.some.inj (ht.symm.trans hother)
      exact hcomment
    · exact Stands.isCursor ⟨Nat.le_refl _, by simp⟩

end FrontEnd.TokenStream
