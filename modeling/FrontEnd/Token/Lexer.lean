import FrontEnd.Token.Class

/-!
Reading a text token by token. A `Lexer` is the text that is left and the position it starts at.
Each step skips blanks and takes at least one character, so reading ends.
-/

namespace FrontEnd

/-- A text being read: what is left of it and where that begins. -/
structure Lexer where
  rest : List Char
  position : Position := {}

namespace Lexer

def ofString (source : String) : Lexer :=
  ⟨source.toList, {}⟩

/-- Goes past the blanks in front. -/
def skipBlanks (lexer : Lexer) : Lexer :=
  ⟨lexer.rest.dropWhile isBlank, lexer.position.advance (lexer.rest.takeWhile isBlank)⟩

/-- The next token, with the classes asked in the given order, and what is left after it; nothing at
the end of the text. A token holds the character it starts with, whatever its class says. -/
def nextBy? (order : List TokenClass) (lexer : Lexer) : Option (Token × Lexer) :=
  match lexer.skipBlanks with
  | ⟨[], _⟩ => none
  | ⟨c :: text, position⟩ =>
    let (kind, length) := classify order (c :: text)
    let lexeme := c :: text.take (length - 1)
    some (⟨kind, String.ofList lexeme, position.locate lexeme⟩,
      ⟨text.drop (length - 1), position.advance lexeme⟩)

theorem length_rest_of_nextBy? {order : List TokenClass} {lexer after : Lexer} {token : Token}
    (hnext : lexer.nextBy? order = some (token, after)) :
    after.rest.length < lexer.rest.length := by
  have hskip : (lexer.rest.dropWhile isBlank).length ≤ lexer.rest.length :=
    (List.dropWhile_sublist isBlank).length_le
  unfold nextBy? skipBlanks at hnext
  split at hnext
  · simp at hnext
  · next c text position hlexer =>
    have hrest : lexer.rest.dropWhile isBlank = c :: text := congrArg Lexer.rest hlexer
    simp only [Option.some.injEq, Prod.mk.injEq] at hnext
    obtain ⟨-, rfl⟩ := hnext
    rw [hrest, List.length_cons] at hskip
    simp only [List.length_drop]
    omega

/-- Every token that is left, with the classes asked in the given order. -/
def tokensBy (order : List TokenClass) (lexer : Lexer) : List Token :=
  match _hnext : lexer.nextBy? order with
  | none => []
  | some (token, after) => token :: after.tokensBy order
termination_by lexer.rest.length
decreasing_by exact length_rest_of_nextBy? _hnext

/-- The next token, or the token that stands for the end of the text once nothing is left. -/
def next (lexer : Lexer) : Token × Lexer :=
  (lexer.nextBy? TokenClass.byPriority).getD
    (.ending (lexer.skipBlanks.position.locate []), lexer.skipBlanks)

end Lexer

/-- The tokens of a text, comments included, where the classes are asked in the given order. -/
def tokenizeBy (order : List TokenClass) (source : String) : List Token :=
  (Lexer.ofString source).tokensBy order

/-- The tokens of a text, comments included. -/
def tokenize (source : String) : List Token :=
  tokenizeBy TokenClass.byPriority source

end FrontEnd
