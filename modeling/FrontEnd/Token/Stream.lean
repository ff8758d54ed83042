import FrontEnd.Token.Lexer

/-!
A list of tokens as the grammar sees it: without the comments, and with a token for the end of the
input. The tokens may come from any source; their positions are only carried along.
-/

namespace FrontEnd

/-- Tokens and the number of bytes of the text they came from. -/
structure TokenStream where
  tokens : List Token
  sourceLength : Nat

namespace TokenStream

def ofString (source : String) : TokenStream :=
  ⟨tokenize source, source.utf8ByteSize⟩

/-- The tokens that belong to the grammar. -/
def significant (stream : TokenStream) : List Token :=
  stream.tokens.filter fun token => !token.isComment

/-- The row and column just past a token. -/
def endOf (token : Token) : Position :=
  Position.advance ⟨token.location.row, token.location.col, token.location.span.start⟩
    token.lexeme.toList

/-- The end of the input: on the row and column just past the last token, comments included, and at
the last byte of the text. -/
def ending (stream : TokenStream) : Token :=
  let stop := (stream.tokens.getLast?.map endOf).getD {}
  .ending ⟨stop.row, stop.col, ⟨stream.sourceLength, stream.sourceLength⟩⟩

/-- The places where a reader of the grammar stops, first to last: each significant token under its
index in the whole list, and then the end under the number of tokens. -/
def stops (stream : TokenStream) : List (Nat × Token) :=
  (stream.tokens.zipIdx.filter fun entry => !entry.1.isComment).map Prod.swap
    ++ [(stream.tokens.length, stream.ending)]

end TokenStream

end FrontEnd
