/-!
Places in a source text. A `Position` lies between two characters and is moved by reading them; a
`Location` is what a token occupies, as a row and column together with a range of bytes.
-/

namespace FrontEnd

/-- A range of bytes of the UTF-8 form of a text: `start` belongs to it, `stop` does not. -/
structure Span where
  start : Nat
  stop : Nat
deriving DecidableEq

/-- Where a token begins, counting rows and characters from zero, and the bytes it covers. -/
structure Location where
  row : Nat
  col : Nat
  span : Span
deriving DecidableEq

/-- A point of a text: the newlines before it, the characters since the last of them, and the bytes
before it. The default is the start of the text. -/
structure Position where
  row : Nat := 0
  col : Nat := 0
  offset : Nat := 0
deriving DecidableEq

namespace Position

/-- A newline starts the next row; every other character, whatever its width, is one column. -/
def step (position : Position) (c : Char) : Position :=
  if c = '\n' then ⟨position.row + 1, 0, position.offset + c.utf8Size⟩
  else ⟨position.row, position.col + 1, position.offset + c.utf8Size⟩

/-- The position after reading some text. -/
def advance (position : Position) (text : List Char) : Position :=
  text.foldl step position

/-- The location of a text that starts at the position. -/
def locate (position : Position) (text : List Char) : Location :=
  ⟨position.row, position.col, ⟨position.offset, (position.advance text).offset⟩⟩

/-- The position of the first character of some text that stands at a byte or after it; the end of
the text if there is none. -/
def advanceTo (offset : Nat) (position : Position) : List Char → Position
  | [] => position
  | c :: text =>
    if position.offset < offset then advanceTo offset (position.step c) text else position

@[simp] theorem advance_nil (position : Position) : position.advance [] = position := rfl

@[simp] theorem advance_cons (position : Position) (c : Char) (text : List Char) :
    position.advance (c :: text) = (position.step c).advance text := rfl

end Position

end FrontEnd
