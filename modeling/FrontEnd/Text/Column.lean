/-!
Texts set in columns of a fixed width, counted in characters. A text that is too long is not cut.
-/

namespace FrontEnd

/-- The blanks that a text lacks to fill a column. -/
def Column.padding (width : Nat) (text : String) : String :=
  String.ofList (List.replicate (width - text.length) ' ')

/-- The text at the left edge of a column. -/
def Column.left (width : Nat) (text : String) : String :=
  text ++ Column.padding width text

/-- The text at the right edge of a column. -/
def Column.right (width : Nat) (text : String) : String :=
  Column.padding width text ++ text

end FrontEnd
