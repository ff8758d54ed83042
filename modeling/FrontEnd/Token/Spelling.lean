import FrontEnd.Token.Basic

/-!
Words with fixed spellings: the reserved words and the operators. A table lists every spelling with
its meaning, and a text is read by the longest spelling it starts with.
-/

namespace FrontEnd

/-- Spellings and what they mean. A meaning may have several spellings. -/
abbrev SpellingTable (Meaning : Type) := List (String × Meaning)

/-- The meaning and the length of the longest spelling of the table that the text starts with. -/
def SpellingTable.longest? {Meaning : Type} (table : SpellingTable Meaning) (text : List Char) :
    Option (Meaning × Nat) :=
  let found := table.filter fun entry => entry.1.toList.isPrefixOf text
  (found.map fun entry => (entry.2, entry.1.length)).maxOn? Prod.snd

def Keyword.spellings : SpellingTable Keyword :=
  [("accion", action), ("action", action),
   ("cadena", string), ("string", string),
   ("caracter", char), ("char", char),
   ("entero", integer), ("integer", integer),
   ("decimal", decimal),
   ("booleano", boolean), ("boolean", boolean),
   ("si", branch), ("if", branch),
   ("sino", otherwise), ("else", otherwise),
   ("hacer", loop), ("do", loop),
   ("mientras", whilst), ("while", whilst),
   ("variable", var),
   ("constante", const), ("constant", const),
   ("devolucion", ret), ("return", ret),
   ("muestre", print), ("print", print),
   ("leer", read), ("read", read)]

def ArithmeticOperator.spellings : SpellingTable ArithmeticOperator :=
  [("+", add), ("-", sub), ("*", mul), ("/", div), ("%", rem)]

def AssignmentOperator.spellings : SpellingTable AssignmentOperator :=
  [("=", set), ("+=", addTo), ("-=", subtractFrom)]

def RelationalOperator.spellings : SpellingTable RelationalOperator :=
  [("<", less), ("<=", lessEqual), (">", greater), (">=", greaterEqual), ("==", equal),
   ("!=", notEqual)]

def LogicalOperator.spellings : SpellingTable LogicalOperator :=
  [("||", or), ("&&", and), ("!", not)]

end FrontEnd
