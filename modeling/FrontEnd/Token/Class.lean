import FrontEnd.Token.Spelling

/-!
The classes of token and how each of them is recognized at the start of a text.

Some texts belong to two classes: `++` is also an arithmetic operator with something after it. The
list `TokenClass.byPriority` settles which class is asked first. A text that no class recognizes is
read as unknown up to the next blank, bracket or terminator, so reading a token never fails.
-/

namespace FrontEnd

/-! ### Character classes -/

/-- The characters between tokens: the space, the tab and the two line characters. -/
def isBlank (c : Char) : Bool :=
  c = ' ' || c = '\t' || c = '\r' || c = '\n'

/-- The kind of a bracket. -/
def bracketKind? : Char → Option TokenKind
  | '(' => some .leftParen
  | ')' => some .rightParen
  | '{' => some .leftBrace
  | '}' => some .rightBrace
  | '[' => some .leftBracket
  | ']' => some .rightBracket
  | _ => none

/-- The kind of a separator. -/
def separatorKind? : Char → Option TokenKind
  | ',' => some .comma
  | ';' => some .semicolon
  | ':' => some .colon
  | _ => none

def isBracket (c : Char) : Bool := (bracketKind? c).isSome

def isSeparator (c : Char) : Bool := (separatorKind? c).isSome

/-- What may follow a number, a reserved word or an operator that has to stand alone. -/
def isBoundary (c : Char) : Bool :=
  isBlank c || isBracket c || isSeparator c || c = '#'

/-- Unknown text stops before these. A separator does not stop it. -/
def stopsUnknown (c : Char) : Bool :=
  isBlank c || isBracket c || c = '#'

/-- Nothing but a boundary follows the first `length` characters. -/
def endsAtBoundary (text : List Char) (length : Nat) : Bool :=
  (text.drop length).head?.all isBoundary

/-! ### Shapes shared by several classes -/

/-- The text between an opening character and the first closing character after it. -/
def delimitedBody? (opening closing : Char) : List Char → Option (List Char)
  | [] => none
  | c :: text =>
    if c = opening ∧ closing ∈ text then some (text.takeWhile (· ≠ closing)) else none

/-- How many digits the text starts with. -/
def digitRun (text : List Char) : Nat :=
  (text.takeWhile Char.isDigit).length

/-- A sign belongs to a number only if a digit follows it at once. -/
def signLength : List Char → Nat
  | c :: d :: _ => if (c = '+' ∨ c = '-') ∧ d.isDigit then 1 else 0
  | _ => 0

/-- A spelling of the table that stands alone. -/
def SpellingTable.standalone? {Meaning : Type} (table : SpellingTable Meaning) (text : List Char) :
    Option (Meaning × Nat) :=
  (table.longest? text).filter fun found => endsAtBoundary text found.2

/-- A single character that a table of kinds knows. -/
def singleKind? (kindOf : Char → Option TokenKind) (text : List Char) : Option (TokenKind × Nat) :=
  (text.head?.bind kindOf).map fun kind => (kind, 1)

/-- A fixed text of one kind. -/
def fixed? (spelling : List Char) (kind : TokenKind) (text : List Char) :
    Option (TokenKind × Nat) :=
  if spelling.isPrefixOf text then some (kind, spelling.length) else none

/-- How many characters unknown text takes. The first one belongs to it whatever it is. -/
def unknownLength : List Char → Nat
  | [] => 0
  | _ :: text => (text.takeWhile fun c => !stopsUnknown c).length + 1

/-- A name has at most this many characters, with the sign `@` that it starts with. -/
def maxIdentifierLength : Nat := 10

/-- A character literal holds at most this many characters. -/
def maxCharBody : Nat := 2

/-! ### The classes -/

/-- The classes of token. -/
inductive TokenClass where
  | identifier
  | increment
  | decrement
  | arithmetic
  | assignment
  | relational
  | logical
  | integer
  | decimal
  | keyword
  | string
  | char
  | blockComment
  | lineComment
  | terminator
  | bracket
  | separator
  | concat
deriving DecidableEq

namespace TokenClass

/-- Every class, in the order in which they are asked. -/
def byPriority : List TokenClass :=
  [identifier, increment, decrement, arithmetic, assignment, relational, logical, integer, decimal,
   keyword, string, char, blockComment, lineComment, terminator, bracket, separator, concat]

/-- The sign `@` and at least one letter or digit. A run that is too long is no name at all. -/
def identifier? : List Char → Option (TokenKind × Nat)
  | '@' :: text =>
    let length := (text.takeWhile Char.isAlphanum).length + 1
    if 2 ≤ length ∧ length ≤ maxIdentifierLength then some (.identifier, length) else none
  | _ => none

/-- Digits, up to a boundary. -/
def integer? (text : List Char) : Option (TokenKind × Nat) :=
  let sign := signLength text
  let digits := digitRun (text.drop sign)
  if 0 < digits ∧ endsAtBoundary text (sign + digits) then some (.integer, sign + digits) else none

/-- Digits, a point and more digits, up to a boundary. -/
def decimal? (text : List Char) : Option (TokenKind × Nat) :=
  let sign := signLength text
  let whole := digitRun (text.drop sign)
  let point := sign + whole
  let fraction := digitRun (text.drop (point + 1))
  let length := point + 1 + fraction
  if 0 < whole ∧ (text.drop point).head? = some '.' ∧ 0 < fraction ∧ endsAtBoundary text length then
    some (.decimal, length)
  else none

/-- From the sign `¶` to the end of the line. -/
def lineComment? : List Char → Option (TokenKind × Nat)
  | '¶' :: text => some (.lineComment, (text.takeWhile (· ≠ '\n')).length + 1)
  | _ => none

/-- A delimited text of one kind, whose body is not too long if there is a limit. -/
def delimited? (opening closing : Char) (kind : TokenKind) (fits : Nat → Bool) (text : List Char) :
    Option (TokenKind × Nat) :=
  ((delimitedBody? opening closing text).filter fun body => fits body.length).map
    fun body => (kind, body.length + 2)

/-- The kind and the number of characters of the token of this class at the start of the text. -/
def recognize? : TokenClass → List Char → Option (TokenKind × Nat)
  | identifier, text => identifier? text
  | increment, text => fixed? ['+', '+'] .increment text
  | decrement, text => fixed? ['-', '-'] .decrement text
  | arithmetic, text =>
    (ArithmeticOperator.spellings.longest? text).map fun found => (.arithmetic found.1, found.2)
  | assignment, text =>
    (AssignmentOperator.spellings.standalone? text).map fun found => (.assignment found.1, found.2)
  | relational, text =>
    (RelationalOperator.spellings.standalone? text).map fun found => (.relational found.1, found.2)
  | logical, text =>
    (LogicalOperator.spellings.standalone? text).map fun found => (.logical found.1, found.2)
  | integer, text => integer? text
  | decimal, text => decimal? text
  | keyword, text =>
    (Keyword.spellings.standalone? text).map fun found => (.keyword found.1, found.2)
  | string, text => delimited? '~' '~' .string (fun _ => true) text
  | char, text => delimited? '^' '^' .char (· ≤ maxCharBody) text
  | blockComment, text => delimited? '«' '»' .blockComment (fun _ => true) text
  | lineComment, text => lineComment? text
  | terminator, text => fixed? ['#'] .terminator text
  | bracket, text => singleKind? bracketKind? text
  | separator, text => singleKind? separatorKind? text
  | concat, text => fixed? ['·'] .concat text

end TokenClass

/-- The kind and length of the first token of a text, where the classes are asked in the given order
and a text that none of them recognizes is unknown. -/
def classify (order : List TokenClass) (text : List Char) : TokenKind × Nat :=
  (order.findSome? fun cls => cls.recognize? text).getD (.unknown, unknownLength text)

end FrontEnd
