import FrontEnd.Syntax.Operand

/-!
Reading operands. Binary operators form six levels, the loosest first:

| level          | operators            |
|----------------|----------------------|
| concatenation  | `·`                  |
| disjunction    | `||`                 |
| conjunction    | `&&`                 |
| comparison     | `< <= > >= == !=`    |
| sum            | `+ -`                |
| product        | `* / %`              |

Operators of one level group to the left, and `!` binds closer than all of them. An operator with
nothing to its right is not part of the operand. Nothing is ever reported from inside an operand.
-/

namespace FrontEnd

/-- Reads an operand from the front of the tokens, if they start with one. -/
abbrev OperandReader : Type :=
  List Token → Option (Operand × List Token)

namespace OperandReader

/-- The binary operators by level, the loosest first. -/
def levels : List (TokenKind → Bool) :=
  [fun kind => kind = .concat,
   fun kind => kind = .logical .or,
   fun kind => kind = .logical .and,
   fun kind => match kind with
    | .relational _ => true
    | _ => false,
   fun kind => kind = .arithmetic .add || kind = .arithmetic .sub,
   fun kind => kind = .arithmetic .mul || kind = .arithmetic .div || kind = .arithmetic .rem]

/-- Takes operators and their right operands into the left operand, one after the other, up to a
bound. -/
def extend (isOperator : TokenKind → Bool) (operand : OperandReader) :
    Nat → Operand → List Token → Operand × List Token
  | bound + 1, left, operator :: rest =>
    if isOperator operator.kind then
      match operand rest with
      | some (right, after) => extend isOperator operand bound (.binary left operator right) after
      | none => (left, operator :: rest)
    else (left, operator :: rest)
  | _, left, rest => (left, rest)

/-- One level of binary operators over the operands of the next. -/
def chain (bound : Nat) (isOperator : TokenKind → Bool) (operand : OperandReader) : OperandReader :=
  fun tokens => (operand tokens).map fun (first, rest) => extend isOperator operand bound first rest

/-- Any number of `!` before something that holds no operator on the outside. -/
def negated (atom : OperandReader) : OperandReader
  | [] => none
  | token :: rest =>
    if token.kind = .logical .not then
      (negated atom rest).map fun (operand, after) => (.unary token operand, after)
    else atom (token :: rest)

/-- The tokens that may be the sign of a number. -/
def isSign (kind : TokenKind) : Bool :=
  kind = .arithmetic .add || kind = .arithmetic .sub

def isNumber (kind : TokenKind) : Bool :=
  kind = .integer || kind = .decimal

/-- A number with an optional sign in front. -/
def number? : List Token → Option (NumericValue × List Token)
  | [] => none
  | token :: rest =>
    if isSign token.kind then
      match rest with
      | [] => none
      | number :: after => if isNumber number.kind then some (⟨some token, number⟩, after) else none
    else if isNumber token.kind then some (⟨none, token⟩, rest)
    else none

/-- An operand in parentheses, which leave no trace, a name, a literal or a number. -/
def atom (nested : OperandReader) : OperandReader
  | [] => none
  | token :: rest =>
    match token.kind with
    | .leftParen =>
      match nested rest with
      | some (inner, closing :: after) =>
        if closing.kind = .rightParen then some (inner, after) else none
      | _ => none
    | .identifier | .string | .char => some (.token token, rest)
    | _ => (number? (token :: rest)).map fun (value, after) => (.numeric value, after)

/-- An operand, where parentheses are nested and operators follow each other less often than the
bound says. -/
def within : Nat → OperandReader
  | 0 => fun _ => none
  | bound + 1 => levels.foldr (chain bound) (negated (atom (within bound)))

end OperandReader

/-- Reads the longest operand at the front of the tokens. Every level of nesting and every operator
takes a token, so the number of tokens is bound enough. -/
def readOperand? : OperandReader := fun tokens =>
  OperandReader.within tokens.length tokens

end FrontEnd
