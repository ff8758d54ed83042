import FrontEnd.Token.Basic

/-!
The types of values. An array has no type of its own: it has the type of its elements.
-/

namespace FrontEnd

inductive ValueType where
  | integer
  | decimal
  | string
  | char
  | boolean
deriving DecidableEq

namespace ValueType

/-- The type that a reserved word names, if it names one. -/
def ofKeyword? : Keyword → Option ValueType
  | .integer => some integer
  | .decimal => some decimal
  | .string => some string
  | .char => some char
  | .boolean => some boolean
  | _ => none

def isNumeric : ValueType → Bool
  | integer | decimal => true
  | string | char | boolean => false

def isTextual : ValueType → Bool
  | string | char => true
  | integer | decimal | boolean => false

def text : ValueType → String
  | integer => "integer"
  | decimal => "decimal"
  | string => "string"
  | char => "char"
  | boolean => "boolean"

/-- A type that may be unknown, as messages put it. -/
def describe (type : Option ValueType) : String :=
  type.elim "untyped" text

end ValueType

end FrontEnd
