import FrontEnd.Text.Column
import FrontEnd.ValueType

/-!
Symbols: the declared names. A value belongs to a scope and is known by its name there; a function
is known everywhere by its name alone.
-/

namespace FrontEnd

/-- The part of a program in which a value can be named. Scopes are not nested: a function body does
not see the values outside. -/
structure Scope where
  label : String
deriving DecidableEq

namespace Scope

/-- What is declared outside of all functions. -/
def unit : Scope := ⟨"unit"⟩

/-- The parameters of a function and what its body declares. -/
def function (name : String) : Scope := ⟨"function:" ++ name⟩

end Scope

/-- What a name stands for. -/
inductive Role where
  | value
  | function (parameterTypes : List ValueType)
deriving DecidableEq

namespace Role

def kind : Role → String
  | value => "value"
  | function _ => "function"

/-- What a function takes; a value takes nothing. -/
def parameterTypes : Role → List ValueType
  | value => []
  | function types => types

/-- The parameter types in parentheses, for a function. -/
def parameterText : Role → String
  | value => ""
  | function types => " (" ++ ", ".intercalate (types.map ValueType.text) ++ ")"

end Role

/-- A declared name. The type is that of the value, or of what the function gives back. -/
structure Symbol where
  name : String
  role : Role
  type : Option ValueType
  isMutable : Bool
  scope : Scope
  location : Location
deriving DecidableEq

/-- What tells symbols apart: the name, and for a value its scope. -/
structure Key where
  scope : Option Scope
  name : String
deriving DecidableEq

namespace Key

def value (name : String) (scope : Scope) : Key := ⟨some scope, name⟩

def function (name : String) : Key := ⟨none, name⟩

end Key

namespace Symbol

/-- A value with the name that a token gives. -/
def value (name : Token) (scope : Scope) (type : Option ValueType) (isMutable : Bool) : Symbol :=
  ⟨name.lexeme, .value, type, isMutable, scope, name.location⟩

/-- A function with the name that a token gives. Functions cannot be assigned to. -/
def function (name : Token) (scope : Scope) (type : Option ValueType)
    (parameterTypes : List ValueType) : Symbol :=
  ⟨name.lexeme, .function parameterTypes, type, false, scope, name.location⟩

def key (symbol : Symbol) : Key :=
  match symbol.role with
  | .value => .value symbol.name symbol.scope
  | .function _ => .function symbol.name

/-- A symbol as one line of columns; a function has its parameter types at the end. -/
def text (symbol : Symbol) : String :=
  let mutability := if symbol.isMutable then "mutable" else "immutable"
  Column.left 10 symbol.name ++ " " ++ Column.left 8 symbol.role.kind ++ " "
    ++ Column.left 9 mutability ++ " " ++ Column.left 20 symbol.scope.label ++ " "
    ++ Column.left 7 (symbol.type.elim "-" ValueType.text) ++ symbol.role.parameterText

end Symbol

end FrontEnd
