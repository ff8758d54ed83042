import FrontEnd.Analysis.Unit
import FrontEnd.Proofs.Registration.Basic

/-!
When a program is well formed: its declarations do not clash, and a walk over it in the order in
which it is written finds every name declared and every type in its place. The walk carries a
context of what the names stand for, which changes only where a variable takes the type of a value.
-/

namespace FrontEnd

namespace Typing

/-- What is known of a value: its type, once it has one, and whether it may change. -/
structure ValueEntry where
  type : Option ValueType
  isMutable : Bool

/-- What is known of a function: what it takes, and what it gives back if it gives anything back. -/
structure FunctionEntry where
  parameterTypes : List ValueType
  type : Option ValueType

/-- What names stand for: values by name and scope, functions by name alone. -/
structure Context where
  value? : String → Scope → Option ValueEntry
  function? : String → Option FunctionEntry

namespace Context

/-- The context that a table of symbols describes. -/
def ofTable (table : SymbolTable) : Context where
  value? name scope := (table.value? name scope).map fun symbol => ⟨symbol.type, symbol.isMutable⟩
  function? name :=
    (table.function? name).map fun symbol => ⟨symbol.role.parameterTypes, symbol.type⟩

/-- The context in which one value has another type. -/
def retype (context : Context) (name : String) (scope : Scope) (type : ValueType) : Context where
  value? other place :=
    if other = name ∧ place = scope then
      (context.value? other place).map fun entry => ⟨some type, entry.isMutable⟩
    else context.value? other place
  function? := context.function?

end Context

/-! ### Types -/

def IsNumber (type : Option ValueType) : Prop :=
  type = some .integer ∨ type = some .decimal

def IsText (type : Option ValueType) : Prop :=
  type = some .string ∨ type = some .char

/-- The type of an operation, from its operator and the types of its sides. -/
inductive OperatorType : TokenKind → Option ValueType → Option ValueType → Option ValueType → Prop
  | concat {left right : Option ValueType} : OperatorType .concat left right (some .string)
  | logical {operator : LogicalOperator} {left right : Option ValueType} :
      OperatorType (.logical operator) left right (some .boolean)
  | relational {operator : RelationalOperator} {left right : Option ValueType} :
      OperatorType (.relational operator) left right (some .boolean)
  | decimal {operator : ArithmeticOperator} {left right : Option ValueType}
      (hside : left = some .decimal ∨ right = some .decimal) :
      OperatorType (.arithmetic operator) left right (some .decimal)
  | integer {operator : ArithmeticOperator} {left right : Option ValueType}
      (hleft : left ≠ some .decimal) (hright : right ≠ some .decimal) :
      OperatorType (.arithmetic operator) left right (some .integer)
  | other {kind : TokenKind} {left right : Option ValueType} (hconcat : kind ≠ .concat)
      (hlogical : ∀ operator, kind ≠ .logical operator)
      (hrelational : ∀ operator, kind ≠ .relational operator)
      (harithmetic : ∀ operator, kind ≠ .arithmetic operator) : OperatorType kind left right none

/-- What the sides of an operator must be: one side of an arithmetic operator is a number, and no
side of an ordering that admits equality is a text. -/
structure OperatorFits (kind : TokenKind) (left right : Option ValueType) : Prop where
  numeric : ∀ operator, kind = .arithmetic operator → IsNumber left ∨ IsNumber right
  ordered : kind = .relational .lessEqual ∨ kind = .relational .greaterEqual →
    ¬ IsText left ∧ ¬ IsText right

section

variable (context : Context) (scope : Scope)

/-- The type of an operand; `none` is the type of what has no known type. -/
inductive HasType : Operand → Option ValueType → Prop
  | name {token : Token} {entry : ValueEntry} (hkind : token.kind = .identifier)
      (hentry : context.value? token.lexeme scope = some entry) : HasType (.token token) entry.type
  | undeclared {token : Token} (hkind : token.kind = .identifier)
      (hentry : context.value? token.lexeme scope = none) : HasType (.token token) none
  | integer {token : Token} (hkind : token.kind = .integer) : HasType (.token token) (some .integer)
  | decimal {token : Token} (hkind : token.kind = .decimal) : HasType (.token token) (some .decimal)
  | string {token : Token} (hkind : token.kind = .string) : HasType (.token token) (some .string)
  | char {token : Token} (hkind : token.kind = .char) : HasType (.token token) (some .char)
  | word {token : Token}
      (hkind : token.kind ∉ [.identifier, .integer, .decimal, .string, .char]) :
      HasType (.token token) none
  | decimalNumber {value : NumericValue} (hkind : value.number.kind = .decimal) :
      HasType (.numeric value) (some .decimal)
  | number {value : NumericValue} (hkind : value.number.kind ≠ .decimal) :
      HasType (.numeric value) (some .integer)
  | unary {operator : Token} {operand : Operand} {type result : Option ValueType}
      (hoperand : HasType operand type) (hresult : OperatorType operator.kind none type result) :
      HasType (.unary operator operand) result
  | binary {left right : Operand} {operator : Token} {leftType rightType result : Option ValueType}
      (hleft : HasType left leftType) (hright : HasType right rightType)
      (hresult : OperatorType operator.kind leftType rightType result) :
      HasType (.binary left operator right) result

/-- The known type of an element of an array, which for an array is that of its first element. -/
inductive HasElementType : ArrayElement → ValueType → Prop
  | operand {operand : Operand} {type : ValueType}
      (htype : HasType context scope operand (some type)) :
      HasElementType (.operand operand) type
  | array {bracket : Token} {first : ArrayElement} {rest : List ArrayElement} {type : ValueType}
      (hfirst : HasElementType first type) : HasElementType (.array bracket (first :: rest)) type

/-- The known type of a value. -/
inductive HasValueType : Value → ValueType → Prop
  | call {call : Call} {entry : FunctionEntry} {type : ValueType}
      (hentry : context.function? call.name.lexeme = some entry) (htype : entry.type = some type) :
      HasValueType (.call call) type
  | array {array : ArrayLiteral} {type : ValueType}
      (htype : HasElementType context scope array.toElement type) : HasValueType (.array array) type
  | operand {operand : Operand} {type : ValueType}
      (htype : HasType context scope operand (some type)) :
      HasValueType (.operand operand) type

/-! ### Well-formed parts -/

/-- Every name is declared, and every operator fits the types of its sides. -/
inductive OperandOk : Operand → Prop
  | name {token : Token} {entry : ValueEntry} (hkind : token.kind = .identifier)
      (hentry : context.value? token.lexeme scope = some entry) : OperandOk (.token token)
  | literal {token : Token} (hkind : token.kind ≠ .identifier) : OperandOk (.token token)
  | number {value : NumericValue} : OperandOk (.numeric value)
  | unary {operator : Token} {operand : Operand} (hoperand : OperandOk operand) :
      OperandOk (.unary operator operand)
  | binary {left right : Operand} {operator : Token} {leftType rightType : Option ValueType}
      (hleft : OperandOk left) (hright : OperandOk right)
      (hleftType : HasType context scope left leftType)
      (hrightType : HasType context scope right rightType)
      (hfits : OperatorFits operator.kind leftType rightType) :
      OperandOk (.binary left operator right)

/-- Every element is well formed, and those with a known type agree with the first one. -/
inductive ElementOk : ArrayElement → Prop
  | operand {operand : Operand} (hoperand : OperandOk context scope operand) :
      ElementOk (.operand operand)
  | empty {bracket : Token} : ElementOk (.array bracket [])
  | array {bracket : Token} {first : ArrayElement} {rest : List ArrayElement}
      (hfirst : ElementOk first) (hrest : ∀ element ∈ rest, ElementOk element)
      (hagree : ∀ expected, HasElementType context scope first expected →
        ∀ element ∈ rest, ∀ found, HasElementType context scope element found → found = expected) :
      ElementOk (.array bracket (first :: rest))

/-- The function exists and takes as many arguments as there are, each of exactly the type that its
parameter has. -/
structure CallOk (call : Call) (entry : FunctionEntry) : Prop where
  declared : context.function? call.name.lexeme = some entry
  length_eq : call.arguments.length = entry.parameterTypes.length
  types : ∀ argument type, (argument, type) ∈ call.arguments.zip entry.parameterTypes →
    HasType context scope argument (some type)
  operands : ∀ argument ∈ call.arguments, OperandOk context scope argument

/-- A call that stands for a value gives something back. -/
inductive ValueOk : Value → Prop
  | call {call : Call} {entry : FunctionEntry} {type : ValueType}
      (hcall : CallOk context scope call entry) (htype : entry.type = some type) :
      ValueOk (.call call)
  | array {array : ArrayLiteral} (harray : ElementOk context scope array.toElement) :
      ValueOk (.array array)
  | operand {operand : Operand} (hoperand : OperandOk context scope operand) :
      ValueOk (.operand operand)

inductive PayloadOk : Payload → Prop
  | call {call : Call} {entry : FunctionEntry} (hcall : CallOk context scope call entry) :
      PayloadOk (.call call)
  | operand {operand : Operand} (hoperand : OperandOk context scope operand) :
      PayloadOk (.operand operand)

/-- What the declared name starts with is well formed. -/
def DeclarationOk (declaration : Declaration) : Prop :=
  ∀ value, declaration.value? = some value → ValueOk context scope value

end

/-! ### The walk -/

mutual

/-- A statement is well formed in the context before it and leaves the context after it. -/
inductive StatementOk (scope : Scope) : Context → Statement → Context → Prop
  | print {context : Context} {keyword : Token} {payload : Payload}
      (hpayload : PayloadOk context scope payload) :
      StatementOk scope context (.print keyword payload) context
  | ret {context : Context} {keyword : Token} {payload : Payload}
      (hpayload : PayloadOk context scope payload) :
      StatementOk scope context (.ret keyword payload) context
  | read {context : Context} {keyword : Token} {payload : Payload}
      (hpayload : PayloadOk context scope payload) :
      StatementOk scope context (.read keyword payload) context
  | decision {context middle after : Context} {keyword : Token} {condition : Operand}
      {body : List Statement} {alternative : Option (List Statement)}
      (hcondition : OperandOk context scope condition)
      (hbody : BlockOk scope context body middle)
      (halternative : BlockOk scope middle (alternative.getD []) after) :
      StatementOk scope context (.decision keyword condition body alternative) after
  | declare {context : Context} {declaration : Declaration}
      (hdeclaration : DeclarationOk context scope declaration) :
      StatementOk scope context (.declare declaration) context
  /-- The target takes the type of the value. -/
  | assign {context : Context} {target : Token} {value : Value} {entry : ValueEntry}
      {type : ValueType} (htarget : context.value? target.lexeme scope = some entry)
      (hmutable : entry.isMutable = true) (hvalue : ValueOk context scope value)
      (htype : HasValueType context scope value type) :
      StatementOk scope context (.assign target value) (context.retype target.lexeme scope type)
  /-- The target keeps its type if that of the value is not known. -/
  | assignUnknown {context : Context} {target : Token} {value : Value} {entry : ValueEntry}
      (htarget : context.value? target.lexeme scope = some entry)
      (hmutable : entry.isMutable = true) (hvalue : ValueOk context scope value)
      (htype : ∀ type, ¬ HasValueType context scope value type) :
      StatementOk scope context (.assign target value) context
  | loop {context after : Context} {keyword : Token} {body : List Statement} {condition : Operand}
      (hbody : BlockOk scope context body after) (hcondition : OperandOk after scope condition) :
      StatementOk scope context (.loop keyword body condition) after
  | call {context : Context} {call : Call} {entry : FunctionEntry}
      (hcall : CallOk context scope call entry) : StatementOk scope context (.call call) context
  | step {context : Context} {direction : StepDirection} {target operator : Token}
      {entry : ValueEntry} (htarget : context.value? target.lexeme scope = some entry)
      (hmutable : entry.isMutable = true) (hnumber : IsNumber entry.type) :
      StatementOk scope context (.step direction target operator) context

/-- The statements are well formed one after the other. -/
inductive BlockOk (scope : Scope) : Context → List Statement → Context → Prop
  | nil {context : Context} : BlockOk scope context [] context
  | cons {context middle after : Context} {statement : Statement} {rest : List Statement}
      (hstatement : StatementOk scope context statement middle)
      (hrest : BlockOk scope middle rest after) : BlockOk scope context (statement :: rest) after

end

/-- The bodies of the functions are well formed one after the other. -/
inductive BodiesOk : Context → List FunctionDeclaration → Context → Prop
  | nil {context : Context} : BodiesOk context [] context
  | cons {context middle after : Context} {function : FunctionDeclaration}
      {rest : List FunctionDeclaration}
      (hbody : BlockOk (.function function.name.lexeme) context function.body middle)
      (hrest : BodiesOk middle rest after) : BodiesOk context (function :: rest) after

end Typing

/-! ### Well-formed programs -/

/-- The keys of everything that a program declares. -/
def CompilationUnit.keys (unit : CompilationUnit) : List Key :=
  unit.declared.map Registration.key

/-- No key is declared twice, and the walk goes through the whole program, from the types and
signatures that registration leaves. -/
structure CompilationUnit.WellFormed (unit : CompilationUnit) : Prop where
  keys_nodup : unit.keys.Nodup
  walk : ∃ middle after,
    (∀ declaration ∈ unit.declarations,
      Typing.DeclarationOk (.ofTable (unit.register ∅).table) .unit declaration) ∧
    Typing.BodiesOk (.ofTable (unit.register ∅).table) unit.functions middle ∧
    Typing.BlockOk .unit middle unit.statements after

end FrontEnd
