import FrontEnd.Proofs.Typing.Rules

/-!
Inference computes the types that the rules give: an operand has exactly one type, which may be
`none`, and an element or a value has at most one known type.
-/

namespace FrontEnd

namespace Typing

theorem value?_ofTable (env : Environment) (name : String) :
    (Context.ofTable env.table).value? name env.scope =
      (env.value? name).map fun symbol => ⟨symbol.type, symbol.isMutable⟩ := rfl

theorem function?_ofTable (env : Environment) (name : String) :
    (Context.ofTable env.table).function? name =
      (env.function? name).map fun symbol => ⟨symbol.role.parameterTypes, symbol.type⟩ := rfl

/-! ### Operators -/

theorem operatorType_ofKind? (kind : TokenKind) (left right : Option ValueType) :
    OperatorType kind left right ((OperatorClass.ofKind? kind).map (·.resultType left right)) := by
  unfold OperatorClass.ofKind?
  split
  case h_1 => exact .concat
  case h_2 => exact .logical
  case h_3 => exact .relational
  case h_4 operator =>
    rw [Option.map_some, OperatorClass.resultType]
    by_cases hdecimal : left = some .decimal ∨ right = some .decimal
    · rw [if_pos hdecimal]
      exact .decimal hdecimal
    · rw [if_neg hdecimal]
      rw [not_or] at hdecimal
      exact .integer hdecimal.1 hdecimal.2
  case h_5 hconcat hlogical hrelational harithmetic =>
    exact .other hconcat hlogical hrelational harithmetic

theorem OperatorType.eq_ofKind? {kind : TokenKind} {left right result : Option ValueType}
    (htype : OperatorType kind left right result) :
    (OperatorClass.ofKind? kind).map (·.resultType left right) = result := by
  cases htype with
  | concat => rfl
  | logical => rfl
  | relational => rfl
  | decimal hside =>
    rw [OperatorClass.ofKind?, Option.map_some, OperatorClass.resultType, if_pos hside]
  | integer hleft hright =>
    rw [OperatorClass.ofKind?, Option.map_some, OperatorClass.resultType,
      if_neg (not_or.mpr ⟨hleft, hright⟩)]
  | other hconcat hlogical hrelational harithmetic =>
    unfold OperatorClass.ofKind?
    split
    case h_1 => exact absurd rfl hconcat
    case h_2 operator => exact absurd rfl (hlogical operator)
    case h_3 operator => exact absurd rfl (hrelational operator)
    case h_4 operator => exact absurd rfl (harithmetic operator)
    case h_5 => rfl

/-! ### Operands -/

theorem hasType_token (env : Environment) (token : Token) :
    HasType (.ofTable env.table) env.scope (.token token) (token.type? env) := by
  unfold Token.type?
  split
  · next hkind =>
    cases hvalue : env.value? token.lexeme with
    | none => exact .undeclared hkind (by rw [value?_ofTable, hvalue, Option.map_none])
    | some symbol =>
      have hentry : (Context.ofTable env.table).value? token.lexeme env.scope =
          some ⟨symbol.type, symbol.isMutable⟩ := by
        rw [value?_ofTable, hvalue, Option.map_some]
      exact .name hkind hentry
  · next hkind => exact .integer hkind
  · next hkind => exact .decimal hkind
  · next hkind => exact .string hkind
  · next hkind => exact .char hkind
  · next hidentifier hinteger hdecimal hstring hchar => exact .word (by simp_all)

theorem hasType_numeric (env : Environment) (value : NumericValue) :
    HasType (.ofTable env.table) env.scope (.numeric value) (some value.type) := by
  unfold NumericValue.type NumericValue.isDecimal
  by_cases hkind : value.number.kind = .decimal
  · rw [if_pos (decide_eq_true hkind)]
    exact .decimalNumber hkind
  · rw [if_neg (by simpa using hkind)]
    exact .number hkind

theorem hasType_type? (env : Environment) (operand : Operand) :
    HasType (.ofTable env.table) env.scope operand (operand.type? env) := by
  induction operand with
  | binary left operator right ihleft ihright =>
    exact .binary ihleft ihright (operatorType_ofKind? operator.kind _ _)
  | unary operator operand ih => exact .unary ih (operatorType_ofKind? operator.kind _ _)
  | token token => exact hasType_token env token
  | numeric value => exact hasType_numeric env value

theorem HasType.type?_eq {env : Environment} {operand : Operand} {type : Option ValueType}
    (htype : HasType (.ofTable env.table) env.scope operand type) : operand.type? env = type := by
  induction htype with
  | name hkind hentry =>
    rw [value?_ofTable] at hentry
    obtain ⟨symbol, hvalue, rfl⟩ := Option.map_eq_some_iff.mp hentry
    simp [Operand.type?, Token.type?, hkind, hvalue]
  | undeclared hkind hentry =>
    rw [value?_ofTable] at hentry
    have hvalue := Option.map_eq_none_iff.mp hentry
    simp [Operand.type?, Token.type?, hkind, hvalue]
  | integer hkind => simp [Operand.type?, Token.type?, hkind]
  | decimal hkind => simp [Operand.type?, Token.type?, hkind]
  | string hkind => simp [Operand.type?, Token.type?, hkind]
  | char hkind => simp [Operand.type?, Token.type?, hkind]
  | word hkind =>
    unfold Operand.type? Token.type?
    split <;> simp_all
  | decimalNumber hkind => simp [Operand.type?, NumericValue.type, NumericValue.isDecimal, hkind]
  | number hkind => simp [Operand.type?, NumericValue.type, NumericValue.isDecimal, hkind]
  | unary hoperand hresult ih =>
    rw [Operand.type?, ih]
    exact hresult.eq_ofKind?
  | binary hleft hright hresult ihleft ihright =>
    rw [Operand.type?, ihleft, ihright]
    exact hresult.eq_ofKind?

theorem hasType_iff {env : Environment} {operand : Operand} {type : Option ValueType} :
    HasType (.ofTable env.table) env.scope operand type ↔ operand.type? env = type := by
  refine ⟨HasType.type?_eq, ?_⟩
  rintro rfl
  exact hasType_type? env operand

/-! ### Elements and values -/

theorem hasElementType_of_type? {env : Environment} (element : ArrayElement) {type : ValueType}
    (htype : element.type? env = some type) :
    HasElementType (.ofTable env.table) env.scope element type := by
  match element with
  | .operand operand =>
    rw [ArrayElement.type?] at htype
    exact .operand (hasType_iff.mpr htype)
  | .array bracket [] =>
    rw [ArrayElement.type?] at htype
    cases htype
  | .array bracket (first :: rest) =>
    rw [ArrayElement.type?] at htype
    exact .array (hasElementType_of_type? first htype)

theorem hasElementType_iff {env : Environment} {element : ArrayElement} {type : ValueType} :
    HasElementType (.ofTable env.table) env.scope element type ↔
      element.type? env = some type := by
  refine ⟨fun htype => ?_, hasElementType_of_type? element⟩
  induction htype with
  | operand htype =>
    rw [ArrayElement.type?]
    exact hasType_iff.mp htype
  | array hfirst ih =>
    rw [ArrayElement.type?]
    exact ih

theorem hasValueType_iff (env : Environment) {value : Value} {type : ValueType} :
    HasValueType (.ofTable env.table) env.scope value type ↔ value.type? env = some type := by
  constructor
  · intro htype
    cases htype with
    | call hentry htype =>
      rw [function?_ofTable] at hentry
      obtain ⟨symbol, hfunction, rfl⟩ := Option.map_eq_some_iff.mp hentry
      rw [Value.type?, Call.type?, hfunction]
      exact htype
    | array htype => exact hasElementType_iff.mp htype
    | operand htype => exact hasType_iff.mp htype
  · intro htype
    cases value with
    | call call =>
      obtain ⟨symbol, hfunction, htype⟩ := Option.bind_eq_some_iff.mp htype
      have hentry : (Context.ofTable env.table).function? call.name.lexeme =
          some ⟨symbol.role.parameterTypes, symbol.type⟩ := by
        rw [function?_ofTable, hfunction, Option.map_some]
      exact .call hentry htype
    | array array => exact .array (hasElementType_iff.mpr htype)
    | operand operand => exact .operand (hasType_iff.mpr htype)

end Typing

end FrontEnd
