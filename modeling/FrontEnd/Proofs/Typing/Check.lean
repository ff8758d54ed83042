import FrontEnd.Proofs.Typing.Inference

/-!
The checks on operands, arrays, calls and values find nothing exactly if what they check is well
formed.
-/

namespace FrontEnd

namespace Typing

variable {env : Environment}

/-! ### Operands -/

theorem any_isNumeric_iff {type : Option ValueType} :
    type.any ValueType.isNumeric = true ↔ IsNumber type := by
  unfold IsNumber
  cases type with
  | none => simp
  | some type => cases type <;> simp [ValueType.isNumeric]

theorem any_isTextual_iff {type : Option ValueType} :
    type.any ValueType.isTextual = true ↔ IsText type := by
  unfold IsText
  cases type with
  | none => simp
  | some type => cases type <;> simp [ValueType.isTextual]

theorem isInclusiveOrdering_iff {operator : RelationalOperator} :
    operator.isInclusiveOrdering = true ↔
      TokenKind.relational operator = .relational .lessEqual ∨
        TokenKind.relational operator = .relational .greaterEqual := by
  cases operator <;> simp [RelationalOperator.isInclusiveOrdering]

theorem isUndeclared_of_operandOk {operand : Operand}
    (hoperand : OperandOk (.ofTable env.table) env.scope operand) :
    operand.isUndeclared env = false := by
  cases hoperand with
  | name hkind hentry =>
    rw [value?_ofTable] at hentry
    obtain ⟨symbol, hvalue, -⟩ := Option.map_eq_some_iff.mp hentry
    simp [Operand.isUndeclared, Token.isUndeclared, hvalue]
  | literal hkind => simp [Operand.isUndeclared, Token.isUndeclared, hkind]
  | number => rfl
  | unary => rfl
  | binary => rfl

/-- The check on an operator, where the names on its sides are declared. -/
theorem checkOperator_eq_nil_iff {left right : Operand} {operator : Token}
    (hleft : left.isUndeclared env = false) (hright : right.isUndeclared env = false) :
    Operand.checkOperator env left operator right = [] ↔
      OperatorFits operator.kind (left.type? env) (right.type? env) := by
  unfold Operand.checkOperator
  rw [if_neg (by simp [hleft, hright])]
  generalize left.type? env = leftType, right.type? env = rightType
  unfold OperatorClass.ofKind?
  cases hkind : operator.kind with
  | arithmetic arithmetic =>
    simp only [Bool.or_eq_true, any_isNumeric_iff, ite_eq_left_iff, reduceCtorEq, imp_false,
      Classical.not_not]
    refine ⟨fun hnumber => ⟨fun _ _ => hnumber, by simp⟩, fun hfits => ?_⟩
    exact hfits.numeric arithmetic rfl
  | relational relational =>
    simp only [Bool.and_eq_true, Bool.or_eq_true, any_isTextual_iff, isInclusiveOrdering_iff,
      ite_eq_right_iff, reduceCtorEq, imp_false, not_and, not_or]
    exact ⟨fun hordered => ⟨by simp, hordered⟩, fun hfits => hfits.ordered⟩
  | _ => exact ⟨fun _ => ⟨by simp, by simp⟩, fun _ => rfl⟩

theorem check_token_eq_nil_iff {token : Token} :
    Operand.check env (.token token) = [] ↔
      OperandOk (.ofTable env.table) env.scope (.token token) := by
  unfold Operand.check Token.isUndeclared
  by_cases hkind : token.kind = .identifier
  · cases hvalue : env.value? token.lexeme with
    | none =>
      simp only [hkind, Option.isNone_none, decide_true, Bool.and_true, if_true, reduceCtorEq,
        false_iff]
      intro hname
      cases hname with
      | name _ hentry =>
        rw [value?_ofTable, hvalue] at hentry
        cases hentry
      | literal hliteral => exact hliteral hkind
    | some symbol =>
      have hentry : (Context.ofTable env.table).value? token.lexeme env.scope =
          some ⟨symbol.type, symbol.isMutable⟩ := by
        rw [value?_ofTable, hvalue, Option.map_some]
      simp only [Option.isNone_some, Bool.and_false, Bool.false_eq_true, if_false, true_iff]
      exact .name hkind hentry
  · simp only [hkind, decide_false, Bool.false_and, Bool.false_eq_true, if_false, true_iff]
    exact .literal hkind

theorem check_operand_eq_nil_iff {operand : Operand} :
    operand.check env = [] ↔ OperandOk (.ofTable env.table) env.scope operand := by
  induction operand with
  | binary left operator right ihleft ihright =>
    simp only [Operand.check, List.append_eq_nil_iff, ihleft, ihright]
    constructor
    · rintro ⟨⟨hleft, hright⟩, hoperator⟩
      rw [checkOperator_eq_nil_iff (isUndeclared_of_operandOk hleft)
        (isUndeclared_of_operandOk hright)] at hoperator
      exact .binary hleft hright (hasType_type? env left) (hasType_type? env right) hoperator
    · intro hoperand
      cases hoperand with
      | binary hleft hright hleftType hrightType hfits =>
        refine ⟨⟨hleft, hright⟩, ?_⟩
        rw [checkOperator_eq_nil_iff (isUndeclared_of_operandOk hleft)
          (isUndeclared_of_operandOk hright), hleftType.type?_eq, hrightType.type?_eq]
        exact hfits
  | unary operator operand ih =>
    rw [Operand.check, ih]
    refine ⟨.unary, fun hoperand => ?_⟩
    cases hoperand with
    | unary hinside => exact hinside
  | token token => exact check_token_eq_nil_iff
  | numeric value => exact ⟨fun _ => .number, fun _ => rfl⟩

/-! ### Arrays -/

theorem checkAll_eq_nil_iff {elements : List ArrayElement} :
    ArrayElement.checkAll env elements = [] ↔ ∀ element ∈ elements, element.check env = [] := by
  induction elements with
  | nil => simp [ArrayElement.checkAll]
  | cons element rest ih => simp [ArrayElement.checkAll, ih]

theorem mismatches_eq_nil_iff {first : ArrayElement} {rest : List ArrayElement} :
    ArrayElement.mismatches env (first :: rest) = [] ↔
      ∀ expected, HasElementType (.ofTable env.table) env.scope first expected →
        ∀ element ∈ rest, ∀ found,
          HasElementType (.ofTable env.table) env.scope element found → found = expected := by
  simp only [hasElementType_iff]
  cases hfirst : first.type? env with
  | none => simp [ArrayElement.mismatches, hfirst]
  | some expected =>
    simp only [ArrayElement.mismatches, hfirst, List.filterMap_eq_nil_iff, Option.map_eq_none_iff,
      Option.filter_eq_none_iff, Option.some.injEq, decide_eq_true_eq, forall_eq', ne_eq,
      Classical.not_not]

theorem elementOk_of_check (element : ArrayElement) (hcheck : element.check env = []) :
    ElementOk (.ofTable env.table) env.scope element := by
  match element with
  | .operand operand =>
    rw [ArrayElement.check] at hcheck
    exact .operand (check_operand_eq_nil_iff.mp hcheck)
  | .array bracket [] => exact .empty
  | .array bracket (first :: rest) =>
    rw [ArrayElement.check] at hcheck
    obtain ⟨hinside, hagree⟩ := List.append_eq_nil_iff.mp hcheck
    obtain ⟨hfirst, hrest⟩ := List.forall_mem_cons.mp (checkAll_eq_nil_iff.mp hinside)
    refine .array (elementOk_of_check first hfirst) (fun element hmem => ?_)
      (mismatches_eq_nil_iff.mp hagree)
    exact elementOk_of_check element (hrest element hmem)
termination_by sizeOf element
decreasing_by
  · simp only [ArrayElement.array.sizeOf_spec, List.cons.sizeOf_spec]
    omega
  · have hsize := List.sizeOf_lt_of_mem hmem
    simp only [ArrayElement.array.sizeOf_spec, List.cons.sizeOf_spec]
    omega

theorem check_element_eq_nil_iff {element : ArrayElement} :
    element.check env = [] ↔ ElementOk (.ofTable env.table) env.scope element := by
  refine ⟨elementOk_of_check element, fun helement => ?_⟩
  induction helement with
  | operand hoperand =>
    rw [ArrayElement.check]
    exact check_operand_eq_nil_iff.mpr hoperand
  | empty => simp [ArrayElement.check, ArrayElement.checkAll, ArrayElement.mismatches]
  | array hfirst hrest hagree ihfirst ihrest =>
    rw [ArrayElement.check]
    have hinside := checkAll_eq_nil_iff.mpr (List.forall_mem_cons.mpr ⟨ihfirst, ihrest⟩)
    exact List.append_eq_nil_iff.mpr ⟨hinside, mismatches_eq_nil_iff.mpr hagree⟩

/-! ### Calls and values -/

theorem checkArgument_eq_nil_iff {function : Token} {number : Nat} {argument : Operand}
    {expected : ValueType} (hdeclared : argument.isUndeclared env = false) :
    Call.checkArgument env function number argument expected = [] ↔
      argument.type? env = some expected := by
  simp [Call.checkArgument, hdeclared]

/-- The numbers of the arguments matter to the messages only. -/
theorem checkParameters_eq_nil_iff {call : Call} {types : List ValueType}
    (hdeclared : ∀ argument ∈ call.arguments, argument.isUndeclared env = false) :
    call.checkParameters env types = [] ↔
      call.arguments.length = types.length ∧
        ∀ argument type, (argument, type) ∈ call.arguments.zip types →
          argument.type? env = some type := by
  unfold Call.checkParameters
  simp only [List.append_eq_nil_iff, ite_eq_left_iff, List.cons_ne_nil, imp_false,
    Classical.not_not, List.flatMap_eq_nil_iff]
  refine and_congr_right fun _ => ⟨fun hnumbered argument type hmem => ?_, fun htypes => ?_⟩
  · obtain ⟨i, hi⟩ := List.mem_iff_getElem?.mp hmem
    have hargument := hnumbered ((argument, type), i) (List.mk_mem_zipIdx_iff_getElem?.mpr hi)
    exact (checkArgument_eq_nil_iff (hdeclared argument (List.of_mem_zip hmem).1)).mp hargument
  · rintro ⟨⟨argument, type⟩, i⟩ hmem
    have hpair := List.fst_mem_of_mem_zipIdx hmem
    have hargument := hdeclared argument (List.of_mem_zip hpair).1
    exact (checkArgument_eq_nil_iff hargument).mpr (htypes argument type hpair)

theorem check_call_eq_nil_iff {call : Call} :
    call.check env = [] ↔ ∃ entry, CallOk (.ofTable env.table) env.scope call entry := by
  unfold Call.check
  rw [List.append_eq_nil_iff, List.flatMap_eq_nil_iff]
  cases hfunction : env.function? call.name.lexeme with
  | none =>
    refine ⟨fun hcheck => absurd hcheck.1 (List.cons_ne_nil _ _), ?_⟩
    rintro ⟨entry, hcall⟩
    have hdeclared := hcall.declared
    rw [function?_ofTable, hfunction] at hdeclared
    cases hdeclared
  | some symbol =>
    constructor
    · rintro ⟨hparameters, harguments⟩
      have hoperands : ∀ argument ∈ call.arguments,
          OperandOk (.ofTable env.table) env.scope argument := fun argument hmem =>
        check_operand_eq_nil_iff.mp (harguments argument hmem)
      obtain ⟨hlength, htypes⟩ := (checkParameters_eq_nil_iff fun argument hmem =>
        isUndeclared_of_operandOk (hoperands argument hmem)).mp hparameters
      refine ⟨⟨symbol.role.parameterTypes, symbol.type⟩, ?_, hlength, ?_, hoperands⟩
      · rw [function?_ofTable, hfunction, Option.map_some]
      · exact fun argument type hmem => hasType_iff.mpr (htypes argument type hmem)
    · rintro ⟨entry, hcall⟩
      have hdeclared := hcall.declared
      rw [function?_ofTable, hfunction, Option.map_some] at hdeclared
      obtain rfl := Option.some.inj hdeclared
      refine ⟨?_, fun argument hmem => check_operand_eq_nil_iff.mpr (hcall.operands argument hmem)⟩
      refine (checkParameters_eq_nil_iff fun argument hmem =>
        isUndeclared_of_operandOk (hcall.operands argument hmem)).mpr ⟨hcall.length_eq, ?_⟩
      exact fun argument type hmem => hasType_iff.mp (hcall.types argument type hmem)

/-- What the check on the returned value adds, for a function that exists. -/
theorem checkReturn_eq_nil_iff {call : Call} {entry : FunctionEntry}
    (hentry : (Context.ofTable env.table).function? call.name.lexeme = some entry) :
    call.checkReturn env = [] ↔ ∃ type, entry.type = some type := by
  rw [function?_ofTable] at hentry
  obtain ⟨symbol, hfunction, rfl⟩ := Option.map_eq_some_iff.mp hentry
  unfold Call.checkReturn
  rw [hfunction]
  cases htype : symbol.type with
  | none => simp [htype]
  | some type => simp [htype]

theorem check_value_eq_nil_iff {value : Value} :
    value.check env = [] ↔ ValueOk (.ofTable env.table) env.scope value := by
  cases value with
  | call call =>
    rw [Value.check, List.append_eq_nil_iff, check_call_eq_nil_iff]
    constructor
    · rintro ⟨⟨entry, hcall⟩, hreturn⟩
      obtain ⟨type, htype⟩ := (checkReturn_eq_nil_iff hcall.declared).mp hreturn
      exact .call hcall htype
    · intro hvalue
      cases hvalue with
      | call hcall htype =>
        exact ⟨⟨_, hcall⟩, (checkReturn_eq_nil_iff hcall.declared).mpr ⟨_, htype⟩⟩
  | array array =>
    rw [Value.check, check_element_eq_nil_iff]
    refine ⟨.array, fun hvalue => ?_⟩
    cases hvalue with
    | array harray => exact harray
  | operand operand =>
    rw [Value.check, check_operand_eq_nil_iff]
    refine ⟨.operand, fun hvalue => ?_⟩
    cases hvalue with
    | operand hoperand => exact hoperand

theorem check_payload_eq_nil_iff {payload : Payload} :
    payload.check env = [] ↔ PayloadOk (.ofTable env.table) env.scope payload := by
  cases payload with
  | call call =>
    rw [Payload.check, check_call_eq_nil_iff]
    constructor
    · rintro ⟨entry, hcall⟩
      exact .call hcall
    · intro hpayload
      cases hpayload with
      | call hcall => exact ⟨_, hcall⟩
  | operand operand =>
    rw [Payload.check, check_operand_eq_nil_iff]
    refine ⟨.operand, fun hpayload => ?_⟩
    cases hpayload with
    | operand hoperand => exact hoperand

theorem check_declaration_eq_nil_iff {declaration : Declaration} :
    declaration.value?.elim [] (Value.check env) = [] ↔
      DeclarationOk (.ofTable env.table) env.scope declaration := by
  unfold DeclarationOk
  cases declaration.value? with
  | none => simp
  | some value => simp [check_value_eq_nil_iff]

end Typing

end FrontEnd
