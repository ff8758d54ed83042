import FrontEnd.Analysis.Validation
import FrontEnd.Proofs.Naming.Agreement

/-!
What can be inferred and found at a place depends on the answers of the environment there, and on
nothing else that its table holds.
-/

namespace FrontEnd

/-- Two environments of one scope that know the same names. -/
structure Environment.Agrees (env other : Environment) : Prop where
  scope : env.scope = other.scope
  value? (name : String) : env.value? name = other.value? name
  function? (name : String) : env.function? name = other.function? name

variable {env other : Environment}

/-! ### Types -/

theorem Environment.Agrees.agreeOn (henv : env.Agrees other) (occurrences : List Occurrence) :
    env.AgreeOn occurrences other where
  scope := henv.scope
  find? occurrence _ hscope := by
    have hvalue := henv.value? occurrence.name.lexeme
    rw [Environment.value?, Environment.value?, ← henv.scope] at hvalue
    rw [Occurrence.key, hscope]
    cases occurrence.use with
    | call => exact henv.function? occurrence.name.lexeme
    | read | assign | step => exact hvalue

theorem Operand.type?_congr (henv : env.Agrees other) (operand : Operand) :
    operand.type? env = operand.type? other :=
  operand.type?_eq_of_agreeOn (henv.agreeOn _)

theorem ArrayElement.type?_congr (henv : env.Agrees other) (element : ArrayElement) :
    element.type? env = element.type? other :=
  element.type?_eq_of_agreeOn (henv.agreeOn _)

theorem Value.type?_congr (henv : env.Agrees other) (value : Value) :
    value.type? env = value.type? other :=
  value.type?_eq_of_agreeOn (henv.agreeOn _)

theorem Payload.type?_congr (henv : env.Agrees other) (payload : Payload) :
    payload.type? env = payload.type? other :=
  payload.type?_eq_of_agreeOn (henv.agreeOn _)

/-! ### Checks -/

theorem Token.isUndeclared_congr (henv : env.Agrees other) (token : Token) :
    token.isUndeclared env = token.isUndeclared other := by
  rw [Token.isUndeclared, Token.isUndeclared, henv.value?]

theorem Token.undeclaredVariable_congr (henv : env.Agrees other) (token : Token) :
    token.undeclaredVariable env = token.undeclaredVariable other := by
  rw [Token.undeclaredVariable, Token.undeclaredVariable, henv.scope]

theorem Operand.isUndeclared_congr (henv : env.Agrees other) (operand : Operand) :
    operand.isUndeclared env = operand.isUndeclared other := by
  cases operand with
  | token t => exact t.isUndeclared_congr henv
  | _ => rfl

theorem Operand.checkOperator_congr (henv : env.Agrees other) (left : Operand) (operator : Token)
    (right : Operand) :
    Operand.checkOperator env left operator right =
      Operand.checkOperator other left operator right := by
  simp only [Operand.checkOperator, Operand.type?_congr henv, Operand.isUndeclared_congr henv]

theorem Operand.check_congr (henv : env.Agrees other) (operand : Operand) :
    operand.check env = operand.check other := by
  induction operand with
  | binary left operator right ihleft ihright =>
    rw [Operand.check, Operand.check, ihleft, ihright, Operand.checkOperator_congr henv]
  | unary operator operand ih => rw [Operand.check, Operand.check, ih]
  | token t =>
    rw [Operand.check, Operand.check, t.isUndeclared_congr henv, t.undeclaredVariable_congr henv]
  | numeric value => rfl

theorem ArrayElement.mismatches_congr (henv : env.Agrees other) (elements : List ArrayElement) :
    ArrayElement.mismatches env elements = ArrayElement.mismatches other elements := by
  cases elements with
  | nil => rfl
  | cons first rest => simp only [ArrayElement.mismatches, ArrayElement.type?_congr henv]

mutual

theorem ArrayElement.check_congr (henv : env.Agrees other) (element : ArrayElement) :
    element.check env = element.check other := by
  match element with
  | .operand o => rw [ArrayElement.check, ArrayElement.check, o.check_congr henv]
  | .array _ elements =>
    rw [ArrayElement.check, ArrayElement.check, ArrayElement.checkAll_congr henv elements,
      ArrayElement.mismatches_congr henv]

theorem ArrayElement.checkAll_congr (henv : env.Agrees other) (elements : List ArrayElement) :
    ArrayElement.checkAll env elements = ArrayElement.checkAll other elements := by
  match elements with
  | [] => rw [ArrayElement.checkAll, ArrayElement.checkAll]
  | element :: rest =>
    rw [ArrayElement.checkAll, ArrayElement.checkAll, ArrayElement.check_congr henv element,
      ArrayElement.checkAll_congr henv rest]

end

theorem Call.checkParameters_congr (henv : env.Agrees other) (call : Call)
    (types : List ValueType) :
    call.checkParameters env types = call.checkParameters other types := by
  simp only [Call.checkParameters, Call.checkArgument, Operand.type?_congr henv,
    Operand.isUndeclared_congr henv]

theorem Call.check_congr (henv : env.Agrees other) (call : Call) :
    call.check env = call.check other := by
  simp only [Call.check, henv.function?, Call.checkParameters_congr henv,
    funext (Operand.check_congr henv)]

theorem Call.checkReturn_congr (henv : env.Agrees other) (call : Call) :
    call.checkReturn env = call.checkReturn other := by
  rw [Call.checkReturn, Call.checkReturn, henv.function?]

theorem Value.check_congr (henv : env.Agrees other) (value : Value) :
    value.check env = value.check other := by
  cases value with
  | call c => rw [Value.check, Value.check, c.check_congr henv, c.checkReturn_congr henv]
  | array a => exact a.toElement.check_congr henv
  | operand o => exact o.check_congr henv

theorem Payload.check_congr (henv : env.Agrees other) (payload : Payload) :
    payload.check env = payload.check other := by
  cases payload with
  | call c => exact c.check_congr henv
  | operand o => exact o.check_congr henv

theorem checkTarget_congr (henv : env.Agrees other) (target : Token) :
    checkTarget env target = checkTarget other target := by
  rw [checkTarget, checkTarget, henv.value?, target.undeclaredVariable_congr henv]

theorem checkStep_congr (henv : env.Agrees other) (direction : StepDirection) (target : Token) :
    checkStep env direction target = checkStep other direction target := by
  rw [checkStep, checkStep, henv.value?, target.undeclaredVariable_congr henv]

theorem Action.check_congr (henv : env.Agrees other) (action : Action) :
    action.check env = action.check other := by
  cases action with
  | declare declaration =>
    rw [Action.check, Action.check, funext (Value.check_congr henv)]
  | assign target value =>
    rw [Action.check, Action.check, checkTarget_congr henv, value.check_congr henv]
  | step direction target => exact checkStep_congr henv direction target
  | use payload => exact payload.check_congr henv
  | ret payload => exact payload.check_congr henv

end FrontEnd
