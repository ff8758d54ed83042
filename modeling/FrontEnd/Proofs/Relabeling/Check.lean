import FrontEnd.Analysis.Validation
import FrontEnd.Proofs.Relabeling.Diagnostic
import FrontEnd.Proofs.Relabeling.Environment

/-!
The checks under new labels: on relabeled parts of a program, and with the relabeled names declared,
they find the same diagnostics under new labels.
-/

namespace FrontEnd

variable {r : Relabeling} {env other : Environment}

/-! ### Operands -/

theorem Token.isUndeclared_relabel (hr : r.Faithful) (henv : env.Relabels r other) (t : Token) :
    (t.relabel r).isUndeclared other = t.isUndeclared env := by
  unfold Token.isUndeclared
  rw [Token.kind_relabel]
  by_cases hname : t.kind = .identifier
  · rw [Token.relabel_of_identifier r hname, Token.lexeme_renamed, henv.value? hr,
      Option.isNone_map]
  · simp [hname]

theorem Operand.isUndeclared_relabel (hr : r.Faithful) (henv : env.Relabels r other) (o : Operand) :
    (o.relabel r).isUndeclared other = o.isUndeclared env := by
  cases o with
  | token t => exact t.isUndeclared_relabel hr henv
  | _ => rfl

theorem undeclaredVariable_relabels (henv : env.Relabels r other) (t : Token) :
    RelabelsAll r [t.undeclaredVariable env] [(t.renamed r).undeclaredVariable other] := by
  unfold Token.undeclaredVariable
  rw [Token.lexeme_renamed, henv.scope]
  exact relabelsAll_single r (.undeclaredVariable t.lexeme env.scope) rfl

theorem checkOperator_relabels (hr : r.Faithful) (henv : env.Relabels r other)
    (left : Operand) (operator : Token) (right : Operand) :
    RelabelsAll r (Operand.checkOperator env left operator right)
      (Operand.checkOperator other (left.relabel r) (operator.moved r) (right.relabel r)) := by
  unfold Operand.checkOperator
  simp only [Operand.isUndeclared_relabel hr henv, Operand.type?_relabel hr henv,
    Token.kind_moved, Token.lexeme_moved]
  split
  · exact .nil
  · split
    · split
      · exact .nil
      · exact relabelsAll_single r (.operandsNotNumeric _ _ _) rfl
    · split
      · exact relabelsAll_single r (.operandsNotOrdered _ _ _) rfl
      · exact .nil
    · exact .nil

theorem check_operand_relabels (hr : r.Faithful) (henv : env.Relabels r other) (o : Operand) :
    RelabelsAll r (o.check env) ((o.relabel r).check other) := by
  induction o with
  | binary left operator right ihleft ihright =>
    have hsides := List.rel_append ihleft ihright
    exact List.rel_append hsides (checkOperator_relabels hr henv left operator right)
  | unary operator operand ih => exact ih
  | token t =>
    simp only [Operand.relabel, Operand.check, t.isUndeclared_relabel hr henv]
    by_cases hreported : t.isUndeclared env = true
    · have hname : t.kind = .identifier := by
        unfold Token.isUndeclared at hreported
        simpa using (Bool.and_eq_true_iff.mp hreported).1
      rw [if_pos hreported, if_pos hreported, Token.relabel_of_identifier r hname]
      exact undeclaredVariable_relabels henv t
    · rw [if_neg hreported, if_neg hreported]
      exact .nil
  | numeric value => exact .nil

/-! ### Arrays -/

theorem Operand.firstToken_relabel (o : Operand) :
    (o.relabel r).firstToken = o.firstToken.moved r ∨
      (o.relabel r).firstToken = o.firstToken.renamed r := by
  induction o with
  | binary left operator right ihleft ihright => exact ihleft
  | unary operator operand ih => exact .inl rfl
  | token t =>
    unfold Operand.relabel Operand.firstToken Token.relabel
    by_cases hname : t.kind = .identifier
    · exact .inr (if_pos hname)
    · exact .inl (if_neg hname)
  | numeric value =>
    obtain ⟨sign, number⟩ := value
    cases sign <;> exact .inl rfl

theorem ArrayElement.firstToken_relabel (element : ArrayElement) :
    (element.relabel r).firstToken = element.firstToken.moved r ∨
      (element.relabel r).firstToken = element.firstToken.renamed r := by
  cases element with
  | operand o =>
    rw [ArrayElement.relabel]
    exact o.firstToken_relabel
  | array bracket elements =>
    rw [ArrayElement.relabel]
    exact .inl rfl

theorem elementMismatch_relabels (element : ArrayElement) (found expected : ValueType) :
    Diagnostic.Relabels r
      (.ofMeaning (.elementMismatch element.firstToken.lexeme found expected) element.firstToken)
      (.ofMeaning (.elementMismatch (element.relabel r).firstToken.lexeme found expected)
        (element.relabel r).firstToken) := by
  rcases element.firstToken_relabel (r := r) with hfirst | hfirst
  · rw [hfirst]
    exact .inMeaning (.elementMismatch found expected (.inl rfl))
  · rw [hfirst]
    exact .inMeaning (.elementMismatch found expected (.inr rfl))

theorem mismatches_relabels (hr : r.Faithful) (henv : env.Relabels r other)
    (elements : List ArrayElement) :
    RelabelsAll r (ArrayElement.mismatches env elements)
      (ArrayElement.mismatches other (ArrayElement.relabelAll r elements)) := by
  rw [ArrayElement.relabelAll_eq_map]
  cases elements with
  | nil => exact .nil
  | cons first rest =>
    rw [List.map_cons]
    unfold ArrayElement.mismatches
    simp only [ArrayElement.type?_relabel hr henv first]
    cases first.type? env with
    | none => exact .nil
    | some expected =>
      simp only
      induction rest with
      | nil => exact .nil
      | cons element rest ih =>
        rw [List.map_cons, List.filterMap_cons, List.filterMap_cons,
          ArrayElement.type?_relabel hr henv element]
        cases (element.type? env).filter (· ≠ expected) with
        | none => exact ih
        | some found => exact .cons (elementMismatch_relabels element found expected) ih

mutual

theorem check_element_relabels (hr : r.Faithful) (henv : env.Relabels r other)
    (element : ArrayElement) :
    RelabelsAll r (element.check env) ((element.relabel r).check other) := by
  match element with
  | .operand o =>
    rw [ArrayElement.relabel, ArrayElement.check, ArrayElement.check]
    exact check_operand_relabels hr henv o
  | .array bracket elements =>
    rw [ArrayElement.relabel, ArrayElement.check, ArrayElement.check]
    have hinside := checkAll_relabels hr henv elements
    exact List.rel_append hinside (mismatches_relabels hr henv elements)

theorem checkAll_relabels (hr : r.Faithful) (henv : env.Relabels r other)
    (elements : List ArrayElement) :
    RelabelsAll r (ArrayElement.checkAll env elements)
      (ArrayElement.checkAll other (ArrayElement.relabelAll r elements)) := by
  match elements with
  | [] =>
    rw [ArrayElement.relabelAll, ArrayElement.checkAll, ArrayElement.checkAll]
    exact .nil
  | element :: rest =>
    rw [ArrayElement.relabelAll, ArrayElement.checkAll, ArrayElement.checkAll]
    have hfirst := check_element_relabels hr henv element
    exact List.rel_append hfirst (checkAll_relabels hr henv rest)

end

/-! ### Calls and values -/

theorem Operand.location_firstToken_relabel (o : Operand) :
    (o.relabel r).firstToken.location = r.location o.firstToken.location := by
  rcases o.firstToken_relabel (r := r) with hfirst | hfirst <;> rw [hfirst] <;> rfl

theorem checkArgument_relabels (hr : r.Faithful) (henv : env.Relabels r other) (function : Token)
    (number : Nat) (argument : Operand) (expected : ValueType) :
    RelabelsAll r (Call.checkArgument env function number argument expected)
      (Call.checkArgument other (function.renamed r) number (argument.relabel r) expected) := by
  unfold Call.checkArgument
  simp only [Operand.isUndeclared_relabel hr henv, Operand.type?_relabel hr henv,
    Token.lexeme_renamed]
  split
  · exact .nil
  · exact relabelsAll_single r (.argumentMismatch _ _ _ _)
      (Operand.location_firstToken_relabel argument)

theorem checkParameters_relabels (hr : r.Faithful) (henv : env.Relabels r other) (call : Call)
    (types : List ValueType) :
    RelabelsAll r (call.checkParameters env types)
      ((call.relabel r).checkParameters other types) := by
  have harguments : ((call.relabel r).arguments.zip types).zipIdx =
      (call.arguments.zip types).zipIdx.map fun entry =>
        ((entry.1.1.relabel r, entry.1.2), entry.2) := by
    rw [Call.relabel, List.zip_map_left, List.zipIdx_map]
    rfl
  have hlength : (call.relabel r).arguments.length = call.arguments.length :=
    List.length_map _
  unfold Call.checkParameters
  rw [harguments, hlength]
  refine List.rel_append ?_ (relabelsAll_flatMap r ?_)
  · split
    · exact .nil
    · exact relabelsAll_single r (.argumentCount _ _ _) rfl
  · rintro ⟨⟨argument, expected⟩, i⟩ -
    exact checkArgument_relabels hr henv call.name (i + 1) argument expected

theorem check_call_relabels (hr : r.Faithful) (henv : env.Relabels r other) (call : Call) :
    RelabelsAll r (call.check env) ((call.relabel r).check other) := by
  have hfunction : other.function? (call.relabel r).name.lexeme =
      (env.function? call.name.lexeme).map (Symbol.relabel r) :=
    henv.function? hr call.name.lexeme
  unfold Call.check
  rw [hfunction]
  refine List.rel_append ?_ (relabelsAll_flatMap r fun argument _ =>
    check_operand_relabels hr henv argument)
  cases env.function? call.name.lexeme with
  | none => exact relabelsAll_single r (.undeclaredFunction _) rfl
  | some symbol => exact checkParameters_relabels hr henv call symbol.role.parameterTypes

theorem checkReturn_relabels (hr : r.Faithful) (henv : env.Relabels r other) (call : Call) :
    RelabelsAll r (call.checkReturn env) ((call.relabel r).checkReturn other) := by
  have hfunction : (other.function? (call.relabel r).name.lexeme).any (fun s => s.type.isNone) =
      (env.function? call.name.lexeme).any fun symbol => symbol.type.isNone := by
    rw [Call.relabel, Token.lexeme_renamed, henv.function? hr]
    cases env.function? call.name.lexeme <;> rfl
  unfold Call.checkReturn
  rw [hfunction]
  by_cases hnone : ((env.function? call.name.lexeme).any fun symbol => symbol.type.isNone) = true
  · rw [if_pos hnone, if_pos hnone]
    exact relabelsAll_single r (.noReturnValue _) rfl
  · rw [if_neg hnone, if_neg hnone]
    exact .nil

theorem check_value_relabels (hr : r.Faithful) (henv : env.Relabels r other) (value : Value) :
    RelabelsAll r (value.check env) ((value.relabel r).check other) := by
  cases value with
  | call call =>
    exact List.rel_append (check_call_relabels hr henv call) (checkReturn_relabels hr henv call)
  | array array =>
    rw [Value.relabel, Value.check, Value.check, ArrayLiteral.toElement_relabel]
    exact check_element_relabels hr henv array.toElement
  | operand o => exact check_operand_relabels hr henv o

theorem check_payload_relabels (hr : r.Faithful) (henv : env.Relabels r other)
    (payload : Payload) : RelabelsAll r (payload.check env) ((payload.relabel r).check other) := by
  cases payload with
  | call call => exact check_call_relabels hr henv call
  | operand o => exact check_operand_relabels hr henv o

/-! ### Targets -/

theorem checkTarget_relabels (hr : r.Faithful) (henv : env.Relabels r other) (target : Token) :
    RelabelsAll r (checkTarget env target) (checkTarget other (target.renamed r)) := by
  unfold checkTarget
  rw [Token.lexeme_renamed, henv.value? hr]
  cases env.value? target.lexeme with
  | none => exact undeclaredVariable_relabels henv target
  | some symbol =>
    by_cases hmutable : symbol.isMutable = true
    · simp only [Option.map_some, Symbol.relabel, if_pos hmutable]
      exact .nil
    · simp only [Option.map_some, Symbol.relabel, if_neg hmutable]
      exact relabelsAll_single r (.constantAssigned _) rfl

theorem checkStep_relabels (hr : r.Faithful) (henv : env.Relabels r other)
    (direction : StepDirection) (target : Token) :
    RelabelsAll r (checkStep env direction target)
      (checkStep other direction (target.renamed r)) := by
  unfold checkStep
  rw [Token.lexeme_renamed, henv.value? hr]
  cases env.value? target.lexeme with
  | none => exact undeclaredVariable_relabels henv target
  | some symbol =>
    simp only [Option.map_some, Symbol.relabel]
    refine List.rel_append ?_ ?_
    · split
      · exact .nil
      · exact relabelsAll_single r (.constantStepped _ _) rfl
    · split
      · exact .nil
      · exact relabelsAll_single r (.stepNotNumeric _ _ _) rfl

theorem retypeAt_relabel (hr : r.Faithful) (key : Key) (type : Option ValueType)
    (symbol : Symbol) :
    (symbol.relabel r).retypeAt (key.relabel r) type = (symbol.retypeAt key type).relabel r := by
  unfold Symbol.retypeAt
  simp only [Symbol.key_relabel, Key.relabel_inj hr]
  split <;> rfl

theorem retypeTarget_relabels (hr : r.Faithful) (henv : env.Relabels r other) (target : Token)
    (value : Value) :
    (retypeTarget env target value).Relabels r
      (retypeTarget other (target.renamed r) (value.relabel r)) := by
  unfold retypeTarget
  rw [Token.lexeme_renamed, henv.value? hr, Value.type?_relabel hr henv]
  cases env.value? target.lexeme with
  | none => exact henv.table
  | some symbol =>
    cases value.type? env with
    | none => exact henv.table
    | some type =>
      by_cases hmutable : symbol.isMutable = true
      · have hmutableRelabeled : (symbol.relabel r).isMutable = true := hmutable
        simp only [Option.map_some, if_pos hmutable, if_pos hmutableRelabeled]
        unfold SymbolTable.Relabels
        rw [SymbolTable.toList_retype?, SymbolTable.toList_retype?, Symbol.key_relabel, henv.table,
          List.map_map, List.map_map]
        refine List.map_congr_left fun symbol _ => ?_
        exact retypeAt_relabel hr _ _ symbol
      · have hmutableRelabeled : (symbol.relabel r).isMutable ≠ true := hmutable
        simp only [Option.map_some, if_neg hmutable, if_neg hmutableRelabeled]
        exact henv.table

end FrontEnd
