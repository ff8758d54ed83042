import FrontEnd.Analysis.Inference
import FrontEnd.Proofs.Grammar.Map
import FrontEnd.Proofs.Parsing.Operand

/-!
The type of an operand does not depend on how it is grouped. Arithmetic combines operands, its
terms, and its type is told by these alone: it is decimal if a name or number among them is, and
integer in all other cases. An operand that has been read is without a type only if it is a name
that has none.
-/

namespace FrontEnd

def TokenKind.isArithmetic : TokenKind → Bool
  | arithmetic _ => true
  | _ => false

namespace OperatorClass

variable {kind : TokenKind} {left right : Option ValueType}

theorem map_resultType_of_isArithmetic (harithmetic : kind.isArithmetic = true) :
    (ofKind? kind).map (·.resultType left right) =
      some (if left = some .decimal ∨ right = some .decimal then .decimal else .integer) := by
  cases kind <;> first | rfl | cases harithmetic

theorem map_resultType_eq_decimal_iff (harithmetic : kind.isArithmetic = true) :
    (ofKind? kind).map (·.resultType left right) = some .decimal ↔
      left = some .decimal ∨ right = some .decimal := by
  rw [map_resultType_of_isArithmetic harithmetic]
  split <;> simp_all

/-- An operator that is not arithmetic does not give a decimal, whatever its sides are. -/
theorem map_resultType_ne_decimal (hother : ¬ kind.isArithmetic = true) :
    (ofKind? kind).map (·.resultType left right) ≠ some .decimal := by
  unfold ofKind?
  split
  case h_4 => exact absurd rfl hother
  all_goals simp [resultType]

end OperatorClass

/-- The binary operators of the grammar are operators that have a class. -/
theorem Grammar.Level.isSome_class {kind : TokenKind} {level : Level}
    (hlevel : Level.ofKind? kind = some level) : (OperatorClass.ofKind? kind).isSome = true := by
  cases kind <;> first | rfl | cases hlevel

namespace Operand

/-! ### Terms -/

/-- Whether the outermost operator is one of arithmetic. -/
def isArithmetic : Operand → Bool
  | binary _ operator _ => operator.kind.isArithmetic
  | unary operator _ => operator.kind.isArithmetic
  | token _ => false
  | numeric _ => false

/-- Whether the operand is without operators. -/
def isLeaf : Operand → Bool
  | binary _ _ _ => false
  | unary _ _ => false
  | token _ => true
  | numeric _ => true

/-- What is reached from the operand through operators of arithmetic only, from left to right. An
operand that is not arithmetic is its only term, and so is one without operators. -/
def terms : Operand → List Operand
  | binary left operator right =>
    if operator.kind.isArithmetic then left.terms ++ right.terms else [.binary left operator right]
  | unary operator operand =>
    if operator.kind.isArithmetic then operand.terms else [.unary operator operand]
  | token t => [.token t]
  | numeric value => [.numeric value]

/-- The operand without the places of its tokens. -/
def withoutPlaces (operand : Operand) : Operand :=
  operand.mapTokens Token.withoutPlace

/-! ### Types from terms -/

variable (env : Environment)

theorem type?_withoutPlaces (operand : Operand) :
    operand.withoutPlaces.type? env = operand.type? env := by
  unfold withoutPlaces
  induction operand with
  | binary left operator right ihleft ihright =>
    rw [mapTokens, type?, type?, ihleft, ihright]
    rfl
  | unary operator operand ih =>
    rw [mapTokens, type?, type?, ih]
    rfl
  | token t | numeric value => rfl

/-- Arithmetic always has a type, even if its sides have none. -/
theorem type?_of_isArithmetic {operand : Operand} (harithmetic : operand.isArithmetic = true) :
    operand.type? env = some .decimal ∨ operand.type? env = some .integer := by
  cases operand with
  | binary left operator right =>
    rw [type?, OperatorClass.map_resultType_of_isArithmetic harithmetic]
    split <;> simp
  | unary operator operand =>
    rw [type?, OperatorClass.map_resultType_of_isArithmetic harithmetic]
    split <;> simp
  | token t | numeric value => cases harithmetic

theorem type?_eq_decimal_iff_terms (operand : Operand) :
    operand.type? env = some .decimal ↔
      ∃ term ∈ operand.terms, term.type? env = some .decimal := by
  induction operand with
  | binary left operator right ihleft ihright =>
    rw [terms]
    split
    · next harithmetic =>
      rw [type?, OperatorClass.map_resultType_eq_decimal_iff harithmetic, ihleft, ihright]
      simp [or_and_right, exists_or]
    · simp
  | unary operator operand ih =>
    rw [terms]
    split
    · next harithmetic =>
      rw [type?, OperatorClass.map_resultType_eq_decimal_iff harithmetic, ih]
      simp
    · simp
  | token t | numeric value => simp [terms]

/-- Of the terms, only those without operators may be decimals. -/
theorem isLeaf_of_mem_terms {operand term : Operand} (hmem : term ∈ operand.terms)
    (hdecimal : term.type? env = some .decimal) : term.isLeaf = true := by
  induction operand with
  | binary left operator right ihleft ihright =>
    rw [terms] at hmem
    split at hmem
    · exact (List.mem_append.mp hmem).elim ihleft ihright
    · next hother =>
      obtain rfl := List.mem_singleton.mp hmem
      exact absurd hdecimal (OperatorClass.map_resultType_ne_decimal hother)
  | unary operator operand ih =>
    rw [terms] at hmem
    split at hmem
    · exact ih hmem
    · next hother =>
      obtain rfl := List.mem_singleton.mp hmem
      exact absurd hdecimal (OperatorClass.map_resultType_ne_decimal hother)
  | token t | numeric value =>
    obtain rfl := List.mem_singleton.mp hmem
    rfl

theorem type?_eq_decimal_iff (operand : Operand) :
    operand.type? env = some .decimal ↔
      ∃ leaf ∈ operand.terms, leaf.isLeaf = true ∧ leaf.type? env = some .decimal := by
  rw [type?_eq_decimal_iff_terms]
  exact exists_congr fun term => and_congr_right fun hmem =>
    ⟨fun hdecimal => ⟨isLeaf_of_mem_terms env hmem hdecimal, hdecimal⟩, And.right⟩

/-- Terms in another order and at other places make the same type. -/
theorem type?_eq_decimal_of_perm {first second : Operand}
    (hterms : (first.terms.map withoutPlaces).Perm (second.terms.map withoutPlaces))
    (hdecimal : first.type? env = some .decimal) : second.type? env = some .decimal := by
  rw [type?_eq_decimal_iff_terms] at hdecimal ⊢
  obtain ⟨term, hmem, hterm⟩ := hdecimal
  obtain ⟨other, hother, hsame⟩ :=
    List.mem_map.mp (hterms.mem_iff.mp (List.mem_map_of_mem (f := withoutPlaces) hmem))
  refine ⟨other, hother, ?_⟩
  rw [← type?_withoutPlaces, hsame, type?_withoutPlaces, hterm]

/-! ### What has no type -/

/-- A name by itself that is not declared in the scope, or that has no type there. -/
def IsUntypedName (operand : Operand) : Prop :=
  ∃ name, operand = .token name ∧ name.kind = .identifier ∧
    (env.value? name.lexeme = none ∨
      ∃ symbol, env.value? name.lexeme = some symbol ∧ symbol.type = none)

theorem type?_eq_none_iff_isUntypedName {tier : Grammar.Tier} {tokens : List Token}
    {operand : Operand} (hoperand : Grammar.IsOperand tier tokens operand) :
    operand.type? env = none ↔ operand.IsUntypedName env := by
  induction hoperand with
  | tighter _ ih | atom _ ih | parenthesized _ _ _ ih => exact ih
  | binary _ hlevel _ _ _ =>
    obtain ⟨cls, hclass⟩ := Option.isSome_iff_exists.mp (Grammar.Level.isSome_class hlevel)
    simp [type?, hclass, IsUntypedName]
  | negation hnot _ _ => simp [type?, hnot, OperatorClass.ofKind?, IsUntypedName]
  | @name name hkind =>
    rw [type?, Token.type?, hkind]
    cases hvalue : env.value? name.lexeme <;> simp [IsUntypedName, hkind, hvalue]
  | string hkind | char hkind => simp [type?, Token.type?, hkind, IsUntypedName]
  | number _ | signed _ _ => simp [type?, IsUntypedName]

/-! ### Operands that are read -/

/-- The type of an operand that is read, in any table and scope. It is unknown exactly for a name by
itself that is undeclared or untyped. It is decimal exactly if something without operators is that
is reached through arithmetic only, and other arithmetic is integer. Two arithmetic operands with
the same terms, in whatever order, grouping and parentheses, have the same type. -/
theorem type?_of_readOperand? {tokens rest : List Token} {operand : Operand}
    (hread : readOperand? tokens = some (operand, rest)) :
    (operand.type? env = none ↔ operand.IsUntypedName env) ∧
      (operand.type? env = some .decimal ↔
        ∃ leaf ∈ operand.terms, leaf.isLeaf = true ∧ leaf.type? env = some .decimal) ∧
      (operand.isArithmetic = true → operand.type? env ≠ some .decimal →
        operand.type? env = some .integer) ∧
      ∀ otherTokens otherRest other, readOperand? otherTokens = some (other, otherRest) →
        operand.isArithmetic = true → other.isArithmetic = true →
        (operand.terms.map withoutPlaces).Perm (other.terms.map withoutPlaces) →
        operand.type? env = other.type? env := by
  obtain ⟨taken, -, hoperand⟩ := isExpression_of_readOperand? hread
  refine ⟨type?_eq_none_iff_isUntypedName env hoperand, type?_eq_decimal_iff env operand,
    fun harithmetic hother => (type?_of_isArithmetic env harithmetic).resolve_left hother, ?_⟩
  intro _ _ other _ harithmetic hother hterms
  rcases type?_of_isArithmetic env harithmetic with hdecimal | hinteger
  · rw [hdecimal, type?_eq_decimal_of_perm env hterms hdecimal]
  · rcases type?_of_isArithmetic env hother with hdecimal | hsame
    · rw [hdecimal, type?_eq_decimal_of_perm env hterms.symm hdecimal]
    · rw [hinteger, hsame]

/-- The terms of `(1 + @x) * 2.5` are those of `2.5 - 1 / @x`. -/
theorem type?_of_readOperand?_regrouped :
    let word (kind : TokenKind) (lexeme : String) (column : Nat) : Token :=
      ⟨kind, lexeme, ⟨0, column, ⟨column, column + lexeme.utf8ByteSize⟩⟩⟩
    let operator (operator : ArithmeticOperator) := word (.arithmetic operator)
    let name (column : Nat) := word .identifier "@x" column
    let one (column : Nat) := word .integer "1" column
    let fraction (column : Nat) := word .decimal "2.5" column
    let first := Operand.binary
      (.binary (.numeric ⟨none, one 1⟩) (operator .add "+" 3) (.token (name 5)))
      (operator .mul "*" 9) (.numeric ⟨none, fraction 11⟩)
    let second := Operand.binary (.numeric ⟨none, fraction 0⟩) (operator .sub "-" 4)
      (.binary (.numeric ⟨none, one 6⟩) (operator .div "/" 8) (.token (name 10)))
    let firstTokens := [word .leftParen "(" 0, one 1, operator .add "+" 3, name 5,
      word .rightParen ")" 7, operator .mul "*" 9, fraction 11]
    let secondTokens := [fraction 0, operator .sub "-" 4, one 6, operator .div "/" 8, name 10]
    readOperand? firstTokens = some (first, []) ∧ readOperand? secondTokens = some (second, []) ∧
      (first.terms.map withoutPlaces).Perm (second.terms.map withoutPlaces) ∧
      first.type? ⟨∅, .unit⟩ = second.type? ⟨∅, .unit⟩ ∧
      second.type? ⟨∅, .unit⟩ = some .decimal := by
  intro word operator name one fraction first second firstTokens secondTokens
  have hfirst : readOperand? firstTokens = some (first, []) := by decide +kernel
  have hsecond : readOperand? secondTokens = some (second, []) := by decide +kernel
  have hterms : (first.terms.map withoutPlaces).Perm (second.terms.map withoutPlaces) := by
    decide +kernel
  obtain ⟨-, -, -, hsame⟩ := type?_of_readOperand? ⟨∅, .unit⟩ hfirst
  obtain ⟨-, hdecimal, -, -⟩ := type?_of_readOperand? ⟨∅, .unit⟩ hsecond
  refine ⟨hfirst, hsecond, hterms, hsame _ _ _ hsecond rfl rfl hterms, hdecimal.mpr ?_⟩
  exact ⟨.numeric ⟨none, fraction 0⟩, by decide, rfl, rfl⟩

end Operand

end FrontEnd
