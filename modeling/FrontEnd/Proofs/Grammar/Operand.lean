import FrontEnd.Syntax.Operand

/-!
The grammar of operands, as a relation between lists of tokens and syntax trees. It is stated apart
from the readers: six levels of binary operators that group to the left, `!` above them, and atoms.
-/

namespace FrontEnd.Grammar

/-- The levels of binary operators, the loosest first. -/
inductive Level where
  | concatenation
  | disjunction
  | conjunction
  | comparison
  | sum
  | product
deriving DecidableEq

/-- The forms of operands from the outside in. -/
inductive Tier where
  | binary (level : Level)
  | unary
  | atom

namespace Level

/-- The level to which a binary operator belongs. -/
def ofKind? : TokenKind → Option Level
  | .concat => some concatenation
  | .logical .or => some disjunction
  | .logical .and => some conjunction
  | .relational _ => some comparison
  | .arithmetic .add | .arithmetic .sub => some sum
  | .arithmetic .mul | .arithmetic .div | .arithmetic .rem => some product
  | _ => none

/-- A level that binds closer has a greater rank. -/
def rank : Level → Nat
  | concatenation => 0
  | disjunction => 1
  | conjunction => 2
  | comparison => 3
  | sum => 4
  | product => 5

/-- The form of the sides of an operator of the level, the right one in full. -/
def tighter : Level → Tier
  | concatenation => .binary disjunction
  | disjunction => .binary conjunction
  | conjunction => .binary comparison
  | comparison => .binary sum
  | sum => .binary product
  | product => .unary

/-- The level and those that bind closer, the loosest first. -/
def andTighter : Level → List Level
  | concatenation => [concatenation, disjunction, conjunction, comparison, sum, product]
  | disjunction => [disjunction, conjunction, comparison, sum, product]
  | conjunction => [conjunction, comparison, sum, product]
  | comparison => [comparison, sum, product]
  | sum => [sum, product]
  | product => [product]

end Level

/-- What holds of atoms, of `!`, and of a level as soon as it holds of the next one, holds of every
form of operand. -/
theorem Tier.induction {motive : Tier → Prop} (hatom : motive .atom)
    (hunary : motive .atom → motive .unary)
    (hbinary : ∀ level : Level, motive level.tighter → motive (.binary level)) (tier : Tier) :
    motive tier := by
  have hproduct := hbinary .product (hunary hatom)
  have hsum := hbinary .sum hproduct
  have hcomparison := hbinary .comparison hsum
  have hconjunction := hbinary .conjunction hcomparison
  have hdisjunction := hbinary .disjunction hconjunction
  cases tier with
  | atom => exact hatom
  | unary => exact hunary hatom
  | binary level =>
    cases level with
    | concatenation => exact hbinary .concatenation hdisjunction
    | disjunction => exact hdisjunction
    | conjunction => exact hconjunction
    | comparison => exact hcomparison
    | sum => exact hsum
    | product => exact hproduct

/-- A form of operand that is no looser than a given level of operators keeps to itself when one of
these operators follows. -/
def Tier.isTighterThan : Tier → Level → Prop
  | binary level, other => other.rank < level.rank
  | unary, _ => True
  | atom, _ => True

theorem Level.tighter_isTighterThan (level : Level) : level.tighter.isTighterThan level := by
  cases level <;> simp [tighter, Tier.isTighterThan, rank]

theorem Tier.isTighterThan.tighter {level other : Level}
    (htighter : (Tier.binary level).isTighterThan other) : level.tighter.isTighterThan other := by
  cases level <;> cases other <;> simp_all [Level.tighter, Tier.isTighterThan, Level.rank]

/-- What follows an operand does not start with an operator that could take it for its left side. -/
def Tier.EndsBefore (tier : Tier) (rest : List Token) : Prop :=
  ∀ token ∈ rest.head?, ∀ level, Level.ofKind? token.kind = some level → tier.isTighterThan level

theorem Tier.EndsBefore.tighter {level : Level} {rest : List Token}
    (hends : (Tier.binary level).EndsBefore rest) : level.tighter.EndsBefore rest :=
  fun token htoken other hother => (hends token htoken other hother).tighter

/-- The operands of each form and the tokens that they are written with. -/
inductive IsOperand : Tier → List Token → Operand → Prop
  | tighter {level : Level} {tokens : List Token} {operand : Operand} :
    IsOperand level.tighter tokens operand → IsOperand (.binary level) tokens operand
  | binary {level : Level} {before after : List Token} {operator : Token} {left right : Operand} :
    IsOperand (.binary level) before left → Level.ofKind? operator.kind = some level →
    IsOperand level.tighter after right →
    IsOperand (.binary level) (before ++ operator :: after) (.binary left operator right)
  | atom {tokens : List Token} {operand : Operand} :
    IsOperand .atom tokens operand → IsOperand .unary tokens operand
  | negation {operator : Token} {tokens : List Token} {operand : Operand} :
    operator.kind = .logical .not → IsOperand .unary tokens operand →
    IsOperand .unary (operator :: tokens) (.unary operator operand)
  | parenthesized {opening closing : Token} {tokens : List Token} {operand : Operand} :
    opening.kind = .leftParen → IsOperand (.binary .concatenation) tokens operand →
    closing.kind = .rightParen → IsOperand .atom (opening :: tokens ++ [closing]) operand
  | name {token : Token} :
    token.kind = .identifier → IsOperand .atom [token] (.token token)
  | string {token : Token} :
    token.kind = .string → IsOperand .atom [token] (.token token)
  | char {token : Token} :
    token.kind = .char → IsOperand .atom [token] (.token token)
  | number {number : Token} :
    number.kind = .integer ∨ number.kind = .decimal →
    IsOperand .atom [number] (.numeric ⟨none, number⟩)
  | signed {sign number : Token} :
    sign.kind = .arithmetic .add ∨ sign.kind = .arithmetic .sub →
    number.kind = .integer ∨ number.kind = .decimal →
    IsOperand .atom [sign, number] (.numeric ⟨some sign, number⟩)

/-- The operands of the language. -/
abbrev IsExpression (tokens : List Token) (operand : Operand) : Prop :=
  IsOperand (.binary .concatenation) tokens operand

/-- The kinds of token that an operand can start with. -/
def startsOperand : TokenKind → Prop
  | .logical .not | .leftParen | .identifier | .string | .char | .integer | .decimal
  | .arithmetic .add | .arithmetic .sub => True
  | _ => False

theorem IsOperand.starts {tier : Tier} {tokens : List Token} {operand : Operand}
    (hoperand : IsOperand tier tokens operand) :
    ∃ first rest, tokens = first :: rest ∧ startsOperand first.kind := by
  induction hoperand with
  | tighter _ ih => exact ih
  | binary _ _ _ ih _ =>
    obtain ⟨first, rest, rfl, hfirst⟩ := ih
    exact ⟨first, _, List.cons_append, hfirst⟩
  | atom _ ih => exact ih
  | negation hkind _ _ => exact ⟨_, _, rfl, by simp [hkind, startsOperand]⟩
  | parenthesized hkind _ _ _ => exact ⟨_, _, List.cons_append, by simp [hkind, startsOperand]⟩
  | name hkind => exact ⟨_, _, rfl, by simp [hkind, startsOperand]⟩
  | string hkind => exact ⟨_, _, rfl, by simp [hkind, startsOperand]⟩
  | char hkind => exact ⟨_, _, rfl, by simp [hkind, startsOperand]⟩
  | number hkind =>
    exact ⟨_, _, rfl, by rcases hkind with hkind | hkind <;> simp [hkind, startsOperand]⟩
  | signed hkind _ =>
    exact ⟨_, _, rfl, by rcases hkind with hkind | hkind <;> simp [hkind, startsOperand]⟩

/-- An atom does not start with the operator `!`. -/
theorem IsOperand.starts_atom {tokens : List Token} {operand : Operand}
    (hoperand : IsOperand .atom tokens operand) :
    ∃ first rest, tokens = first :: rest ∧ first.kind ≠ .logical .not := by
  cases hoperand with
  | parenthesized hkind _ _ => exact ⟨_, _, List.cons_append, by simp [hkind]⟩
  | name hkind | string hkind | char hkind => exact ⟨_, _, rfl, by simp [hkind]⟩
  | number hkind => exact ⟨_, _, rfl, by rcases hkind with hkind | hkind <;> simp [hkind]⟩
  | signed hkind _ => exact ⟨_, _, rfl, by rcases hkind with hkind | hkind <;> simp [hkind]⟩

theorem IsOperand.length_pos {tier : Tier} {tokens : List Token} {operand : Operand}
    (hoperand : IsOperand tier tokens operand) : 0 < tokens.length := by
  obtain ⟨first, rest, rfl, -⟩ := hoperand.starts
  simp

/-- An operand that starts with a name is that name or goes on with a binary operator. -/
theorem IsOperand.second_of_identifier {tier : Tier} {tokens more : List Token} {first : Token}
    {operand : Operand} (hoperand : IsOperand tier tokens operand)
    (htokens : tokens = first :: more) (hfirst : first.kind = .identifier) :
    ∀ t ∈ more.head?, Level.ofKind? t.kind ≠ none := by
  induction hoperand generalizing more with
  | tighter _ ih => exact ih htokens
  | atom _ ih => exact ih htokens
  | @binary _ before after operator _ _ hleft hoperator _ ih _ =>
    obtain ⟨start, others, rfl, -⟩ := hleft.starts
    obtain ⟨rfl, rfl⟩ := List.cons.inj htokens
    cases others with
    | nil =>
      intro t ht
      obtain rfl : operator = t := by simpa using ht
      simp [hoperator]
    | cons second others =>
      have hsecond : ∀ t ∈ (second :: others).head?, Level.ofKind? t.kind ≠ none := ih rfl
      simpa using hsecond
  | negation hkind _ _ =>
    obtain ⟨rfl, -⟩ := List.cons.inj htokens
    simp [hkind] at hfirst
  | parenthesized hkind _ _ _ =>
    obtain ⟨rfl, -⟩ := List.cons.inj htokens
    simp [hkind] at hfirst
  | name | string | char | number =>
    obtain ⟨-, rfl⟩ := List.cons.inj htokens
    simp
  | signed hkind _ =>
    obtain ⟨rfl, -⟩ := List.cons.inj htokens
    simp [hfirst] at hkind

theorem Tier.endsBefore_cons {token : Token} (hkind : Level.ofKind? token.kind = none) (tier : Tier)
    (rest : List Token) : tier.EndsBefore (token :: rest) := by
  intro first hfirst level hlevel
  obtain rfl : token = first := by simpa using hfirst
  simp [hkind] at hlevel

end FrontEnd.Grammar
