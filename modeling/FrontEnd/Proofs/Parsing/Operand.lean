import FrontEnd.Parsing.Operand
import FrontEnd.Proofs.Grammar.Operand

/-!
The operand reader against the grammar of operands. What it takes is always an operand of the
grammar, and it takes every such operand in full where no operator follows that could extend it.
-/

namespace FrontEnd.OperandReader

open Grammar

def isOperatorOf (level : Level) (kind : TokenKind) : Bool :=
  Level.ofKind? kind = some level

theorem levels_eq_map_isOperatorOf :
    levels = Level.concatenation.andTighter.map isOperatorOf := by
  simp only [levels, Level.andTighter, List.map_cons, List.map_nil, List.cons.injEq, and_true]
  refine ⟨?_, ?_, ?_, ?_, ?_, ?_⟩ <;> funext kind <;>
    rcases kind with _ | _ | _ | _ | _ | _ | operator | _ | _ | operator <;>
    first | rfl | (cases operator <;> rfl)

/-- The reader of each form of operand, with parentheses nested less deeply than the bound. -/
def readTier (bound : Nat) : Tier → OperandReader
  | .atom => atom (within bound)
  | .unary => negated (atom (within bound))
  | .binary level =>
    (level.andTighter.map isOperatorOf).foldr (chain bound) (negated (atom (within bound)))

theorem readTier_binary (bound : Nat) (level : Level) :
    readTier bound (.binary level) =
      chain bound (isOperatorOf level) (readTier bound level.tighter) := by
  cases level <;> rfl

theorem within_succ (bound : Nat) :
    within (bound + 1) = readTier bound (.binary .concatenation) := by
  rw [within, levels_eq_map_isOperatorOf, readTier]

/-- A reader takes nothing from the front of the tokens but members of a language. -/
def Sound (reader : OperandReader) (language : List Token → Operand → Prop) : Prop :=
  ∀ ⦃tokens operand rest⦄, reader tokens = some (operand, rest) →
    ∃ taken, tokens = taken ++ rest ∧ language taken operand

theorem extend_sound {level : Level} {next : OperandReader}
    (hnext : Sound next (IsOperand level.tighter)) (bound : Nat) {left : Operand}
    {before : List Token} (hleft : IsOperand (.binary level) before left) (tokens : List Token) :
    ∃ taken, tokens = taken ++ (extend (isOperatorOf level) next bound left tokens).2 ∧
      IsOperand (.binary level) (before ++ taken)
        (extend (isOperatorOf level) next bound left tokens).1 := by
  induction bound generalizing left before tokens with
  | zero => exact ⟨[], by simp [extend], by simpa [extend] using hleft⟩
  | succ bound ih =>
    cases tokens with
    | nil => exact ⟨[], by simp [extend], by simpa [extend] using hleft⟩
    | cons operator rest =>
      rw [extend]
      split
      · next hoperator =>
        have hlevel : Level.ofKind? operator.kind = some level := by
          simpa [isOperatorOf] using hoperator
        split
        · next right after hright =>
          obtain ⟨side, rfl, hside⟩ := hnext hright
          obtain ⟨taken, hafter, htaken⟩ := ih (.binary hleft hlevel hside) after
          refine ⟨operator :: side ++ taken, ?_, ?_⟩
          · simpa using hafter
          · simpa using htaken
        · exact ⟨[], rfl, by simpa using hleft⟩
      · exact ⟨[], rfl, by simpa using hleft⟩

theorem chain_sound (bound : Nat) {level : Level} {next : OperandReader}
    (hnext : Sound next (IsOperand level.tighter)) :
    Sound (chain bound (isOperatorOf level) next) (IsOperand (.binary level)) := by
  intro tokens operand rest hread
  obtain ⟨⟨first, middle⟩, hfirst, hextend⟩ := Option.map_eq_some_iff.mp hread
  obtain ⟨before, rfl, hbefore⟩ := hnext hfirst
  obtain ⟨taken, hmiddle, htaken⟩ := extend_sound hnext bound (.tighter hbefore) middle
  dsimp only at hextend
  rw [hextend] at hmiddle htaken
  exact ⟨before ++ taken, by simpa using hmiddle, htaken⟩

theorem negated_sound {reader : OperandReader} (hatom : Sound reader (IsOperand .atom)) :
    Sound (negated reader) (IsOperand .unary) := by
  intro tokens
  induction tokens with
  | nil => intro operand rest hread; simp [negated] at hread
  | cons token tokens ih =>
    intro operand rest hread
    rw [negated] at hread
    split at hread
    · next hnot =>
      obtain ⟨⟨inner, after⟩, hinner, heq⟩ := Option.map_eq_some_iff.mp hread
      obtain ⟨rfl, rfl⟩ := Prod.mk.inj heq
      obtain ⟨taken, rfl, htaken⟩ := ih hinner
      exact ⟨token :: taken, rfl, .negation hnot htaken⟩
    · obtain ⟨taken, htokens, htaken⟩ := hatom hread
      exact ⟨taken, htokens, .atom htaken⟩

theorem number?_sound {tokens rest : List Token} {value : NumericValue}
    (hread : number? tokens = some (value, rest)) :
    ∃ taken, tokens = taken ++ rest ∧ IsOperand .atom taken (.numeric value) := by
  have hnumber : ∀ {kind : TokenKind},
      isNumber kind = true → kind = .integer ∨ kind = .decimal := by
    simp [isNumber]
  unfold number? at hread
  split at hread
  · simp at hread
  · next token tokens =>
    split at hread
    · next hsign =>
      have hsign : token.kind = .arithmetic .add ∨ token.kind = .arithmetic .sub := by
        simpa [isSign] using hsign
      split at hread
      · simp at hread
      · next number after =>
        split at hread
        · next hkind =>
          obtain ⟨rfl, rfl⟩ := Prod.mk.inj (Option.some.inj hread)
          exact ⟨[token, number], rfl, .signed hsign (hnumber hkind)⟩
        · simp at hread
    · split at hread
      · next hkind =>
        obtain ⟨rfl, rfl⟩ := Prod.mk.inj (Option.some.inj hread)
        exact ⟨[token], rfl, .number (hnumber hkind)⟩
      · simp at hread

theorem atom_sound {nested : OperandReader} (hnested : Sound nested IsExpression) :
    Sound (atom nested) (IsOperand .atom) := by
  intro tokens operand rest hread
  unfold atom at hread
  split at hread
  · simp at hread
  · next token tokens =>
    split at hread
    · next hkind =>
      split at hread
      · next inner closing after hinner =>
        split at hread
        · next hclosing =>
          obtain ⟨rfl, rfl⟩ := Prod.mk.inj (Option.some.inj hread)
          obtain ⟨taken, rfl, htaken⟩ := hnested hinner
          exact ⟨token :: taken ++ [closing], by simp, .parenthesized hkind htaken hclosing⟩
        · simp at hread
      · simp at hread
    · next hkind =>
      obtain ⟨rfl, rfl⟩ := Prod.mk.inj (Option.some.inj hread)
      exact ⟨[token], rfl, .name hkind⟩
    · next hkind =>
      obtain ⟨rfl, rfl⟩ := Prod.mk.inj (Option.some.inj hread)
      exact ⟨[token], rfl, .string hkind⟩
    · next hkind =>
      obtain ⟨rfl, rfl⟩ := Prod.mk.inj (Option.some.inj hread)
      exact ⟨[token], rfl, .char hkind⟩
    · obtain ⟨⟨value, after⟩, hvalue, heq⟩ := Option.map_eq_some_iff.mp hread
      obtain ⟨rfl, rfl⟩ := Prod.mk.inj heq
      exact number?_sound hvalue

theorem readTier_sound {bound : Nat} (hwithin : Sound (within bound) IsExpression) (tier : Tier) :
    Sound (readTier bound tier) (IsOperand tier) := by
  induction tier using Tier.induction with
  | hatom => exact atom_sound hwithin
  | hunary hatom => exact negated_sound hatom
  | hbinary level htighter =>
    rw [readTier_binary]
    exact chain_sound bound htighter

/-- What the operand reader takes is an operand of the grammar, whatever the bound. -/
theorem within_sound (bound : Nat) : Sound (within bound) IsExpression := by
  induction bound with
  | zero => intro tokens operand rest hread; simp [within] at hread
  | succ bound ih =>
    rw [within_succ]
    exact readTier_sound ih (.binary .concatenation)

/-- A reader takes the members of a language that have at most `limit` tokens, in front of every
rest that passes a test. -/
def Complete (limit : Nat) (reader : OperandReader) (language : List Token → Operand → Prop)
    (endsBefore : List Token → Prop) : Prop :=
  ∀ ⦃taken operand rest⦄, language taken operand → taken.length ≤ limit → endsBefore rest →
    reader (taken ++ rest) = some (operand, rest)

/-- A chain comes to the end of each operand of its level with bound left for what follows: every
operator has taken two tokens and one of the bound. -/
theorem chain_eq_extend {limit bound : Nat} {level : Level} {next : OperandReader}
    (hnext : Complete limit next (IsOperand level.tighter) level.tighter.EndsBefore)
    (hlimit : limit ≤ bound + 1) {taken rest : List Token} {operand : Operand}
    (hoperand : IsOperand (.binary level) taken operand) (hlength : taken.length ≤ limit)
    (hends : level.tighter.EndsBefore rest) :
    ∃ used, 2 * used + 1 ≤ taken.length ∧
      chain bound (isOperatorOf level) next (taken ++ rest) =
        some (extend (isOperatorOf level) next (bound - used) operand rest) := by
  generalize htier : Tier.binary level = tier at hoperand
  induction hoperand generalizing rest with
  | tighter hoperand _ =>
    cases htier
    refine ⟨0, by have := hoperand.length_pos; omega, ?_⟩
    rw [chain, hnext hoperand hlength hends]
    rfl
  | @binary _ before after operator left right hleft hoperator hright ihleft _ =>
    cases htier
    have hbefore := hleft.length_pos
    have hafter := hright.length_pos
    rw [List.length_append, List.length_cons] at hlength
    have hside : level.tighter.EndsBefore (operator :: (after ++ rest)) := by
      intro token htoken other hother
      obtain rfl : operator = token := by simpa using htoken
      obtain rfl : level = other := by simpa [hoperator] using hother
      exact level.tighter_isTighterThan
    obtain ⟨used, hused, hchain⟩ := ihleft (by omega) hside rfl
    refine ⟨used + 1, by simp only [List.length_append, List.length_cons]; omega, ?_⟩
    obtain ⟨spare, hspare⟩ : ∃ spare, bound - used = spare + 1 := ⟨bound - used - 1, by omega⟩
    rw [List.append_assoc, List.cons_append, hchain, hspare, extend,
      if_pos (by simpa [isOperatorOf] using hoperator), hnext hright (by omega) hends]
    simp only [show bound - (used + 1) = spare by omega]
  | atom | negation | parenthesized | name | string | char | number | signed => cases htier

theorem extend_eq_of_endsBefore {level : Level} {next : OperandReader} {bound : Nat}
    {left : Operand} {rest : List Token} (hends : (Tier.binary level).EndsBefore rest) :
    extend (isOperatorOf level) next bound left rest = (left, rest) := by
  cases rest with
  | nil => cases bound <;> rfl
  | cons token rest =>
    have hkind : isOperatorOf level token.kind = false := by
      rw [Bool.eq_false_iff]
      intro hoperator
      have hlevel : Level.ofKind? token.kind = some level := by
        simpa [isOperatorOf] using hoperator
      have hself : level.rank < level.rank := hends token rfl level hlevel
      omega
    cases bound with
    | zero => rfl
    | succ bound => rw [extend, hkind]; rfl

theorem chain_complete {limit bound : Nat} {level : Level} {next : OperandReader}
    (hnext : Complete limit next (IsOperand level.tighter) level.tighter.EndsBefore)
    (hlimit : limit ≤ bound + 1) :
    Complete limit (chain bound (isOperatorOf level) next) (IsOperand (.binary level))
      (Tier.binary level).EndsBefore := by
  intro taken operand rest hoperand hlength hends
  obtain ⟨used, -, hchain⟩ := chain_eq_extend hnext hlimit hoperand hlength hends.tighter
  rw [hchain, extend_eq_of_endsBefore hends]

theorem negated_complete {limit : Nat} {reader : OperandReader}
    (hatom : Complete limit reader (IsOperand .atom) Tier.atom.EndsBefore) :
    Complete limit (negated reader) (IsOperand .unary) Tier.unary.EndsBefore := by
  intro taken operand rest hoperand hlength hends
  generalize htier : Tier.unary = tier at hoperand
  induction hoperand with
  | @atom tokens operand hoperand _ =>
    obtain ⟨first, tokens, rfl, hfirst⟩ := hoperand.starts_atom
    rw [List.cons_append, negated, if_neg hfirst, ← List.cons_append]
    exact hatom hoperand hlength hends
  | negation hnot _ ih =>
    rw [List.length_cons] at hlength
    rw [List.cons_append, negated, if_pos hnot, ih (by omega) rfl]
    rfl
  | tighter | binary | parenthesized | name | string | char | number | signed => cases htier

theorem atom_number {nested : OperandReader} {number : Token} {rest : List Token}
    (hnumber : number.kind = .integer ∨ number.kind = .decimal) :
    atom nested (number :: rest) = some (.numeric ⟨none, number⟩, rest) := by
  rcases hnumber with hnumber | hnumber <;> simp [atom, number?, isSign, isNumber, hnumber]

theorem atom_signed {nested : OperandReader} {sign number : Token} {rest : List Token}
    (hsign : sign.kind = .arithmetic .add ∨ sign.kind = .arithmetic .sub)
    (hnumber : number.kind = .integer ∨ number.kind = .decimal) :
    atom nested (sign :: number :: rest) = some (.numeric ⟨some sign, number⟩, rest) := by
  rcases hsign with hsign | hsign <;> rcases hnumber with hnumber | hnumber <;>
    simp [atom, number?, isSign, isNumber, hsign, hnumber]

theorem atom_complete {limit : Nat} {nested : OperandReader}
    (hnested : Complete limit nested IsExpression (Tier.binary .concatenation).EndsBefore) :
    Complete (limit + 1) (atom nested) (IsOperand .atom) Tier.atom.EndsBefore := by
  intro taken operand rest hoperand hlength _
  cases hoperand with
  | @parenthesized opening closing tokens _ hopening hinner hclosing =>
    have hends : (Tier.binary .concatenation).EndsBefore (closing :: rest) := by
      intro token htoken level hlevel
      obtain rfl : closing = token := by simpa using htoken
      simp [hclosing, Level.ofKind?] at hlevel
    have hread := hnested hinner (by simp at hlength; omega) hends
    simp [atom, hopening, hread, hclosing]
  | name hkind | string hkind | char hkind => simp [atom, hkind]
  | number hnumber => exact atom_number hnumber
  | signed hsign hnumber => exact atom_signed hsign hnumber

theorem readTier_complete {bound : Nat}
    (hwithin : Complete bound (within bound) IsExpression (Tier.binary .concatenation).EndsBefore)
    (tier : Tier) :
    Complete (bound + 1) (readTier bound tier) (IsOperand tier) tier.EndsBefore := by
  induction tier using Tier.induction with
  | hatom => exact atom_complete hwithin
  | hunary hatom => exact negated_complete hatom
  | hbinary level htighter =>
    rw [readTier_binary]
    exact chain_complete htighter (Nat.le_refl _)

/-- The operand reader takes every operand of the grammar in full that has no more tokens than the
bound says, if no binary operator follows. -/
theorem within_complete (bound : Nat) :
    Complete bound (within bound) IsExpression (Tier.binary .concatenation).EndsBefore := by
  induction bound with
  | zero =>
    intro taken operand rest hoperand hlength _
    have := hoperand.length_pos
    omega
  | succ bound ih =>
    rw [within_succ]
    exact readTier_complete ih (.binary .concatenation)

end FrontEnd.OperandReader

namespace FrontEnd

open Grammar

theorem isExpression_of_readOperand? {tokens rest : List Token} {operand : Operand}
    (hread : readOperand? tokens = some (operand, rest)) :
    ∃ taken, tokens = taken ++ rest ∧ IsExpression taken operand :=
  OperandReader.within_sound tokens.length hread

/-- An operand of the grammar is read in full, as the tree that the grammar gives it, before any
token that is not a binary operator. -/
theorem readOperand?_append {taken rest : List Token} {operand : Operand}
    (hoperand : IsExpression taken operand) (hends : (Tier.binary .concatenation).EndsBefore rest) :
    readOperand? (taken ++ rest) = some (operand, rest) :=
  OperandReader.within_complete _ hoperand (by simp) hends

end FrontEnd
