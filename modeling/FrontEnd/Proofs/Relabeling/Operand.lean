import FrontEnd.Parsing.Operand
import FrontEnd.Proofs.Relabeling.Syntax

/-!
Reading an operand only asks for the kinds of tokens, so that relabeled tokens give the relabeled
operand.
-/

namespace FrontEnd

variable {α : Type} (r : Relabeling)

/-- What was parsed, and the tokens after it, under new labels. -/
def relabelParsed (f : α → α) (parsed : α × List Token) : α × List Token :=
  (f parsed.1, parsed.2.map (Token.relabel r))

namespace OperandReader

/-- Reading relabeled tokens gives the relabeled operand. -/
def Commutes (reader : OperandReader) : Prop :=
  ∀ tokens, reader (tokens.map (Token.relabel r)) =
    (reader tokens).map (relabelParsed r (Operand.relabel r))

variable {r}

theorem extend_relabel {isOperator : TokenKind → Bool}
    (hoperator : isOperator .identifier = false) {operand : OperandReader}
    (hoperand : operand.Commutes r) (bound : Nat) (left : Operand) (tokens : List Token) :
    extend isOperator operand bound (left.relabel r) (tokens.map (Token.relabel r)) =
      relabelParsed r (Operand.relabel r) (extend isOperator operand bound left tokens) := by
  induction bound generalizing left tokens with
  | zero => simp [extend, relabelParsed]
  | succ bound ih =>
    cases tokens with
    | nil => simp [extend, relabelParsed]
    | cons operator rest =>
      simp only [List.map_cons, extend, Token.kind_relabel, hoperand rest]
      by_cases hkind : isOperator operator.kind = true
      · have hname : operator.kind ≠ .identifier := by
          intro hidentifier
          rw [hidentifier, hoperator] at hkind
          cases hkind
        rw [if_pos hkind, if_pos hkind]
        cases operand rest with
        | none => rfl
        | some found =>
          obtain ⟨right, after⟩ := found
          have hleft : Operand.binary (left.relabel r) (operator.relabel r) (right.relabel r) =
              (Operand.binary left operator right).relabel r := by
            rw [Token.relabel_of_not_identifier r hname, Operand.relabel]
          simp only [Option.map_some, relabelParsed, hleft]
          exact ih (.binary left operator right) after
      · rw [if_neg hkind, if_neg hkind]
        rfl

theorem Commutes.chain {isOperator : TokenKind → Bool}
    (hoperator : isOperator .identifier = false) {operand : OperandReader}
    (hoperand : operand.Commutes r) (bound : Nat) :
    (chain bound isOperator operand).Commutes r := by
  intro tokens
  unfold OperandReader.chain
  rw [hoperand tokens, Option.map_map, Option.map_map]
  congr 1
  funext ⟨first, rest⟩
  exact extend_relabel hoperator hoperand bound first rest

theorem Commutes.negated {atom : OperandReader} (hatom : atom.Commutes r) :
    (negated atom).Commutes r := by
  intro tokens
  induction tokens with
  | nil => rfl
  | cons token rest ih =>
    simp only [List.map_cons, OperandReader.negated, Token.kind_relabel, ih]
    by_cases hkind : token.kind = .logical .not
    · have hname : token.kind ≠ .identifier := by simp [hkind]
      rw [if_pos hkind, if_pos hkind, Option.map_map, Option.map_map]
      congr 1
      funext ⟨operand, after⟩
      simp [relabelParsed, Operand.relabel, Token.relabel_of_not_identifier r hname]
    · rw [if_neg hkind, if_neg hkind]
      exact hatom (token :: rest)

theorem not_identifier_of_isNumber {kind : TokenKind} (hkind : isNumber kind = true) :
    kind ≠ .identifier := by
  rintro rfl
  cases hkind

theorem not_identifier_of_isSign {kind : TokenKind} (hkind : isSign kind = true) :
    kind ≠ .identifier := by
  rintro rfl
  cases hkind

theorem number?_relabel (tokens : List Token) :
    number? (tokens.map (Token.relabel r)) =
      (number? tokens).map (relabelParsed r (NumericValue.relabel r)) := by
  cases tokens with
  | nil => rfl
  | cons token rest =>
    simp only [List.map_cons, number?, Token.kind_relabel]
    by_cases hsign : isSign token.kind = true
    · rw [if_pos hsign, if_pos hsign]
      cases rest with
      | nil => rfl
      | cons number after =>
        simp only [List.map_cons, Token.kind_relabel]
        by_cases hnumber : isNumber number.kind = true
        · rw [if_pos hnumber, if_pos hnumber,
            Token.relabel_of_not_identifier r (not_identifier_of_isSign hsign),
            Token.relabel_of_not_identifier r (not_identifier_of_isNumber hnumber)]
          rfl
        · rw [if_neg hnumber, if_neg hnumber]
          rfl
    · rw [if_neg hsign, if_neg hsign]
      by_cases hnumber : isNumber token.kind = true
      · rw [if_pos hnumber, if_pos hnumber,
          Token.relabel_of_not_identifier r (not_identifier_of_isNumber hnumber)]
        rfl
      · rw [if_neg hnumber, if_neg hnumber]
        rfl

theorem Commutes.atom {nested : OperandReader} (hnested : nested.Commutes r) :
    (atom nested).Commutes r := by
  intro tokens
  cases tokens with
  | nil => rfl
  | cons token rest =>
    have hnumber := number?_relabel (r := r) (token :: rest)
    simp only [List.map_cons] at hnumber
    simp only [List.map_cons, OperandReader.atom, Token.kind_relabel, hnested rest, hnumber]
    split
    · cases nested rest with
      | none => rfl
      | some found =>
        obtain ⟨inner, after⟩ := found
        cases after with
        | nil => rfl
        | cons closing after =>
          by_cases hclosing : closing.kind = .rightParen
          · simp [relabelParsed, hclosing]
          · simp [relabelParsed, hclosing]
    · rfl
    · rfl
    · rfl
    · rw [Option.map_map, Option.map_map]
      rfl

theorem Commutes.foldr_chain {levels : List (TokenKind → Bool)}
    (hlevels : ∀ level ∈ levels, level .identifier = false) {inner : OperandReader}
    (hinner : inner.Commutes r) (bound : Nat) :
    (levels.foldr (OperandReader.chain bound) inner).Commutes r := by
  induction levels with
  | nil => exact hinner
  | cons level rest ih =>
    obtain ⟨hlevel, hrest⟩ := List.forall_mem_cons.mp hlevels
    exact (ih hrest).chain hlevel bound

theorem commutes_within (bound : Nat) : (within bound).Commutes r := by
  induction bound with
  | zero =>
    intro tokens
    rfl
  | succ bound ih =>
    have hlevels : ∀ level ∈ levels, level .identifier = false := by simp [levels]
    exact ih.atom.negated.foldr_chain hlevels bound

end OperandReader

theorem readOperand?_relabel (tokens : List Token) :
    readOperand? (tokens.map (Token.relabel r)) =
      (readOperand? tokens).map (relabelParsed r (Operand.relabel r)) := by
  unfold readOperand?
  rw [List.length_map]
  exact OperandReader.commutes_within tokens.length tokens

end FrontEnd
