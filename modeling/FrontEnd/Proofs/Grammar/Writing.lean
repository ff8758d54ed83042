import FrontEnd.Parsing.Value
import FrontEnd.Proofs.Parsing.Operand
import FrontEnd.Token.Stream

/-!
Writing operands. An operand is written with parentheses only where it would be grouped in another
way without them, and what is written is read back as the same operand.
-/

namespace FrontEnd

open Grammar

namespace Grammar

/-- The forms of operands in one row, the loosest first. -/
def Tier.rank : Tier → Nat
  | binary level => level.rank
  | unary => 6
  | atom => 7

theorem Level.rank_le (level : Level) : level.rank ≤ 5 := by
  cases level <;> decide

theorem Level.rank_inj {level other : Level} (hrank : level.rank = other.rank) : level = other := by
  cases level <;> cases other <;> first | rfl | cases hrank

theorem Level.rank_tighter (level : Level) : level.tighter.rank = level.rank + 1 := by
  cases level <;> rfl

theorem Tier.eq_of_rank_eq {tier other : Tier} (hrank : tier.rank = other.rank) : tier = other := by
  cases tier with
  | binary level =>
    have hlevel := level.rank_le
    cases other with
    | binary other => rw [Level.rank_inj hrank]
    | unary | atom =>
      simp only [Tier.rank] at hrank
      omega
  | unary | atom =>
    cases other with
    | binary other =>
      have hother := other.rank_le
      simp only [Tier.rank] at hrank
      omega
    | unary | atom => first | rfl | cases hrank

theorem Tier.rank_le_atom (tier : Tier) : tier.rank ≤ Tier.atom.rank := by
  cases tier with
  | binary level => exact Nat.le_succ_of_le (Nat.le_succ_of_le level.rank_le)
  | unary | atom => decide

/-- An operand of one form is an operand of all looser forms. -/
theorem IsOperand.loosen {tier looser : Tier} {tokens : List Token} {operand : Operand}
    (hoperand : IsOperand tier tokens operand) (hrank : looser.rank ≤ tier.rank) :
    IsOperand looser tokens operand := by
  have hhere {form : Tier} (heq : form.rank = tier.rank) : IsOperand form tokens operand :=
    Tier.eq_of_rank_eq heq ▸ hoperand
  -- by induction from the tightest form to the looser one
  induction looser using Tier.induction with
  | hatom => exact hhere (Nat.le_antisymm hrank tier.rank_le_atom)
  | hunary hatom =>
    rcases Nat.eq_or_lt_of_le hrank with heq | hlt
    · exact hhere heq
    · exact .atom (hatom hlt)
  | hbinary level htighter =>
    rcases Nat.eq_or_lt_of_le hrank with heq | hlt
    · exact hhere heq
    · refine .tighter (htighter ?_)
      rw [level.rank_tighter]
      exact hlt

/-- No comment is part of an operand. -/
theorem IsOperand.isComment_eq_false {tier : Tier} {tokens : List Token} {operand : Operand}
    (hoperand : IsOperand tier tokens operand) : ∀ t ∈ tokens, t.isComment = false := by
  have hkind {t : Token} (hkind : t.kind.isComment = false) : t.isComment = false := hkind
  have hlevel {t : Token} {level : Level} (hlevel : Level.ofKind? t.kind = some level) :
      t.isComment = false := by
    refine hkind ?_
    cases hcomment : t.kind <;> first | rfl | simp [hcomment, Level.ofKind?] at hlevel
  induction hoperand with
  | tighter _ ih | atom _ ih => exact ih
  | binary _ hoperator _ ihleft ihright =>
    simp only [List.forall_mem_append, List.forall_mem_cons]
    exact ⟨ihleft, hlevel hoperator, ihright⟩
  | negation hnot _ ih => exact List.forall_mem_cons.mpr ⟨hkind (by rw [hnot]; rfl), ih⟩
  | parenthesized hopening _ hclosing ih =>
    simp only [List.cons_append, List.forall_mem_append, List.forall_mem_cons]
    exact ⟨hkind (by rw [hopening]; rfl), ih, hkind (by rw [hclosing]; rfl), by simp⟩
  | name h | string h | char h => simpa using hkind (by rw [h]; rfl)
  | number hnumber => rcases hnumber with h | h <;> simpa using hkind (by rw [h]; rfl)
  | signed hsign hnumber =>
    simp only [List.forall_mem_cons]
    refine ⟨?_, ?_, by simp⟩
    · rcases hsign with h | h <;> exact hkind (by rw [h]; rfl)
    · rcases hnumber with h | h <;> exact hkind (by rw [h]; rfl)

end Grammar

/-- A pair of parentheses. -/
structure Parentheses where
  opening : Token
  closing : Token
  opening_kind : opening.kind = .leftParen
  closing_kind : closing.kind = .rightParen

/-- The tokens, in parentheses if these are needed. -/
def Parentheses.aroundIf (pair : Parentheses) (needed : Bool) (tokens : List Token) : List Token :=
  if needed then pair.opening :: tokens ++ [pair.closing] else tokens

namespace Operand

/-- The places that an operation has for operands. -/
inductive Place where
  | left
  | right
  | only

/-- An operand built from names, texts, characters and numbers by operators meant for it. -/
def isProper : Operand → Bool
  | binary left operator right =>
    (Level.ofKind? operator.kind).isSome && left.isProper && right.isProper
  | unary operator operand => operator.kind = .logical .not && operand.isProper
  | token t => t.kind = .identifier || t.kind = .string || t.kind = .char
  | numeric value =>
    value.sign.all (fun sign => sign.kind = .arithmetic .add || sign.kind = .arithmetic .sub)
      && (value.number.kind = .integer || value.number.kind = .decimal)

/-- The level of a binary operation. -/
def level? : Operand → Option Level
  | binary _ operator _ => Level.ofKind? operator.kind
  | _ => none

/-- Whether the operand is a binary operation that binds looser than the operator. -/
def bindsLooser (operand : Operand) (operator : Token) : Bool :=
  operand.level?.any fun inner =>
    (Level.ofKind? operator.kind).any fun outer => inner.rank < outer.rank

/-- Whether the operand is a binary operation that binds looser than the operator or as close. -/
def bindsNoCloser (operand : Operand) (operator : Token) : Bool :=
  operand.level?.any fun inner =>
    (Level.ofKind? operator.kind).any fun outer => inner.rank ≤ outer.rank

/-- The tokens of an operand with as few parentheses as possible. Which tokens these are is said for
each place inside the operand. -/
def write (pairs : List Place → Parentheses) : Operand → List Token
  | binary left operator right =>
    (pairs [.left]).aroundIf (left.bindsLooser operator)
        (left.write fun place => pairs (.left :: place))
      ++ operator :: (pairs [.right]).aroundIf (right.bindsNoCloser operator)
        (right.write fun place => pairs (.right :: place))
  | unary operator operand =>
    operator :: (pairs [.only]).aroundIf operand.level?.isSome
      (operand.write fun place => pairs (.only :: place))
  | token t => [t]
  | numeric value => value.sign.toList ++ [value.number]

/-- The form that an operand has when it is written. -/
def form (operand : Operand) : Tier :=
  operand.level?.elim .unary .binary

/-- Parentheses make an operand fit everywhere; without them it has to be of a form that fits. -/
theorem isOperand_aroundIf {operand : Operand} {tokens : List Token}
    (hwritten : IsOperand operand.form tokens operand) (pair : Parentheses) {needed : Bool}
    {tier : Tier} (hfits : needed = false → tier.rank ≤ operand.form.rank) :
    IsOperand tier (pair.aroundIf needed tokens) operand := by
  cases needed with
  | false => exact hwritten.loosen (hfits rfl)
  | true =>
    have hinner : IsExpression tokens operand := hwritten.loosen (Nat.zero_le _)
    exact (IsOperand.parenthesized pair.opening_kind hinner pair.closing_kind).loosen
      tier.rank_le_atom

/-- An operand fits at a place if it fits as a binary operation, in case it is one. -/
theorem le_rank_form {operand : Operand} {bound : Nat} (hbound : bound ≤ Tier.unary.rank)
    (hlevel : ∀ level, operand.level? = some level → bound ≤ level.rank) :
    bound ≤ operand.form.rank := by
  unfold form
  cases hinner : operand.level? with
  | none => exact hbound
  | some inner => exact hlevel inner hinner

theorem rank_le_form_of_not_bindsLooser {operand : Operand} {operator : Token} {level : Level}
    (hoperator : Level.ofKind? operator.kind = some level)
    (hfits : operand.bindsLooser operator = false) : level.rank ≤ operand.form.rank := by
  refine le_rank_form (Nat.le_succ_of_le level.rank_le) fun inner hinner => ?_
  simpa [bindsLooser, hinner, hoperator] using hfits

theorem rank_tighter_le_form_of_not_bindsNoCloser {operand : Operand} {operator : Token}
    {level : Level} (hoperator : Level.ofKind? operator.kind = some level)
    (hfits : operand.bindsNoCloser operator = false) :
    level.tighter.rank ≤ operand.form.rank := by
  rw [level.rank_tighter]
  refine le_rank_form (Nat.succ_le_succ level.rank_le) fun inner hinner => ?_
  have hlt : level.rank < inner.rank := by simpa [bindsNoCloser, hinner, hoperator] using hfits
  exact hlt

/-- The grammar groups what is written as it was grouped before. -/
theorem isOperand_write {operand : Operand} (hproper : operand.isProper = true)
    (pairs : List Place → Parentheses) :
    IsOperand operand.form (operand.write pairs) operand := by
  induction operand generalizing pairs with
  | binary left operator right ihleft ihright =>
    simp only [isProper, Bool.and_eq_true] at hproper
    obtain ⟨⟨hoperator, hleft⟩, hright⟩ := hproper
    obtain ⟨level, hlevel⟩ := Option.isSome_iff_exists.mp hoperator
    have hform : (binary left operator right).form = .binary level := by simp [form, level?, hlevel]
    rw [hform]
    exact .binary
      (isOperand_aroundIf (ihleft hleft _) _ (rank_le_form_of_not_bindsLooser hlevel)) hlevel
      (isOperand_aroundIf (ihright hright _) _ (rank_tighter_le_form_of_not_bindsNoCloser hlevel))
  | unary operator operand ih =>
    simp only [isProper, Bool.and_eq_true, decide_eq_true_eq] at hproper
    refine .negation hproper.1 (isOperand_aroundIf (ih hproper.2 _) _ fun hbare => ?_)
    refine le_rank_form (Nat.le_refl _) fun level hlevel => ?_
    simp [hlevel] at hbare
  | token t =>
    simp only [isProper, Bool.or_eq_true, decide_eq_true_eq] at hproper
    refine .atom ?_
    rcases hproper with (hname | hstring) | hchar
    · exact .name hname
    · exact .string hstring
    · exact .char hchar
  | numeric value =>
    obtain ⟨sign, number⟩ := value
    simp only [isProper, Bool.and_eq_true, Bool.or_eq_true, decide_eq_true_eq] at hproper
    refine .atom ?_
    cases sign with
    | none => exact .number hproper.2
    | some sign => exact .signed (by simpa using hproper.1) hproper.2

end Operand

/-- An operand that is written is read back, with the same grouping and up to its last token, if no
binary operator follows. Nothing is reported, whatever was reported before. -/
theorem operand_write_append {operand : Operand} (hproper : operand.isProper = true)
    (pairs : List Operand.Place → Parentheses) (rest : List Token) (length : Nat)
    (hrest : ∀ t ∈ (⟨rest, length⟩ : TokenStream).significant.head?, Level.ofKind? t.kind = none)
    (retry : Retry) (failures : List Failure) :
    Parser.operand retry (⟨operand.write pairs ++ rest, length⟩ : TokenStream).significant
        failures =
      ⟨some (operand, (⟨rest, length⟩ : TokenStream).significant), failures⟩ := by
  have hform := Operand.isOperand_write hproper pairs
  have hsignificant : (⟨operand.write pairs ++ rest, length⟩ : TokenStream).significant =
      operand.write pairs ++ (⟨rest, length⟩ : TokenStream).significant := by
    rw [TokenStream.significant, List.filter_append, List.filter_eq_self.mpr]
    · rfl
    · intro t ht
      rw [hform.isComment_eq_false t ht]
      rfl
  have hends : (Tier.binary .concatenation).EndsBefore
      (⟨rest, length⟩ : TokenStream).significant := by
    intro t ht level hlevel
    rw [hrest t ht] at hlevel
    cases hlevel
  have hread := readOperand?_append (hform.loosen (Nat.zero_le _)) hends
  rw [hsignificant, Parser.operand, Parser.ofFunction, hread]

/-- A product of a sum and of a negated text is written with parentheses around both, before a
comment and a terminator. -/
theorem operand_write_productOfSum :
    let word (kind : TokenKind) (lexeme : String) : Token := ⟨kind, lexeme, ⟨0, 0, ⟨0, 0⟩⟩⟩
    let pair : Parentheses := ⟨word .leftParen "(", word .rightParen ")", rfl, rfl⟩
    let a := word .identifier "@a"
    let plus := word (.arithmetic .add) "+"
    let times := word (.arithmetic .mul) "*"
    let not := word (.logical .not) "!"
    let dot := word .concat "·"
    let minus := word (.arithmetic .sub) "-"
    let one := word .integer "1"
    let hash := word .terminator "#"
    let product := Operand.binary (.binary (.token a) plus (.token a)) times
      (.unary not (.binary (.token a) dot (.numeric ⟨some minus, one⟩)))
    product.write (fun _ => pair) =
        [pair.opening, a, plus, a, pair.closing, times, not, pair.opening, a, dot, minus, one,
          pair.closing] ∧
      Parser.operand .never (⟨product.write (fun _ => pair) ++
          [word .lineComment "¶", hash], 0⟩ : TokenStream).significant [] =
        ⟨some (product, [hash]), []⟩ := by
  refine ⟨by decide, ?_⟩
  exact operand_write_append (by decide) _ _ _ (by decide) .never []

end FrontEnd
