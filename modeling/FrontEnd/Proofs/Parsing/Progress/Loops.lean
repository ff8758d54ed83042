import FrontEnd.Proofs.Parsing.Failing.Record
import FrontEnd.Proofs.Parsing.Operand

/-!
The loops of the parser, run without a bound. Lists of items go on as long as an item is read, and
chains of operators as long as an operator and its right operand are read. Each round takes a token,
so every run ends, after no more rounds than tokens are left; and its outcome is that of the loop
with a bound.
-/

namespace FrontEnd

namespace Parser

variable {α : Type} {p : Parser α} {retry : Retry} {tokens rest : List Token}
  {before : List Failure}

/-- Whatever the parser matches has a token. -/
def Consumes (p : Parser α) : Prop :=
  p.Sound fun taken _ => 0 < taken.length

theorem Sound.consumes {language : List Token → α → Prop} (hp : p.Sound language)
    (hlanguage : ∀ ⦃taken a⦄, language taken a → 0 < taken.length) : p.Consumes := by
  intro tokens a rest hparses
  obtain ⟨taken, htokens, htaken⟩ := hp hparses
  exact ⟨taken, htokens, hlanguage htaken⟩

theorem Consumes.length_lt (hp : p.Consumes) {a : α} (hparses : p.Parses tokens a rest) :
    rest.length < tokens.length := by
  obtain ⟨taken, rfl, htaken⟩ := hp hparses
  rw [List.length_append]
  omega

theorem map_apply {β : Type} (f : α → β) (p : Parser α) (retry : Retry) (tokens : List Token)
    (before : List Failure) :
    (f <$> p) retry tokens before =
      ⟨(p retry tokens before).parsed.map fun result => (f result.1, result.2),
        (p retry tokens before).failures⟩ := by
  simp only [Functor.map, Parser.bind]
  rcases p retry tokens before with ⟨_ | ⟨a, rest⟩, after⟩ <;> rfl

/-- The run of a loop: how many rounds there are, and what comes of them. A round in which the item
fails for good ends the whole construct; looking for a further item where there is none is no
round. -/
inductive Repeats (p : Parser (Option α)) (retry : Retry) :
    List Token → List Failure → Nat → Outcome (List α) → Prop
  | done {tokens rest : List Token} {before after : List Failure} :
    p retry tokens before = ⟨some (none, rest), after⟩ →
    Repeats p retry tokens before 0 ⟨some ([], rest), after⟩
  | broken {tokens : List Token} {before after : List Failure} :
    p retry tokens before = ⟨none, after⟩ →
    Repeats p retry tokens before 1 ⟨none, after⟩
  | again {tokens rest : List Token} {before middle : List Failure} {a : α} {rounds : Nat}
    {outcome : Outcome (List α)} :
    p retry tokens before = ⟨some (some a, rest), middle⟩ →
    Repeats p retry rest middle rounds outcome →
    Repeats p retry tokens before (rounds + 1)
      ⟨outcome.parsed.map fun result => (a :: result.1, result.2), outcome.failures⟩

/-- There is only one run. -/
theorem Repeats.unique {p : Parser (Option α)} {rounds others : Nat}
    {outcome other : Outcome (List α)} (hrun : p.Repeats retry tokens before rounds outcome)
    (hother : p.Repeats retry tokens before others other) : rounds = others ∧ outcome = other := by
  induction hrun generalizing others other with
  | done hp =>
    cases hother with
    | done hq => exact ⟨rfl, by simpa using hp.symm.trans hq⟩
    | broken hq | again hq _ => simp [hp] at hq
  | broken hp =>
    cases hother with
    | broken hq => exact ⟨rfl, by simpa using hp.symm.trans hq⟩
    | done hq | again hq _ => simp [hp] at hq
  | again hp _ ih =>
    cases hother with
    | again hq hother =>
      simp only [hp, Outcome.mk.injEq, Option.some.injEq, Prod.mk.injEq] at hq
      obtain ⟨⟨rfl, rfl⟩, rfl⟩ := hq
      obtain ⟨rfl, rfl⟩ := ih hother
      exact ⟨rfl, rfl⟩
    | done hq | broken hq => simp [hp] at hq

/-- What can be repeated: each result takes a token, and without tokens there is none. -/
structure Repeatable (p : Parser (Option α)) : Prop where
  length_lt : ∀ ⦃tokens a rest⦄, p.Parses tokens (some a) rest → rest.length < tokens.length
  ends : ∀ retry failures, p retry [] failures = ⟨some (none, []), failures⟩

theorem Consumes.repeatable_optional (hp : p.Consumes) (hends : p.Refuses []) :
    (optional p).Repeatable where
  length_lt tokens a rest hparses := by
    rcases parses_optional hparses with ⟨b, -, hb⟩ | ⟨hnone, -⟩
    · exact hp.length_lt hb
    · cases hnone
  ends retry failures := orElse_of_none (map_of_none (hends retry failures) some) (pure none)

theorem Sound.repeatable_following {language : List Token → α → Prop} (hp : p.Sound language)
    (kind : TokenKind) : (Parser.following kind p).Repeatable where
  length_lt tokens a rest hparses := by
    obtain ⟨t, taken, rfl, -, -⟩ := Sound.following hp hparses
    simp only [List.length_cons, List.length_append]
    omega
  ends _ _ := rfl

theorem Repeatable.collectWithin_repeats {p : Parser (Option α)} (hp : p.Repeatable) {bound : Nat}
    (hbound : tokens.length ≤ bound) :
    ∃ rounds, rounds ≤ tokens.length ∧
      p.Repeats retry tokens before rounds (collectWithin p bound retry tokens before) := by
  induction bound generalizing tokens before with
  | zero =>
    obtain rfl := List.eq_nil_of_length_eq_zero (Nat.le_zero.mp hbound)
    exact ⟨0, Nat.zero_le _, .done (hp.ends retry before)⟩
  | succ bound ih =>
    rw [collectWithin]
    rcases hrun : p retry tokens before with ⟨_ | ⟨_ | a, rest⟩, middle⟩
    · rw [bind_of_none hrun]
      refine ⟨1, ?_, .broken hrun⟩
      cases tokens with
      | nil =>
        rw [hp.ends] at hrun
        cases hrun
      | cons t tokens => simp
    · rw [bind_of_some hrun]
      exact ⟨0, Nat.zero_le _, .done hrun⟩
    · have hlt := hp.length_lt ⟨retry, before, congrArg Outcome.parsed hrun⟩
      obtain ⟨rounds, hrounds, hrepeats⟩ : ∃ rounds, rounds ≤ rest.length ∧
          p.Repeats retry rest middle rounds (collectWithin p bound retry rest middle) :=
        ih (by omega)
      refine ⟨rounds + 1, by omega, ?_⟩
      rw [bind_of_some hrun]
      change p.Repeats retry tokens before (rounds + 1)
        (((a :: ·) <$> collectWithin p bound) retry rest middle)
      rw [map_apply]
      exact .again hrun hrepeats

/-- Collecting is the run of a loop without a bound, and there are at most as many rounds as
tokens. -/
theorem Repeatable.collect_repeats {p : Parser (Option α)} (hp : p.Repeatable) (retry : Retry)
    (tokens : List Token) (before : List Failure) :
    ∃ rounds, rounds ≤ tokens.length ∧
      p.Repeats retry tokens before rounds (collect p retry tokens before) :=
  hp.collectWithin_repeats (Nat.le_refl tokens.length)

end Parser

namespace OperandReader

/-- The run of a chain of operators, with the operand so far on the left: how many operators there
are, and what comes of them. An operator without a right operand is left, but counts. -/
inductive Chains (isOperator : TokenKind → Bool) (operand : OperandReader) :
    Operand → List Token → Nat → Operand × List Token → Prop
  | done {left : Operand} {tokens : List Token} :
    (∀ t ∈ tokens.head?, isOperator t.kind = false) →
    Chains isOperator operand left tokens 0 (left, tokens)
  | broken {left : Operand} {operator : Token} {rest : List Token} :
    isOperator operator.kind = true → operand rest = none →
    Chains isOperator operand left (operator :: rest) 1 (left, operator :: rest)
  | again {left right : Operand} {operator : Token} {rest after : List Token} {rounds : Nat}
    {result : Operand × List Token} :
    isOperator operator.kind = true → operand rest = some (right, after) →
    Chains isOperator operand (.binary left operator right) after rounds result →
    Chains isOperator operand left (operator :: rest) (rounds + 1) result

/-- There is only one run. -/
theorem Chains.unique {isOperator : TokenKind → Bool} {operand : OperandReader} {left : Operand}
    {tokens : List Token} {rounds others : Nat} {result other : Operand × List Token}
    (hrun : Chains isOperator operand left tokens rounds result)
    (hother : Chains isOperator operand left tokens others other) :
    rounds = others ∧ result = other := by
  induction hrun generalizing others other with
  | done hhead =>
    cases hother with
    | done => exact ⟨rfl, rfl⟩
    | broken hoperator _ | again hoperator _ _ => simp [hoperator] at hhead
  | broken hoperator hnone =>
    cases hother with
    | done hhead => simp [hoperator] at hhead
    | broken => exact ⟨rfl, rfl⟩
    | again _ hread _ => simp [hnone] at hread
  | again hoperator hread _ ih =>
    cases hother with
    | done hhead => simp [hoperator] at hhead
    | broken _ hnone => simp [hread] at hnone
    | again _ hsame hother =>
      obtain ⟨rfl, rfl⟩ := Prod.mk.inj (Option.some.inj (hread.symm.trans hsame))
      obtain ⟨rfl, rfl⟩ := ih hother
      exact ⟨rfl, rfl⟩

/-- Extending an operand is the run of a chain without a bound. -/
theorem extend_chains {isOperator : TokenKind → Bool} {operand : OperandReader}
    {language : List Token → Operand → Prop} (hoperand : Sound operand language) {bound : Nat}
    (left : Operand) {tokens : List Token} (hbound : tokens.length ≤ bound) :
    ∃ rounds, rounds ≤ tokens.length ∧
      Chains isOperator operand left tokens rounds
        (extend isOperator operand bound left tokens) := by
  induction bound generalizing left tokens with
  | zero =>
    obtain rfl := List.eq_nil_of_length_eq_zero (Nat.le_zero.mp hbound)
    exact ⟨0, Nat.zero_le _, .done (by simp)⟩
  | succ bound ih =>
    cases tokens with
    | nil => exact ⟨0, Nat.zero_le _, .done (by simp)⟩
    | cons operator rest =>
      rw [List.length_cons] at hbound ⊢
      rw [extend]
      split
      · next hoperator =>
        cases hread : operand rest with
        | none => exact ⟨1, by omega, .broken hoperator hread⟩
        | some result =>
          obtain ⟨right, after⟩ := result
          obtain ⟨taken, rfl, -⟩ := hoperand hread
          rw [List.length_append] at hbound ⊢
          obtain ⟨rounds, hrounds, hchains⟩ :=
            ih (.binary left operator right) (show after.length ≤ bound by omega)
          exact ⟨rounds + 1, by omega, .again hoperator hread hchains⟩
      · next hoperator =>
        refine ⟨0, Nat.zero_le _, .done ?_⟩
        simpa using hoperator

end OperandReader

end FrontEnd
