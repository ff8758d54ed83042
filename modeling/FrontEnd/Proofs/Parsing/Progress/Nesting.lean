import FrontEnd.Proofs.Parsing.Completeness.Statement
import FrontEnd.Proofs.Parsing.Failing.Unit
import FrontEnd.Proofs.Parsing.Progress.Loops
import Mathlib.Logic.Function.Iterate

/-!
The recursions of the parser, run without a bound. Statements stand in the blocks of statements,
arrays in arrays, operands in parentheses. What stands inside is always read with fewer tokens left,
so the recursion is never deeper than there are tokens: whatever reader is put below that depth, the
outcome is the same. (The signs `!` before an operand need no bound, they are read by recursion on
the tokens.)
-/

namespace FrontEnd

open Grammar

/-- A recursion that gets one token further with each level. Whatever it is started from, it agrees
with the recursion up to a bound on as many tokens as both have levels, and on the empty list. -/
theorem agree_iterate {ρ : Type} {agree : Nat → ρ → ρ → Prop} {body : ρ → ρ} {within : Nat → ρ}
    (hnone : ∀ p q, agree 0 p q) (hzero : ∀ p, agree 1 (body p) (within 0))
    (hstep : ∀ ⦃bound depth p⦄, bound ≤ depth + 1 → agree bound p (within depth) →
      agree (bound + 1) (body p) (within (depth + 1)))
    (below : ρ) {bound levels depth : Nat} (hlevels : bound ≤ levels) (hdepth : bound ≤ depth + 1) :
    agree bound (body^[levels] below) (within depth) := by
  induction bound generalizing levels depth with
  | zero => exact hnone _ _
  | succ bound ih =>
    obtain ⟨levels, rfl⟩ : ∃ n, levels = n + 1 := ⟨levels - 1, by omega⟩
    rw [Function.iterate_succ_apply']
    cases depth with
    | zero =>
      obtain rfl : bound = 0 := by omega
      exact hzero _
    | succ depth => exact hstep (by omega) (ih (by omega) (by omega))

namespace Parser

variable {α β : Type}

/-- Two parsers do the same wherever fewer tokens than the bound are left. -/
def AgreeBelow (bound : Nat) (p q : Parser α) : Prop :=
  ∀ ⦃tokens : List Token⦄, tokens.length < bound →
    ∀ retry before, p retry tokens before = q retry tokens before

/-- A parser that leaves no more tokens than it was given. -/
def LeavesNoMore (p : Parser α) : Prop :=
  ∀ ⦃tokens a rest⦄, p.Parses tokens a rest → rest.length ≤ tokens.length

theorem Sound.leavesNoMore {p : Parser α} {language : List Token → α → Prop}
    (hp : p.Sound language) : p.LeavesNoMore := by
  intro tokens a rest hparses
  obtain ⟨taken, rfl, -⟩ := hp hparses
  simp

theorem leavesNoMore_token (kind : TokenKind) : (token kind).LeavesNoMore := by
  intro tokens t rest hparses
  obtain ⟨rfl, -⟩ := parses_token hparses
  simp

theorem leavesNoMore_commit (rule : Rule) : (commit rule).LeavesNoMore := by
  intro tokens site rest hparses
  obtain rfl := parses_commit hparses
  exact Nat.le_refl _

theorem LeavesNoMore.require {p : Parser α} (hp : p.LeavesNoMore) (site : Site)
    (expected : Expected) : (site.require expected p).LeavesNoMore :=
  fun _ _ _ hparses => hp (parses_require hparses)

theorem LeavesNoMore.following {p : Parser α} (hp : p.LeavesNoMore) (kind : TokenKind) :
    (Parser.following kind p).LeavesNoMore := by
  intro tokens found rest hparses
  rcases parses_following hparses with ⟨-, rfl⟩ | ⟨t, middle, a, rfl, -, -, hparses⟩
  · exact Nat.le_refl _
  · have hle := hp hparses
    rw [List.length_cons]
    omega

theorem LeavesNoMore.optional {p : Parser α} (hp : p.LeavesNoMore) :
    (Parser.optional p).LeavesNoMore := by
  intro tokens found rest hparses
  rcases parses_optional hparses with ⟨a, -, hparses⟩ | ⟨-, rfl⟩
  · exact hp hparses
  · exact Nat.le_refl _

namespace AgreeBelow

variable {p q : Parser α} {bound : Nat}

theorem refl (bound : Nat) (p : Parser α) : AgreeBelow bound p p :=
  fun _ _ _ _ => rfl

theorem zero (p q : Parser α) : AgreeBelow 0 p q :=
  fun _ hlt => absurd hlt (Nat.not_lt_zero _)

theorem mono {small : Nat} (hagree : AgreeBelow bound p q) (hle : small ≤ bound) :
    AgreeBelow small p q :=
  fun _ hlt => hagree (Nat.lt_of_lt_of_le hlt hle)

theorem bind {f g : α → Parser β} (hagree : AgreeBelow bound p q) (hq : q.LeavesNoMore)
    (hf : ∀ a, AgreeBelow bound (f a) (g a)) : AgreeBelow bound (p >>= f) (q >>= g) := by
  intro tokens hlt retry before
  have hsame := hagree hlt retry before
  rcases hrun : q retry tokens before with ⟨_ | ⟨a, rest⟩, after⟩
  · rw [bind_of_none (hsame.trans hrun), bind_of_none hrun]
  · have hle := hq ⟨retry, before, congrArg Outcome.parsed hrun⟩
    rw [bind_of_some (hsame.trans hrun), bind_of_some hrun]
    exact hf a (Nat.lt_of_le_of_lt hle hlt) retry after

/-- After the same start the parsers agree if they go on alike. -/
theorem after {f g : α → Parser β} (hp : p.LeavesNoMore)
    (hf : ∀ a, AgreeBelow bound (f a) (g a)) : AgreeBelow bound (p >>= f) (p >>= g) :=
  (refl bound p).bind hp hf

/-- After a token fewer tokens are left. -/
theorem after_token {kind : TokenKind} {f g : Token → Parser β}
    (hf : ∀ t, AgreeBelow bound (f t) (g t)) :
    AgreeBelow (bound + 1) (token kind >>= f) (token kind >>= g) := by
  intro tokens hlt retry before
  rcases token_cases kind tokens with hrefuses | ⟨t, rest, rfl, hkind⟩
  · rw [bind_of_none (hrefuses retry before), bind_of_none (hrefuses retry before)]
  · have hrun := token_of_kind hkind rest retry before
    rw [bind_of_some hrun, bind_of_some hrun]
    exact hf t (by simpa using hlt) retry before

theorem map (hagree : AgreeBelow bound p q) (f : α → β) : AgreeBelow bound (f <$> p) (f <$> q) := by
  intro tokens hlt retry before
  rw [map_apply, map_apply, hagree hlt]

theorem orElse {other others : Parser α} (hagree : AgreeBelow bound p q)
    (hother : AgreeBelow bound other others) :
    AgreeBelow bound (p.orElse other) (q.orElse others) := by
  intro tokens hlt retry before
  have hsame := hagree hlt retry before
  rcases hrun : q retry tokens before with ⟨_ | result, after⟩
  · rw [orElse_of_none (hsame.trans hrun), orElse_of_none hrun, hother hlt]
  · rw [orElse_of_some (hsame.trans hrun), orElse_of_some hrun]

theorem firstOf {parsers others : List (Parser α)}
    (hagree : List.Forall₂ (AgreeBelow bound) parsers others) :
    AgreeBelow bound (Parser.firstOf parsers) (Parser.firstOf others) := by
  induction hagree with
  | nil => exact refl bound _
  | cons hfirst _ ih => exact hfirst.orElse ih

theorem optional (hagree : AgreeBelow bound p q) :
    AgreeBelow bound (Parser.optional p) (Parser.optional q) :=
  (hagree.map some).orElse (refl bound _)

theorem following (hagree : AgreeBelow bound p q) (kind : TokenKind) :
    AgreeBelow bound (Parser.following kind p) (Parser.following kind q) := by
  refine after (leavesNoMore_token kind).optional fun opened => ?_
  cases opened with
  | none => exact refl bound _
  | some t => exact hagree.map some

theorem require (hagree : AgreeBelow bound p q) (site : Site) (expected : Expected) :
    AgreeBelow bound (site.require expected p) (site.require expected q) :=
  hagree.orElse (refl bound _)

theorem collect {p q : Parser (Option α)} (hagree : AgreeBelow bound p q) (hq : q.LeavesNoMore) :
    AgreeBelow bound (Parser.collect p) (Parser.collect q) := by
  have hwithin (rounds : Nat) :
      AgreeBelow bound (collectWithin p rounds) (collectWithin q rounds) := by
    induction rounds with
    | zero => exact refl bound _
    | succ rounds ih =>
      refine hagree.bind hq fun found => ?_
      cases found with
      | none => exact refl bound _
      | some first => exact ih.map (first :: ·)
  exact fun tokens hlt => hwithin tokens.length hlt

theorem many (hagree : AgreeBelow bound p q) (hq : q.LeavesNoMore) :
    AgreeBelow bound (Parser.many p) (Parser.many q) :=
  hagree.optional.collect hq.optional

theorem separated (hagree : AgreeBelow bound p q) (hq : q.LeavesNoMore) (site : Site)
    (expected : Expected) :
    AgreeBelow bound (site.separated expected p) (site.separated expected q) := by
  refine hagree.optional.bind hq.optional fun found => ?_
  cases found with
  | none => exact refl bound _
  | some first =>
    have hcommas := (hagree.require site expected).following .comma
    exact (hcommas.collect ((hq.require site expected).following .comma)).map (first :: ·)

end AgreeBelow

/-! ### Statements in blocks -/

/-- A statement, with the given ones in its blocks. -/
def statementOver (nested : Parser Statement) : Parser Statement :=
  firstOf [
    (fun (word, taken) => .print word taken) <$> keywordStatement .print .print,
    (fun (word, taken) => .ret word taken) <$> keywordStatement .ret .ret,
    (fun (word, taken) => .read word taken) <$> keywordStatement .read .read,
    decision nested,
    (fun declared => .declare (.ofVariable declared)) <$> variableDeclaration,
    (fun declared => .declare (.ofConstant declared)) <$> constantDeclaration,
    assignment,
    loop nested,
    callStatement,
    step .increment .increment,
    step .decrement .decrement]

theorem statementWithin_succ (bound : Nat) :
    statementWithin (bound + 1) = statementOver (statementWithin bound) :=
  rfl

section Statement

variable {nested others : Parser Statement} {bound : Nat}

theorem block_agree (hagree : AgreeBelow bound nested others) (hothers : others.Sound IsStatement)
    (site : Site) (owner : BlockOwner) :
    AgreeBelow bound (block nested site owner) (block others site owner) := by
  refine .after ((leavesNoMore_token _).require _ _) fun _ => ?_
  refine (hagree.many hothers.leavesNoMore).bind hothers.many.leavesNoMore fun _ => ?_
  exact .refl bound _

theorem decision_agree (hagree : AgreeBelow bound nested others)
    (hothers : others.Sound IsStatement) :
    AgreeBelow (bound + 1) (decision nested) (decision others) := by
  have hblock (site : Site) (owner : BlockOwner) := block_agree hagree hothers site owner
  have hleaves (site : Site) (owner : BlockOwner) := (block_sound hothers site owner).leavesNoMore
  refine .after_token fun word => ?_
  refine .after (leavesNoMore_commit _) fun site => ?_
  refine .after ((leavesNoMore_token _).require _ _) fun _ => ?_
  refine .after (operand_sound.leavesNoMore.require _ _) fun condition => ?_
  refine .after ((leavesNoMore_token _).require _ _) fun _ => ?_
  refine (hblock site _).bind (hleaves site _) fun body => ?_
  refine ((hblock site _).following _).bind ((hleaves site _).following _) fun alternative => ?_
  exact .refl bound _

theorem loop_agree (hagree : AgreeBelow bound nested others) (hothers : others.Sound IsStatement) :
    AgreeBelow (bound + 1) (loop nested) (loop others) := by
  refine .after_token fun word => ?_
  refine .after (leavesNoMore_commit _) fun site => ?_
  refine (block_agree hagree hothers site _).bind (block_sound hothers site _).leavesNoMore
    fun body => ?_
  exact .refl bound _

theorem function_agree (hagree : AgreeBelow bound nested others)
    (hothers : others.Sound IsStatement) :
    AgreeBelow (bound + 1) (function nested) (function others) := by
  refine .after_token fun word => ?_
  refine .after (leavesNoMore_commit _) fun site => ?_
  refine .after ((leavesNoMore_token _).require _ _) fun name => ?_
  refine .after ((leavesNoMore_token _).require _ _) fun _ => ?_
  refine .after parameter_sound.separated.leavesNoMore fun parameters => ?_
  refine .after ((leavesNoMore_token _).require _ _) fun _ => ?_
  refine (block_agree hagree hothers site _).bind (block_sound hothers site _).leavesNoMore
    fun body => ?_
  exact .refl bound _

/-- A statement asks for the statements in its blocks only with fewer tokens left. -/
theorem statementOver_agree (hagree : AgreeBelow bound nested others)
    (hothers : others.Sound IsStatement) :
    AgreeBelow (bound + 1) (statementOver nested) (statementOver others) := by
  refine .firstOf ?_
  simp only [List.forall₂_cons, List.forall₂_nil_left_iff, and_true]
  exact ⟨.refl _ _, .refl _ _, .refl _ _, decision_agree hagree hothers, .refl _ _, .refl _ _,
    .refl _ _, loop_agree hagree hothers, .refl _ _, .refl _ _, .refl _ _⟩

/-- However statements would be read that stand deeper than the levels say, it makes no difference
where there are fewer tokens than levels. -/
theorem statementOver_iterate_agree (below : Parser Statement) {levels depth : Nat}
    (hlevels : bound ≤ levels) (hdepth : bound ≤ depth + 1) :
    AgreeBelow bound (statementOver^[levels] below) (statementWithin depth) := by
  refine agree_iterate AgreeBelow.zero ?_ ?_ below hlevels hdepth
  · intro p tokens hlt retry before
    obtain rfl := List.eq_nil_of_length_eq_zero (Nat.lt_one_iff.mp hlt)
    have hlevel := statementOver_agree (.zero p (statementWithin 0)) (statementWithin_sound 0)
    rw [hlevel hlt, ← statementWithin_succ]
    exact statementWithin_refuses 1 (by simp) retry before
  · intro bound depth p _ hagree
    rw [statementWithin_succ]
    exact statementOver_agree hagree (statementWithin_sound depth)

/-- A program, with the given statements in it. -/
def unitOver (statement : Parser Statement) : Parser CompilationUnit := do
  let declarations ← many declaration
  functionsAndStatements statement declarations

theorem compilationUnit_apply (retry : Retry) (tokens : List Token) (before : List Failure) :
    compilationUnit retry tokens before =
      unitOver (statementWithin tokens.length) retry tokens before :=
  rfl

theorem unitOver_agree (hagree : AgreeBelow bound nested others)
    (hothers : others.Sound IsStatement) :
    AgreeBelow bound (unitOver nested) (unitOver others) := by
  have hfunctions := (function_agree hagree hothers).mono (Nat.le_succ bound)
  refine .after declaration_sound.many.leavesNoMore fun declarations => ?_
  refine (hfunctions.many (function_sound hothers).leavesNoMore).bind
    (function_sound hothers).many.leavesNoMore fun functions => ?_
  refine (hagree.many hothers.leavesNoMore).bind hothers.many.leavesNoMore fun statements => ?_
  exact .refl bound _

/-- A whole program is read alike, however statements would be read that stand in each other deeper
than the levels say, if there are fewer tokens than levels. -/
theorem unitOver_iterate (below : Parser Statement) {levels : Nat} {tokens : List Token}
    (hlevels : tokens.length < levels) (retry : Retry) (before : List Failure) :
    unitOver (statementOver^[levels] below) retry tokens before =
      compilationUnit retry tokens before := by
  have hagree : AgreeBelow (tokens.length + 1) (statementOver^[levels] below)
      (statementWithin tokens.length) :=
    statementOver_iterate_agree below hlevels (Nat.le_refl _)
  rw [compilationUnit_apply]
  exact unitOver_agree hagree (statementWithin_sound _) (Nat.lt_succ_self _) retry before

end Statement

/-! ### Arrays in arrays -/

/-- An element of an array, with the given ones in the arrays that are elements. -/
def elementOver (nested : Parser ArrayElement) : Parser ArrayElement :=
  firstOf [ArrayLiteral.toElement <$> arrayOf nested, .operand <$> operand]

theorem elementWithin_succ (bound : Nat) :
    elementWithin (bound + 1) = elementOver (elementWithin bound) :=
  rfl

theorem array_apply (retry : Retry) (tokens : List Token) (before : List Failure) :
    array retry tokens before = arrayOf (elementWithin tokens.length) retry tokens before :=
  rfl

theorem elementOver_refuses_nil (nested : Parser ArrayElement) :
    (elementOver nested).Refuses [] := by
  apply refuses_firstOf
  simp only [List.mem_cons, List.not_mem_nil, or_false, forall_eq_or_imp, forall_eq]
  constructor
  · exact (arrayOf_needs nested (by simp)).map _
  · exact (operand_refuses (by simp)).map _

section Element

variable {nested others : Parser ArrayElement} {bound : Nat}

theorem arrayOf_agree (hagree : AgreeBelow bound nested others) (hothers : others.Sound IsElement) :
    AgreeBelow (bound + 1) (arrayOf nested) (arrayOf others) := by
  refine .after_token fun bracket => ?_
  refine .after (leavesNoMore_commit _) fun site => ?_
  refine (hagree.separated hothers.leavesNoMore site _).bind hothers.separated.leavesNoMore
    fun elements => ?_
  exact .refl bound _

/-- An element asks for the elements in it only with fewer tokens left. -/
theorem elementOver_agree (hagree : AgreeBelow bound nested others)
    (hothers : others.Sound IsElement) :
    AgreeBelow (bound + 1) (elementOver nested) (elementOver others) :=
  .firstOf (.cons ((arrayOf_agree hagree hothers).map _) (.cons (.refl _ _) .nil))

/-- An array is read alike, however elements would be read that stand in each other deeper than the
levels say, if there are fewer tokens than levels. -/
theorem arrayOf_iterate (below : Parser ArrayElement) {levels : Nat} {tokens : List Token}
    (hlevels : tokens.length < levels) (retry : Retry) (before : List Failure) :
    arrayOf (elementOver^[levels] below) retry tokens before = array retry tokens before := by
  have hagree : AgreeBelow tokens.length (elementOver^[levels] below)
      (elementWithin tokens.length) := by
    refine agree_iterate AgreeBelow.zero ?_ ?_ below (by omega) (by omega)
    · intro p tokens hlt retry before
      obtain rfl := List.eq_nil_of_length_eq_zero (Nat.lt_one_iff.mp hlt)
      exact elementOver_refuses_nil p retry before
    · intro bound depth p _ hagree
      rw [elementWithin_succ]
      exact elementOver_agree hagree (elementWithin_sound depth)
  rw [array_apply]
  exact arrayOf_agree hagree (elementWithin_sound _) (Nat.lt_succ_self _) retry before

end Element

end Parser

/-! ### Operands in parentheses -/

namespace OperandReader

/-- Two readers do the same wherever fewer tokens than the bound are left. -/
def AgreeBelow (bound : Nat) (reader other : OperandReader) : Prop :=
  ∀ ⦃tokens : List Token⦄, tokens.length < bound → reader tokens = other tokens

/-- The reader of each form of operand, over any reader for what is in parentheses, with a bound for
the operators of one chain. -/
def tierOver (operators : Nat) (nested : OperandReader) : Tier → OperandReader
  | .atom => atom nested
  | .unary => negated (atom nested)
  | .binary level =>
    (level.andTighter.map isOperatorOf).foldr (chain operators) (negated (atom nested))

theorem tierOver_binary (operators : Nat) (nested : OperandReader) (level : Level) :
    tierOver operators nested (.binary level) =
      chain operators (isOperatorOf level) (tierOver operators nested level.tighter) := by
  cases level <;> rfl

/-- An operand, with the given reader for what is in parentheses. The tokens that are left are bound
enough for the operators of a chain. -/
def operandOver (nested : OperandReader) : OperandReader := fun tokens =>
  levels.foldr (chain tokens.length) (negated (atom nested)) tokens

theorem operandOver_eq_tierOver (nested : OperandReader) (tokens : List Token) :
    operandOver nested tokens = tierOver tokens.length nested (.binary .concatenation) tokens := by
  rw [operandOver, levels_eq_map_isOperatorOf, tierOver]

theorem AgreeBelow.zero (reader other : OperandReader) : AgreeBelow 0 reader other :=
  fun _ hlt => absurd hlt (Nat.not_lt_zero _)

section Operand

variable {nested others operand other : OperandReader} {bound small large : Nat}
  {isOperator : TokenKind → Bool}

theorem atom_agree (hagree : AgreeBelow bound nested others) :
    AgreeBelow (bound + 1) (atom nested) (atom others) := by
  intro tokens hlt
  cases tokens with
  | nil => rfl
  | cons t rest => simp only [atom, hagree (show rest.length < bound by simpa using hlt)]

theorem negated_agree (hagree : AgreeBelow bound operand other) :
    AgreeBelow bound (negated operand) (negated other) := by
  intro tokens hlt
  induction tokens with
  | nil => rfl
  | cons t rest ih =>
    rw [negated, negated, hagree hlt, ih (Nat.lt_of_succ_lt hlt)]

/-- The bound for the operators makes no difference where it is no less than the tokens left. -/
theorem extend_agree {language : List Token → Operand → Prop}
    (hagree : AgreeBelow bound operand other) (hother : Sound other language) (left : Operand)
    {tokens : List Token} (hlt : tokens.length < bound) (hsmall : tokens.length ≤ small)
    (hlarge : tokens.length ≤ large) :
    extend isOperator operand small left tokens = extend isOperator other large left tokens := by
  induction small generalizing large left tokens with
  | zero =>
    obtain rfl := List.eq_nil_of_length_eq_zero (Nat.le_zero.mp hsmall)
    cases large <;> rfl
  | succ small ih =>
    cases tokens with
    | nil => cases large <;> rfl
    | cons operator rest =>
      rw [List.length_cons] at hlt hsmall hlarge
      obtain ⟨large, rfl⟩ : ∃ n, large = n + 1 := ⟨large - 1, by omega⟩
      rw [extend, extend, hagree (show rest.length < bound by omega)]
      cases hread : other rest with
      | none => rfl
      | some result =>
        obtain ⟨right, after⟩ := result
        obtain ⟨taken, rfl, -⟩ := hother hread
        rw [List.length_append] at hlt hsmall hlarge
        simp only [ih (.binary left operator right) (show after.length < bound by omega)
          (by omega) (show after.length ≤ large by omega)]

theorem chain_agree {tier : Tier} (hagree : AgreeBelow bound operand other)
    (hother : Sound other (IsOperand tier)) (hsmall : bound ≤ small + 2)
    (hlarge : bound ≤ large + 2) :
    AgreeBelow bound (chain small isOperator operand) (chain large isOperator other) := by
  intro tokens hlt
  rw [chain, chain, hagree hlt]
  cases hread : other tokens with
  | none => rfl
  | some result =>
    obtain ⟨first, rest⟩ := result
    obtain ⟨taken, rfl, htaken⟩ := hother hread
    have hpos := htaken.length_pos
    rw [List.length_append] at hlt
    have hsame : extend isOperator operand small first rest =
        extend isOperator other large first rest :=
      extend_agree hagree hother first (by omega) (by omega) (by omega)
    exact congrArg some hsame

theorem tierOver_agree {depth : Nat} (hagree : AgreeBelow bound nested (within depth))
    (hsmall : bound ≤ small + 1) (hdepth : bound ≤ depth + 1) (tier : Tier) :
    AgreeBelow (bound + 1) (tierOver small nested tier) (readTier depth tier) := by
  induction tier using Tier.induction with
  | hatom => exact atom_agree hagree
  | hunary hatom => exact negated_agree hatom
  | hbinary level htighter =>
    rw [tierOver_binary, readTier_binary]
    have hsound := readTier_sound (within_sound depth) level.tighter
    exact chain_agree htighter hsound (by omega) (by omega)

/-- An operand asks for what is in parentheses only with fewer tokens left. -/
theorem operandOver_agree {depth : Nat} (hagree : AgreeBelow bound nested (within depth))
    (hdepth : bound ≤ depth + 1) :
    AgreeBelow (bound + 1) (operandOver nested) (within (depth + 1)) := by
  intro tokens hlt
  have hfewer : AgreeBelow tokens.length nested (within depth) :=
    fun rest hrest => hagree (by omega)
  rw [operandOver_eq_tierOver, within_succ]
  exact tierOver_agree hfewer (by omega) (by omega) _ (Nat.lt_succ_self _)

/-- An operand is read alike, however operands would be read that stand in parentheses deeper than
the levels say, if there are fewer tokens than levels. -/
theorem operandOver_iterate (below : OperandReader) {levels : Nat} {tokens : List Token}
    (hlevels : tokens.length < levels) :
    operandOver^[levels] below tokens = readOperand? tokens := by
  have hagree : AgreeBelow (tokens.length + 1) (operandOver^[levels] below)
      (within tokens.length) := by
    refine agree_iterate AgreeBelow.zero ?_ ?_ below hlevels (Nat.le_refl _)
    · intro p tokens hlt
      obtain rfl := List.eq_nil_of_length_eq_zero (Nat.lt_one_iff.mp hlt)
      rfl
    · exact fun bound depth p hdepth hagree => operandOver_agree hagree hdepth
  exact hagree (Nat.lt_succ_self _)

end Operand

end OperandReader

end FrontEnd
