import FrontEnd.Proofs.Parsing.Failing.Record
import Mathlib.Data.List.Forall2

/-!
What the parser combinators do after a failure. A parser that records a failure has no result, or it
leaves a token that the construct around it cannot go on with. So a failure takes down every
construct around it, one after the other, and nothing else is entered in the meantime.
-/

namespace FrontEnd.Parser

variable {α β : Type}

/-- The ways in which a parser ends: with a result and no failure; with failures and no result; or
with a result and failures before a token of a kind that stops what is around it. -/
inductive Ends (bound : Nat) (tokens : List Token) (stops : TokenKind → Prop)
    (fails : List Failure → Prop) : Outcome α → Prop
  | read {a : α} {rest : List Token} :
    rest <:+ tokens → Ends bound tokens stops fails ⟨some (a, rest), []⟩
  | failed {failures : List Failure} :
    Nested bound tokens failures → fails failures → Ends bound tokens stops fails ⟨none, failures⟩
  | halted {a : α} {t : Token} {rest : List Token} {failures : List Failure} :
    t :: rest <:+ tokens → stops t.kind → Nested (rest.length + 1) (t :: rest) failures →
    Ends bound tokens stops fails ⟨some (a, t :: rest), failures⟩

/-- No kind of token. -/
def nowhere : TokenKind → Prop :=
  fun _ => False

/-- A part of a program that stands for itself: whatever it enters is recognized inside of it. -/
def Settles (p : Parser α) (stops : TokenKind → Prop) : Prop :=
  ∀ tokens, ∃ outcome, p.Yields tokens.length tokens outcome ∧
    Ends tokens.length tokens stops (fun _ => True) outcome

/-- What follows in a construct that has been entered: where it does not match, the construct has
failed. -/
def Completes (p : Parser α) (site : Site) (stops : TokenKind → Prop) : Prop :=
  ∀ tokens : List Token, tokens.length ≤ site.left → ∃ outcome,
    p.Yields (site.left + 1) tokens outcome ∧
      Ends (site.left + 1) tokens stops (fun failures => site ∈ failures.map Failure.site) outcome

section Ends

variable {bound large : Nat} {tokens more rest : List Token} {stops starts : TokenKind → Prop}
  {fails : List Failure → Prop} {outcome : Outcome α}

theorem Ends.mono {othersFail : List Failure → Prop} (hends : Ends bound tokens stops fails outcome)
    (hbound : bound ≤ large) (hsuffix : tokens <:+ more)
    (hfails : ∀ failures, fails failures → othersFail failures) :
    Ends large more stops othersFail outcome := by
  cases hends with
  | read hrest => exact .read (hrest.trans hsuffix)
  | failed hnested hfailed => exact .failed (hnested.mono hbound hsuffix) (hfails _ hfailed)
  | halted hrest hstop hnested => exact .halted (hrest.trans hsuffix) hstop hnested

theorem Ends.of_nowhere (hends : Ends bound tokens nowhere fails outcome) :
    Ends bound tokens stops fails outcome := by
  cases hends with
  | read hrest => exact .read hrest
  | failed hnested hfailed => exact .failed hnested hfailed
  | halted _ hstop _ => exact hstop.elim

theorem Ends.map (hends : Ends bound tokens stops fails outcome) (f : α → β) :
    Ends bound tokens stops fails
      (⟨outcome.parsed.map fun result => (f result.1, result.2), outcome.failures⟩ :
        Outcome β) := by
  cases hends with
  | read hrest => exact .read hrest
  | failed hnested hfailed => exact .failed hnested hfailed
  | halted hrest hstop hnested => exact .halted hrest hstop hnested

/-- A parser that stops nowhere fails, or what follows it decides. -/
theorem Yields.bind_ends {p : Parser α} {f : α → Parser β} (hyields : p.Yields bound tokens outcome)
    (hends : Ends bound tokens nowhere fails outcome)
    (hf : ∀ a rest, p.Parses tokens a rest → rest <:+ tokens →
      ∃ outcome, (f a).Yields bound rest outcome ∧ Ends bound rest stops fails outcome) :
    ∃ outcome, (p >>= f).Yields bound tokens outcome ∧ Ends bound tokens stops fails outcome := by
  cases hends with
  | failed hnested hfailed => exact ⟨_, hyields.bind_failed f, .failed hnested hfailed⟩
  | halted _ hstop _ => exact hstop.elim
  | @read a rest hrest =>
    obtain ⟨outcome, hafter, hends⟩ := hf a rest hyields.parses hrest
    exact ⟨outcome, hyields.bind hafter, hends.mono (Nat.le_refl _) hrest fun _ hfailed => hfailed⟩

theorem Settles.ends {p : Parser α} (hp : p.Settles stops)
    (hyields : p.Yields tokens.length tokens outcome) :
    Ends tokens.length tokens stops (fun _ => True) outcome := by
  obtain ⟨other, hother, hends⟩ := hp tokens
  rwa [hyields.unique hother]

theorem Settles.nested {item : Parser α} (hitem : item.Settles stops) {failures : List Failure}
    (hfailed : item.Yields rest.length rest ⟨none, failures⟩) :
    Nested rest.length rest failures := by
  cases hitem.ends hfailed with
  | failed hnested _ => exact hnested

/-- An item records something only at a token that it starts with. -/
theorem Settles.starts_of_failed {item : Parser α} (hitem : item.Settles stops)
    (starts : TokenKind → Prop)
    (hstarts : ∀ ⦃t rest⦄, ¬ starts t.kind → item.Refuses (t :: rest)) {failures : List Failure}
    (hfailed : item.Yields rest.length rest ⟨none, failures⟩) :
    failures = [] ∨ ∃ t more, rest = t :: more ∧ starts t.kind := by
  cases rest with
  | nil => exact .inl (hitem.nested hfailed).eq_nil
  | cons t rest =>
    by_cases hstart : starts t.kind
    · exact .inr ⟨t, rest, rfl, hstart⟩
    · exact .inl (congrArg Outcome.failures (hfailed.unique ((hstarts hstart).yields _)))

/-- An item without a result leaves its tokens to what is around it. -/
theorem Settles.ends_before {item : Parser α} (hitem : item.Settles nowhere)
    (hstarts : ∀ ⦃t rest⦄, ¬ starts t.kind → item.Refuses (t :: rest)) {failures : List Failure}
    (hfailed : item.Yields rest.length rest ⟨none, failures⟩) (hsuffix : rest <:+ tokens) (b : β) :
    Ends bound tokens starts fails (⟨some (b, rest), failures⟩ : Outcome β) := by
  rcases hitem.starts_of_failed _ hstarts hfailed with rfl | ⟨t, more, rfl, hstart⟩
  · exact .read hsuffix
  · exact .halted hsuffix hstart (hitem.nested hfailed)

end Ends

/-! ### Parts of a program -/

section Settles

variable {p : Parser α} {stops : TokenKind → Prop}

theorem Settles.map (hp : p.Settles stops) (f : α → β) : (f <$> p).Settles stops := by
  intro tokens
  obtain ⟨outcome, hyields, hends⟩ := hp tokens
  exact ⟨_, hyields.map f, hends.map f⟩

theorem settles_pure (a : α) : (pure a : Parser α).Settles nowhere :=
  fun tokens => ⟨_, yields_pure a _ tokens, .read (List.suffix_refl tokens)⟩

theorem settles_reject : (reject : Parser α).Settles nowhere := by
  intro tokens
  have hrefuses : (reject : Parser α).Refuses tokens := fun _ _ => rfl
  exact ⟨_, hrefuses.yields _, .failed .nil trivial⟩

/-- Alternatives of which at most one does not refuse. -/
theorem Settles.orElse {q : Parser α} (hp : p.Settles nowhere) (hq : q.Settles nowhere)
    (hexclusive : ∀ tokens, p.Refuses tokens ∨ q.Refuses tokens) :
    (p.orElse q).Settles nowhere := by
  intro tokens
  obtain ⟨outcome, hyields, hends⟩ := hp tokens
  obtain ⟨other, hother, hotherEnds⟩ := hq tokens
  rcases hexclusive tokens with hrefuses | hrefuses
  · exact ⟨other, hrefuses.orElse_yields hother, hotherEnds⟩
  · cases hends with
    | read hrest => exact ⟨_, hyields.orElse_read q, .read hrest⟩
    | failed hnested _ => exact ⟨_, hyields.orElse_of_forall hrefuses, .failed hnested trivial⟩
    | halted _ hstop _ => exact hstop.elim

theorem settles_ofFunction {read? : List Token → Option (α × List Token)}
    (hread : ∀ ⦃tokens a rest⦄, read? tokens = some (a, rest) → rest <:+ tokens) :
    (ofFunction read?).Settles nowhere := by
  intro tokens
  refine ⟨_, yields_ofFunction read? _ tokens, ?_⟩
  cases hresult : read? tokens with
  | none => exact .failed .nil trivial
  | some result => exact .read (hread hresult)

theorem yields_token {kind : TokenKind} {t : Token} (hkind : t.kind = kind) (bound : Nat)
    (rest : List Token) : (token kind).Yields bound (t :: rest) ⟨some (t, rest), []⟩ := by
  intro retry failures _
  rw [token_of_kind hkind, List.append_nil]

/-- A token is there or it is refused. -/
theorem token_cases (kind : TokenKind) (tokens : List Token) :
    (token kind).Refuses tokens ∨ ∃ t rest, tokens = t :: rest ∧ t.kind = kind := by
  cases tokens with
  | nil => exact .inl (needs_token kind (by simp))
  | cons t rest =>
    by_cases hkind : t.kind = kind
    · exact .inr ⟨t, rest, rfl, hkind⟩
    · exact .inl ((needs_token kind).refuses hkind rest)

theorem settles_token (kind : TokenKind) : (token kind).Settles nowhere := by
  intro tokens
  rcases token_cases kind tokens with hrefuses | ⟨t, rest, rfl, hkind⟩
  · exact ⟨_, hrefuses.yields _, .failed .nil trivial⟩
  · exact ⟨_, yields_token hkind _ rest, .read (List.suffix_cons t rest)⟩

theorem settles_optional_token (kind : TokenKind) : (optional (token kind)).Settles nowhere := by
  intro tokens
  rcases token_cases kind tokens with hrefuses | ⟨t, rest, rfl, hkind⟩
  · exact ⟨_, (hrefuses.yields _).optional_none, .read List.suffix_rfl⟩
  · exact ⟨_, (yields_token hkind _ rest).optional_read, .read (List.suffix_cons t rest)⟩

theorem Settles.bind {f : α → Parser β} (hp : p.Settles nowhere) (hf : ∀ a, (f a).Settles stops) :
    (p >>= f).Settles stops := by
  intro tokens
  obtain ⟨outcome, hyields, hends⟩ := hp tokens
  refine hyields.bind_ends hends fun a rest _ hrest => ?_
  obtain ⟨outcome, hafter, hends⟩ := hf a rest
  exact ⟨outcome, hafter.mono hrest.length_le,
    hends.mono hrest.length_le List.suffix_rfl fun _ _ => trivial⟩

/-- The parser refuses all tokens that do not start with the given kinds, one after the other. -/
def OpensWith (p : Parser α) (kinds : List TokenKind) : Prop :=
  ∀ ⦃tokens : List Token⦄, ¬ kinds <+: tokens.map Token.kind → p.Refuses tokens

theorem opensWith_nil (p : Parser α) : p.OpensWith [] :=
  fun _ hnot => absurd List.nil_prefix hnot

theorem opensWith_token_bind {kind : TokenKind} {kinds : List TokenKind} {f : Token → Parser β}
    (hf : ∀ t, (f t).OpensWith kinds) : (token kind >>= f).OpensWith (kind :: kinds) := by
  intro tokens hnot
  rcases token_cases kind tokens with hrefuses | ⟨t, rest, rfl, hkind⟩
  · exact hrefuses.bind f
  · refine refuses_token_bind hkind (hf t fun hkinds => hnot ?_)
    rw [List.map_cons, hkind, List.cons_prefix_cons]
    exact ⟨rfl, hkinds⟩

theorem OpensWith.bind {kinds : List TokenKind} (hp : p.OpensWith kinds) (f : α → Parser β) :
    (p >>= f).OpensWith kinds :=
  fun _ hnot => (hp hnot).bind f

theorem OpensWith.map {kinds : List TokenKind} (hp : p.OpensWith kinds) (f : α → β) :
    (f <$> p).OpensWith kinds :=
  fun _ hnot => (hp hnot).map f

theorem refuses_firstOf_of_openings {parsers : List (Parser α)} {openings : List (List TokenKind)}
    (hopens : List.Forall₂ OpensWith parsers openings) {tokens : List Token}
    (hnone : ∀ kinds ∈ openings, ¬ kinds <+: tokens.map Token.kind) :
    (firstOf parsers).Refuses tokens := by
  induction hopens with
  | nil => exact fun _ _ => rfl
  | cons hp _ ih =>
    obtain ⟨hfirst, hothers⟩ := List.forall_mem_cons.mp hnone
    exact (hp hfirst).orElse_refuses (ih hothers)

/-- Of alternatives that open with different kinds of tokens at most one does not refuse. -/
theorem settles_firstOf {parsers : List (Parser α)} (openings : List (List TokenKind))
    (hopens : List.Forall₂ OpensWith parsers openings)
    (hparsers : ∀ p ∈ parsers, p.Settles nowhere)
    (hdistinct : openings.Pairwise fun kinds others => ¬ kinds <+: others ∧ ¬ others <+: kinds) :
    (firstOf parsers).Settles nowhere := by
  induction hopens with
  | nil => exact settles_reject
  | @cons p kinds parsers openings hp hopens ih =>
    obtain ⟨hsettles, hothers⟩ := List.forall_mem_cons.mp hparsers
    obtain ⟨hfirst, hrest⟩ := List.pairwise_cons.mp hdistinct
    refine hsettles.orElse (ih hothers hrest) fun tokens => ?_
    by_cases hkinds : kinds <+: tokens.map Token.kind
    · refine .inr (refuses_firstOf_of_openings hopens fun others hmem hprefix => ?_)
      rcases List.prefix_or_prefix_of_prefix hkinds hprefix with h | h
      · exact (hfirst others hmem).1 h
      · exact (hfirst others hmem).2 h
    · exact .inl (hp hkinds)

end Settles

/-! ### Constructs that have been entered -/

section Completes

variable {p : Parser α} {site : Site} {stops starts : TokenKind → Prop} {expected : Expected}

theorem completes_pure (a : α) (site : Site) (stops : TokenKind → Prop) :
    (pure a : Parser α).Completes site stops :=
  fun tokens _ => ⟨_, yields_pure a _ tokens, .read List.suffix_rfl⟩

theorem Completes.bind {f : α → Parser β} (hp : p.Completes site nowhere)
    (hf : ∀ a, (f a).Completes site stops) : (p >>= f).Completes site stops := by
  intro tokens hleft
  obtain ⟨outcome, hyields, hends⟩ := hp tokens hleft
  exact hyields.bind_ends hends fun a rest _ hrest =>
    hf a rest (Nat.le_trans hrest.length_le hleft)

theorem Completes.of_nowhere (hp : p.Completes site nowhere) : p.Completes site stops := by
  intro tokens hleft
  obtain ⟨outcome, hyields, hends⟩ := hp tokens hleft
  exact ⟨outcome, hyields, hends.of_nowhere⟩

theorem Completes.map (hp : p.Completes site stops) (f : α → β) :
    (f <$> p).Completes site stops := by
  intro tokens hleft
  obtain ⟨outcome, hyields, hends⟩ := hp tokens hleft
  exact ⟨_, hyields.map f, hends.map f⟩

theorem Settles.require (hp : p.Settles stops) (site : Site) (expected : Expected) :
    (site.require expected p).Completes site stops := by
  intro tokens hleft
  obtain ⟨outcome, hyields, hends⟩ := hp tokens
  have hmore : p.Yields (site.left + 1) tokens outcome := hyields.mono (by omega)
  cases hends with
  | read hrest => exact ⟨_, hmore.orElse_read _, .read hrest⟩
  | halted hrest hstop hnested =>
    exact ⟨_, hmore.orElse_read _, .halted hrest hstop hnested⟩
  | @failed failures hnested _ =>
    -- What failed inside was recognized later than the construct itself, which is therefore open.
    have hinside : Nested site.left tokens failures := hnested.mono hleft List.suffix_rfl
    refine ⟨⟨none, failures ++ [⟨site, expected, tokens.head?⟩]⟩, fun retry before hopen => ?_,
      .failed (hnested.concat hleft expected) (by simp)⟩
    have hclosed := hinside.isClosed_append hopen
    rw [require_of_none (hmore hopen) hclosed, List.append_assoc]

/-- A required token ends what stops before another token: either way the construct has failed. -/
theorem Completes.bind_require_token {kind : TokenKind} {f : α → Token → Parser β}
    (hp : p.Completes site starts) (hkind : ¬ starts kind)
    (hf : ∀ a t, (f a t).Completes site stops) :
    (p >>= fun a => site.require expected (token kind) >>= f a).Completes site stops := by
  intro tokens hleft
  have hafter (a : α) : (site.require expected (token kind) >>= f a).Completes site stops :=
    ((settles_token kind).require site expected).bind (hf a)
  obtain ⟨outcome, hyields, hends⟩ := hp tokens hleft
  cases hends with
  | failed hnested hsite => exact ⟨_, hyields.bind_failed _, .failed hnested hsite⟩
  | @read a rest hrest =>
    obtain ⟨outcome, hlast, hends⟩ := hafter a rest (Nat.le_trans hrest.length_le hleft)
    exact ⟨outcome, hyields.bind hlast, hends.mono (Nat.le_refl _) hrest fun _ hsite => hsite⟩
  | @halted a t rest failures hrest hstop hnested =>
    have hle : rest.length + 1 ≤ tokens.length := hrest.length_le
    have hlast : Nested (t :: rest).length (t :: rest) failures := hnested
    have hinside : Nested site.left (t :: rest) failures :=
      hlast.mono (Nat.le_trans hle hleft) List.suffix_rfl
    have hrefuses : (token kind).Refuses (t :: rest) :=
      (needs_token kind).refuses (fun heq => hkind (heq ▸ hstop)) rest
    refine ⟨⟨none, failures ++ [⟨site, expected, some t⟩]⟩, hyields.bind_of ?_,
      .failed ((hlast.concat (Nat.le_trans hle hleft) expected).mono (Nat.le_refl _) hrest)
        (by simp)⟩
    intro retry before hopen
    have hmissing := require_of_none (hrefuses retry (before ++ failures))
      (hinside.isClosed_append hopen) expected
    rw [bind_of_none hmissing, List.append_assoc]
    rfl

theorem Completes.following {kind : TokenKind} (hp : p.Completes site stops) :
    (following kind p).Completes site stops := by
  intro tokens hleft
  rcases token_cases kind tokens with hrefuses | ⟨t, rest, rfl, hkind⟩
  · have hnone := (hrefuses.yields (site.left + 1)).optional_none
    exact ⟨_, hnone.bind (yields_pure none _ tokens), .read List.suffix_rfl⟩
  · have hsome := (yields_token hkind (site.left + 1) rest).optional_read
    rw [List.length_cons] at hleft
    obtain ⟨outcome, hyields, hends⟩ := (hp.map some) rest (by omega)
    exact ⟨outcome, hsome.bind hyields,
      hends.mono (Nat.le_refl _) (List.suffix_cons t rest) fun _ hsite => hsite⟩

theorem Completes.collect {q : Parser (Option α)} (hq : q.Completes site nowhere) :
    (collect q).Completes site nowhere := by
  have hwithin (bound : Nat) : (collectWithin q bound).Completes site nowhere := by
    induction bound with
    | zero => exact completes_pure [] site nowhere
    | succ bound ih =>
      refine hq.bind fun found => ?_
      cases found with
      | none => exact completes_pure [] site nowhere
      | some first => exact ih.map (first :: ·)
  exact fun tokens => hwithin tokens.length tokens

theorem Settles.separated {item : Parser α} (hitem : item.Settles nowhere)
    (starts : TokenKind → Prop)
    (hstarts : ∀ ⦃t rest⦄, ¬ starts t.kind → item.Refuses (t :: rest)) (site : Site)
    (expected : Expected) : (site.separated expected item).Completes site starts := by
  have hothers (first : α) : ((first :: ·) <$> Parser.collect
      (Parser.following .comma (site.require expected item))).Completes site starts :=
    ((hitem.require site expected).following.collect.map (first :: ·)).of_nowhere
  intro tokens hleft
  obtain ⟨outcome, hyields, hends⟩ := hitem tokens
  have hmore : item.Yields (site.left + 1) tokens outcome := hyields.mono (by omega)
  cases hends with
  | halted _ hstop _ => exact hstop.elim
  | @read a rest hrest =>
    obtain ⟨outcome, hafter, hends⟩ := hothers a rest (Nat.le_trans hrest.length_le hleft)
    exact ⟨outcome, hmore.optional_read.bind hafter,
      hends.mono (Nat.le_refl _) hrest fun _ hsite => hsite⟩
  | failed hnested _ =>
    exact ⟨_, hmore.optional_none.bind_pure rfl,
      hitem.ends_before hstarts hyields List.suffix_rfl []⟩

/-- A repetition ends where the item has no result, with the failures that the item leaves there. -/
theorem Settles.many_yields {item : Parser α} {language : List Token → α → Prop}
    (hitem : item.Settles nowhere) (hsound : item.Sound language)
    (hlength : ∀ ⦃taken a⦄, language taken a → 0 < taken.length) (tokens : List Token) :
    ∃ as rest failures, (many item).Yields tokens.length tokens ⟨some (as, rest), failures⟩ ∧
      rest <:+ tokens ∧ item.Yields rest.length rest ⟨none, failures⟩ := by
  -- By induction on the number of attempts; each item that is read takes a token.
  have hwithin (bound : Nat) (tokens : List Token) (hbound : tokens.length ≤ bound) :
      ∃ as rest failures, (collectWithin (optional item) bound).Yields tokens.length tokens
          ⟨some (as, rest), failures⟩ ∧
        rest <:+ tokens ∧ item.Yields rest.length rest ⟨none, failures⟩ := by
    induction bound generalizing tokens with
    | zero =>
      obtain rfl : tokens = [] := List.length_eq_zero_iff.mp (by omega)
      obtain ⟨outcome, hyields, hends⟩ := hitem []
      cases hends with
      | halted _ hstop _ => exact hstop.elim
      | failed hnested _ =>
        obtain rfl := hnested.eq_nil
        exact ⟨[], [], [], yields_pure [] _ [], List.suffix_rfl, hyields⟩
      | read _ =>
        obtain ⟨taken, htokens, htaken⟩ := hsound hyields.parses
        have hpositive := hlength htaken
        rw [(List.append_eq_nil_iff.mp htokens.symm).1] at hpositive
        cases hpositive
    | succ bound ih =>
      obtain ⟨outcome, hyields, hends⟩ := hitem tokens
      cases hends with
      | halted _ hstop _ => exact hstop.elim
      | @failed failures hnested _ =>
        exact ⟨[], tokens, failures, hyields.optional_none.bind_pure rfl, List.suffix_rfl,
          hyields⟩
      | @read a rest hrest =>
        obtain ⟨taken, rfl, htaken⟩ := hsound hyields.parses
        have hpositive := hlength htaken
        rw [List.length_append] at hbound
        obtain ⟨as, last, failures, hafter, hlast, hfailed⟩ := ih rest (by omega)
        have hmore := (hafter.map (a :: ·)).mono hrest.length_le
        exact ⟨a :: as, last, failures, hyields.optional_read.bind hmore, hlast.trans hrest,
          hfailed⟩
  exact hwithin tokens.length tokens (Nat.le_refl _)

theorem Settles.many {item : Parser α} {language : List Token → α → Prop}
    (hitem : item.Settles nowhere) (hsound : item.Sound language)
    (hlength : ∀ ⦃taken a⦄, language taken a → 0 < taken.length)
    (hstarts : ∀ ⦃t rest⦄, ¬ starts t.kind → item.Refuses (t :: rest)) (site : Site) :
    (many item).Completes site starts := by
  intro tokens hleft
  obtain ⟨as, rest, failures, hyields, hrest, hfailed⟩ := hitem.many_yields hsound hlength tokens
  exact ⟨_, hyields.mono (by omega), hitem.ends_before hstarts hfailed hrest as⟩

/-- A construct is entered after the tokens by which it is recognized. From then on it reads all of
its pieces or fails. -/
theorem commit_ends {f : Site → Parser β} (hf : ∀ site, (f site).Completes site stops)
    (rule : Rule) (tokens : List Token) :
    ∃ outcome, (commit rule >>= f).Yields (tokens.length + 1) tokens outcome ∧
      Ends (tokens.length + 1) tokens stops
        (fun failures => ⟨rule, tokens.length⟩ ∈ failures.map Failure.site) outcome := by
  obtain ⟨outcome, hyields, hends⟩ := hf ⟨rule, tokens.length⟩ tokens (Nat.le_refl _)
  have hcommit : (commit rule).Yields (tokens.length + 1) tokens
      ⟨some (⟨rule, tokens.length⟩, tokens), []⟩ := by
    intro retry failures hopen
    simp [commit, hopen ⟨rule, tokens.length⟩ (Nat.lt_succ_self _)]
  exact ⟨outcome, hcommit.bind hyields, hends⟩

/-- A parser that takes a token to recognize a construct and then enters it. -/
theorem Settles.enter (hp : p.Settles nowhere)
    (hshorter : ∀ ⦃tokens a rest⦄, p.Parses tokens a rest → rest.length < tokens.length)
    {f : α → Site → Parser β} (hf : ∀ a site, (f a site).Completes site stops) (rule : Rule) :
    (p >>= fun a => commit rule >>= f a).Settles stops := by
  intro tokens
  obtain ⟨outcome, hyields, hends⟩ := hp tokens
  refine hyields.bind_ends hends fun a rest hparses _ => ?_
  have hlt := hshorter hparses
  obtain ⟨outcome, hafter, hends⟩ := commit_ends (hf a) rule rest
  exact ⟨outcome, hafter.mono hlt, hends.mono hlt List.suffix_rfl fun _ _ => trivial⟩

theorem settles_construct {kind : TokenKind} {f : Token → Site → Parser β}
    (hf : ∀ t site, (f t site).Completes site stops) (rule : Rule) :
    (token kind >>= fun t => commit rule >>= f t).Settles stops := by
  refine (settles_token kind).enter (fun tokens t rest hparses => ?_) hf rule
  rw [(parses_token hparses).1]
  exact Nat.lt_succ_self _

end Completes

/-! ### A second attempt -/

/-- The parser settles. Tried again after a failure of its own, it is kept out. -/
structure SettlesOnce (p : Parser α) : Prop where
  settles : p.Settles nowhere
  again : ∀ ⦃tokens failures⦄, p.Yields tokens.length tokens ⟨none, failures⟩ →
    p .never tokens failures = ⟨none, failures⟩

section SettlesOnce

variable {p q : Parser α}

theorem SettlesOnce.map (hp : p.SettlesOnce) (f : α → β) : (f <$> p).SettlesOnce where
  settles := hp.settles.map f
  again tokens failures hfailed := by
    obtain ⟨⟨parsed, others⟩, hyields, -⟩ := hp.settles tokens
    have houtcome := (hyields.map f).unique hfailed
    obtain rfl : others = failures := congrArg Outcome.failures houtcome
    obtain rfl : parsed = none := Option.map_eq_none_iff.mp (congrArg Outcome.parsed houtcome)
    exact map_of_none (hp.again hyields) f

theorem settlesOnce_reject : (reject : Parser α).SettlesOnce :=
  ⟨settles_reject, fun _ _ _ => rfl⟩

theorem SettlesOnce.orElse (hp : p.SettlesOnce) (hq : q.SettlesOnce)
    (hexclusive : ∀ tokens, p.Refuses tokens ∨ q.Refuses tokens) : (p.orElse q).SettlesOnce where
  settles := hp.settles.orElse hq.settles hexclusive
  again tokens failures hfailed := by
    rcases hexclusive tokens with hrefuses | hrefuses
    · rw [orElse_of_none (hrefuses .never failures)]
      exact hq.again (hrefuses.orElse_yields_iff.mp hfailed)
    · obtain ⟨outcome, hyields, hends⟩ := hp.settles tokens
      cases hends with
      | read _ => cases (hyields.orElse_read q).unique hfailed
      | halted _ hstop _ => exact hstop.elim
      | failed _ _ =>
        cases (hyields.orElse_of_forall hrefuses).unique hfailed
        rw [orElse_of_none (hp.again hyields), hrefuses .never failures]

theorem settlesOnce_construct {kind : TokenKind} {f : Token → Site → Parser β}
    (hf : ∀ t site, (f t site).Completes site nowhere) (rule : Rule) :
    (token kind >>= fun t => commit rule >>= f t).SettlesOnce where
  settles := settles_construct hf rule
  again tokens failures hfailed := by
    rcases token_cases kind tokens with hrefuses | ⟨t, rest, rfl, hkind⟩
    · exact hrefuses.bind _ .never failures
    obtain ⟨outcome, hyields, hends⟩ := commit_ends (hf t) rule rest
    obtain rfl := ((yields_token hkind _ rest).bind hyields).unique hfailed
    cases hends with
    | failed _ hsite =>
      have hclosed : Site.isClosed ⟨rule, rest.length⟩ .never failures = true := by
        obtain ⟨failure, hmem, hsite⟩ := List.mem_map.mp hsite
        simpa [Site.isClosed] using ⟨failure, hmem, hsite⟩
      have hcommit : commit rule .never rest failures = ⟨none, failures⟩ := by
        simp [commit, hclosed]
      rw [bind_of_some (token_of_kind hkind rest .never failures), bind_of_none hcommit]

end SettlesOnce

end FrontEnd.Parser
