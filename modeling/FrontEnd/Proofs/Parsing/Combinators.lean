import FrontEnd.Parsing.Basic
import FrontEnd.Proofs.Grammar.Program

/-!
What the parser combinators take and leave. A parser is sound for a language if whatever it takes,
with whatever failures before, is a member of the language.
-/

namespace FrontEnd

open Grammar

namespace Parser

variable {α β : Type}

/-- The parser can take a result from the front of the tokens and leave the rest. -/
def Parses (p : Parser α) (tokens : List Token) (a : α) (rest : List Token) : Prop :=
  ∃ retry failures, (p retry tokens failures).parsed = some (a, rest)

/-- What a parser takes from the front of the tokens belongs to the language. -/
def Sound (p : Parser α) (language : List Token → α → Prop) : Prop :=
  ∀ ⦃tokens a rest⦄, p.Parses tokens a rest → ∃ taken, tokens = taken ++ rest ∧ language taken a

theorem parses_pure {a b : α} {tokens rest : List Token}
    (hparses : (pure a : Parser α).Parses tokens b rest) : b = a ∧ rest = tokens := by
  obtain ⟨retry, failures, hparsed⟩ := hparses
  obtain ⟨rfl, rfl⟩ := Prod.mk.inj (Option.some.inj hparsed)
  exact ⟨rfl, rfl⟩

theorem parses_bind {p : Parser α} {f : α → Parser β} {tokens rest : List Token} {b : β}
    (hparses : (p >>= f).Parses tokens b rest) :
    ∃ a middle, p.Parses tokens a middle ∧ (f a).Parses middle b rest := by
  obtain ⟨retry, failures, hparsed⟩ := hparses
  change (Parser.bind p f retry tokens failures).parsed = some (b, rest) at hparsed
  unfold Parser.bind at hparsed
  split at hparsed
  · next a middle after hrun =>
    exact ⟨a, middle, ⟨retry, failures, by rw [hrun]⟩, retry, after, hparsed⟩
  · simp at hparsed

theorem parses_map {p : Parser α} {f : α → β} {tokens rest : List Token} {b : β}
    (hparses : (f <$> p).Parses tokens b rest) : ∃ a, p.Parses tokens a rest ∧ b = f a := by
  rw [← bind_pure_comp] at hparses
  obtain ⟨a, middle, hp, hpure⟩ := parses_bind hparses
  obtain ⟨rfl, rfl⟩ := parses_pure hpure
  exact ⟨a, hp, rfl⟩

theorem parses_orElse {p q : Parser α} {tokens rest : List Token} {a : α}
    (hparses : (p.orElse q).Parses tokens a rest) :
    p.Parses tokens a rest ∨ q.Parses tokens a rest := by
  obtain ⟨retry, failures, hparsed⟩ := hparses
  unfold orElse at hparsed
  split at hparsed
  · next result after hrun =>
    exact .inl ⟨retry, failures, by rw [hrun]; exact hparsed⟩
  · next after hrun => exact .inr ⟨retry, after, hparsed⟩

theorem not_parses_reject {tokens rest : List Token} {a : α} :
    ¬ (reject : Parser α).Parses tokens a rest := by
  rintro ⟨retry, failures, hparsed⟩
  simp [reject] at hparsed

theorem parses_firstOf {parsers : List (Parser α)} {tokens rest : List Token} {a : α}
    (hparses : (firstOf parsers).Parses tokens a rest) :
    ∃ p ∈ parsers, p.Parses tokens a rest := by
  induction parsers with
  | nil => exact absurd hparses not_parses_reject
  | cons p parsers ih =>
    rcases parses_orElse hparses with hp | hrest
    · exact ⟨p, List.mem_cons_self, hp⟩
    · obtain ⟨q, hq, hparses⟩ := ih hrest
      exact ⟨q, List.mem_cons_of_mem p hq, hparses⟩

theorem parses_optional {p : Parser α} {tokens rest : List Token} {found : Option α}
    (hparses : (optional p).Parses tokens found rest) :
    (∃ a, found = some a ∧ p.Parses tokens a rest) ∨ (found = none ∧ rest = tokens) := by
  rcases parses_orElse hparses with hsome | hnone
  · obtain ⟨a, hp, rfl⟩ := parses_map hsome
    exact .inl ⟨a, rfl, hp⟩
  · exact .inr (parses_pure hnone)

theorem parses_ofFunction {read? : List Token → Option (α × List Token)}
    {tokens rest : List Token} {a : α} (hparses : (ofFunction read?).Parses tokens a rest) :
    read? tokens = some (a, rest) := by
  obtain ⟨_, _, hparsed⟩ := hparses
  exact hparsed

theorem parses_token {kind : TokenKind} {tokens rest : List Token} {t : Token}
    (hparses : (token kind).Parses tokens t rest) : tokens = t :: rest ∧ t.kind = kind := by
  have hread := parses_ofFunction hparses
  split at hread
  · simp at hread
  · split at hread
    · next hkind =>
      obtain ⟨rfl, rfl⟩ := Prod.mk.inj (Option.some.inj hread)
      exact ⟨rfl, by simpa using hkind⟩
    · simp at hread

theorem parses_following {kind : TokenKind} {p : Parser α} {tokens rest : List Token}
    {found : Option α} (hparses : (following kind p).Parses tokens found rest) :
    (found = none ∧ rest = tokens) ∨
      ∃ t middle a, tokens = t :: middle ∧ t.kind = kind ∧ found = some a ∧
        p.Parses middle a rest := by
  obtain ⟨opened, middle, htoken, hafter⟩ := parses_bind hparses
  rcases parses_optional htoken with ⟨t, rfl, ht⟩ | ⟨rfl, rfl⟩
  · obtain ⟨rfl, hkind⟩ := parses_token ht
    obtain ⟨a, hp, rfl⟩ := parses_map hafter
    exact .inr ⟨t, middle, a, rfl, hkind, rfl, hp⟩
  · exact .inl (parses_pure hafter)

theorem parses_bounded {p : Nat → Parser α} {tokens rest : List Token} {a : α}
    (hparses : (bounded p).Parses tokens a rest) : (p tokens.length).Parses tokens a rest :=
  hparses

theorem parses_commit {rule : Rule} {tokens rest : List Token} {site : Site}
    (hparses : (commit rule).Parses tokens site rest) : rest = tokens := by
  obtain ⟨_, _, hparsed⟩ := hparses
  unfold commit at hparsed
  dsimp only at hparsed
  split at hparsed
  · simp at hparsed
  · exact (Prod.mk.inj (Option.some.inj hparsed)).2.symm

theorem parses_require {site : Site} {expected : Expected} {p : Parser α}
    {tokens rest : List Token} {a : α} (hparses : (site.require expected p).Parses tokens a rest) :
    p.Parses tokens a rest := by
  rcases parses_orElse hparses with hp | ⟨_, _, hfail⟩
  · exact hp
  · unfold Site.fail at hfail
    split at hfail <;> cases hfail

theorem parses_token_bind {kind : TokenKind} {f : Token → Parser β} {tokens rest : List Token}
    {b : β} (hparses : (token kind >>= f).Parses tokens b rest) :
    ∃ t middle, tokens = t :: middle ∧ t.kind = kind ∧ (f t).Parses middle b rest := by
  obtain ⟨t, middle, ht, hafter⟩ := parses_bind hparses
  obtain ⟨rfl, hkind⟩ := parses_token ht
  exact ⟨t, middle, rfl, hkind, hafter⟩

theorem parses_require_token_bind {site : Site} {expected : Expected} {kind : TokenKind}
    {f : Token → Parser β} {tokens rest : List Token} {b : β}
    (hparses : (site.require expected (token kind) >>= f).Parses tokens b rest) :
    ∃ t middle, tokens = t :: middle ∧ t.kind = kind ∧ (f t).Parses middle b rest := by
  obtain ⟨t, middle, ht, hafter⟩ := parses_bind hparses
  obtain ⟨rfl, hkind⟩ := parses_token (parses_require ht)
  exact ⟨t, middle, rfl, hkind, hafter⟩

theorem parses_commit_bind {rule : Rule} {f : Site → Parser β} {tokens rest : List Token} {b : β}
    (hparses : (commit rule >>= f).Parses tokens b rest) :
    ∃ site, (f site).Parses tokens b rest := by
  obtain ⟨site, middle, hcommit, hafter⟩ := parses_bind hparses
  obtain rfl := parses_commit hcommit
  exact ⟨site, hafter⟩

theorem Sound.of_bind {p : Parser α} {f : α → Parser β} {language : List Token → α → Prop}
    (hp : p.Sound language) {tokens rest : List Token} {b : β}
    (hparses : (p >>= f).Parses tokens b rest) :
    ∃ a taken middle, tokens = taken ++ middle ∧ language taken a ∧ (f a).Parses middle b rest := by
  obtain ⟨a, middle, ha, hafter⟩ := parses_bind hparses
  obtain ⟨taken, rfl, htaken⟩ := hp ha
  exact ⟨a, taken, middle, rfl, htaken, hafter⟩

theorem Sound.map {p : Parser α} {f : α → β} {language : List Token → α → Prop}
    {image : List Token → β → Prop} (hp : p.Sound language)
    (hf : ∀ {taken a}, language taken a → image taken (f a)) : (f <$> p).Sound image := by
  intro tokens b rest hparses
  obtain ⟨a, ha, rfl⟩ := parses_map hparses
  obtain ⟨taken, rfl, htaken⟩ := hp ha
  exact ⟨taken, rfl, hf htaken⟩

theorem sound_reject {language : List Token → α → Prop} : (reject : Parser α).Sound language :=
  fun _ _ _ hparses => absurd hparses not_parses_reject

theorem sound_firstOf {parsers : List (Parser α)} {language : List Token → α → Prop}
    (hparsers : ∀ p ∈ parsers, p.Sound language) : (firstOf parsers).Sound language := by
  intro tokens a rest hparses
  obtain ⟨p, hp, hparses⟩ := parses_firstOf hparses
  exact hparsers p hp hparses

/-- Results are collected until there is none; each of them leaves a member of the language behind,
and the last attempt takes nothing. -/
theorem sound_collect {p : Parser (Option α)} {language : List Token → α → Prop}
    (hsome : ∀ ⦃tokens a rest⦄, p.Parses tokens (some a) rest →
      ∃ taken, tokens = taken ++ rest ∧ language taken a)
    (hnone : ∀ ⦃tokens rest⦄, p.Parses tokens none rest → rest = tokens) :
    (collect p).Sound (Sequence language) := by
  have hwithin (bound : Nat) : (collectWithin p bound).Sound (Sequence language) := by
    induction bound with
    | zero =>
      intro tokens as rest hparses
      obtain ⟨rfl, rfl⟩ := parses_pure hparses
      exact ⟨[], rfl, .nil⟩
    | succ bound ih =>
      intro tokens as rest hparses
      obtain ⟨found, middle, hfound, hafter⟩ := parses_bind hparses
      cases found with
      | none =>
        obtain ⟨rfl, rfl⟩ := parses_pure hafter
        exact ⟨[], (hnone hfound).symm, .nil⟩
      | some first =>
        obtain ⟨others, hothers, rfl⟩ := parses_map hafter
        obtain ⟨taken, rfl, hfirst⟩ := hsome hfound
        obtain ⟨more, rfl, hmore⟩ := ih hothers
        exact ⟨taken ++ more, by simp, .cons hfirst hmore⟩
  intro tokens as rest hparses
  exact hwithin tokens.length (parses_bounded hparses)

theorem Sound.many {p : Parser α} {language : List Token → α → Prop} (hp : p.Sound language) :
    (many p).Sound (Sequence language) := by
  apply sound_collect
  · intro tokens a rest hparses
    rcases parses_optional hparses with ⟨b, hb, hparses⟩ | ⟨hnone, -⟩
    · obtain rfl := Option.some.inj hb
      exact hp hparses
    · cases hnone
  · intro tokens rest hparses
    rcases parses_optional hparses with ⟨b, hb, -⟩ | ⟨-, hrest⟩
    · cases hb
    · exact hrest

theorem Sound.following {kind : TokenKind} {p : Parser α} {language : List Token → α → Prop}
    (hp : p.Sound language) {tokens rest : List Token} {a : α}
    (hparses : (following kind p).Parses tokens (some a) rest) :
    ∃ t taken, tokens = t :: (taken ++ rest) ∧ t.kind = kind ∧ language taken a := by
  rcases parses_following hparses with ⟨hnone, -⟩ | ⟨t, middle, b, rfl, hkind, hb, hparses⟩
  · cases hnone
  · obtain rfl := Option.some.inj hb
    obtain ⟨taken, rfl, htaken⟩ := hp hparses
    exact ⟨t, taken, rfl, hkind, htaken⟩

theorem rest_eq_of_parses_following {kind : TokenKind} {p : Parser α} {tokens rest : List Token}
    (hparses : (Parser.following kind p).Parses tokens none rest) : rest = tokens := by
  rcases parses_following hparses with ⟨-, hrest⟩ | ⟨t, middle, b, -, -, hb, -⟩
  · exact hrest
  · cases hb

theorem Sound.require {p : Parser α} {language : List Token → α → Prop} (hp : p.Sound language)
    (site : Site) (expected : Expected) : (site.require expected p).Sound language :=
  fun _ _ _ hparses => hp (parses_require hparses)

theorem Sound.separated {site : Site} {expected : Expected} {p : Parser α}
    {language : List Token → α → Prop} (hp : p.Sound language) :
    (site.separated expected p).Sound (Separated language) := by
  have hcommas : (collect (Parser.following .comma (site.require expected p))).Sound
      (Sequence (AfterComma language)) := by
    apply sound_collect
    · intro tokens a rest hparses
      obtain ⟨comma, taken, rfl, hcomma, htaken⟩ := (hp.require site expected).following hparses
      exact ⟨comma :: taken, rfl, .mk hcomma htaken⟩
    · intro tokens rest hparses
      exact rest_eq_of_parses_following hparses
  intro tokens as rest hparses
  obtain ⟨found, middle, hfound, hafter⟩ := parses_bind hparses
  rcases parses_optional hfound with ⟨a, rfl, ha⟩ | ⟨rfl, rfl⟩
  · obtain ⟨others, hothers, rfl⟩ := parses_map hafter
    obtain ⟨first, rfl, hfirst⟩ := hp ha
    obtain ⟨taken, rfl, htaken⟩ := hcommas hothers
    exact ⟨first ++ taken, by simp, .some hfirst htaken⟩
  · obtain ⟨rfl, rfl⟩ := parses_pure hafter
    exact ⟨[], rfl, .none⟩

end Parser

end FrontEnd
