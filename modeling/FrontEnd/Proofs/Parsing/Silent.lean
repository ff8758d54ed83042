import FrontEnd.Parsing.Basic
import FrontEnd.Proofs.Grammar.Program

/-!
Parsers at work on tokens about which nothing is to be reported. From an empty record a parser
reads a result or refuses; either way the record stays empty, and the memory of failed constructs
never comes into play.
-/

namespace FrontEnd.Parser

open Grammar

variable {α β : Type}

/-- The parser takes a result from the front of the tokens and records no failure. -/
def Reads (p : Parser α) (tokens : List Token) (a : α) (rest : List Token) : Prop :=
  ∀ retry, p retry tokens [] = ⟨some (a, rest), []⟩

/-- The parser does not match and records no failure, whatever was recorded before. -/
def Refuses (p : Parser α) (tokens : List Token) : Prop :=
  ∀ retry failures, p retry tokens failures = ⟨none, failures⟩

/-- The parser refuses all tokens that do not start with the given kind. -/
def Needs (p : Parser α) (kind : TokenKind) : Prop :=
  ∀ ⦃tokens : List Token⦄, (∀ t ∈ tokens.head?, t.kind ≠ kind) → p.Refuses tokens

theorem reads_pure {a : α} {tokens : List Token} : (pure a : Parser α).Reads tokens a tokens :=
  fun _ => rfl

theorem Reads.bind {p : Parser α} {f : α → Parser β} {tokens middle rest : List Token} {a : α}
    {b : β} (hp : p.Reads tokens a middle) (hf : (f a).Reads middle b rest) :
    (p >>= f).Reads tokens b rest := by
  intro retry
  change Parser.bind p f retry tokens [] = _
  rw [Parser.bind, hp retry]
  exact hf retry

theorem Refuses.bind {p : Parser α} {tokens : List Token} (hp : p.Refuses tokens)
    (f : α → Parser β) : (p >>= f).Refuses tokens := by
  intro retry failures
  change Parser.bind p f retry tokens failures = _
  rw [Parser.bind, hp retry]

theorem Reads.map {p : Parser α} {tokens rest : List Token} {a : α} (hp : p.Reads tokens a rest)
    (f : α → β) : (f <$> p).Reads tokens (f a) rest := by
  rw [← bind_pure_comp]
  exact hp.bind reads_pure

theorem Refuses.map {p : Parser α} {tokens : List Token} (hp : p.Refuses tokens) (f : α → β) :
    (f <$> p).Refuses tokens := by
  rw [← bind_pure_comp]
  exact hp.bind _

theorem Reads.orElse {p : Parser α} {tokens rest : List Token} {a : α}
    (hp : p.Reads tokens a rest) (q : Parser α) : (p.orElse q).Reads tokens a rest := by
  intro retry
  rw [Parser.orElse, hp retry]

theorem Refuses.orElse {p q : Parser α} {tokens rest : List Token} {a : α}
    (hp : p.Refuses tokens) (hq : q.Reads tokens a rest) : (p.orElse q).Reads tokens a rest := by
  intro retry
  rw [Parser.orElse, hp retry]
  exact hq retry

theorem Refuses.orElse_refuses {p q : Parser α} {tokens : List Token} (hp : p.Refuses tokens)
    (hq : q.Refuses tokens) : (p.orElse q).Refuses tokens := by
  intro retry failures
  rw [Parser.orElse, hp retry]
  exact hq retry failures

theorem Reads.firstOf {p : Parser α} {tokens rest : List Token} {a : α}
    (hp : p.Reads tokens a rest) (others : List (Parser α)) :
    (firstOf (p :: others)).Reads tokens a rest :=
  hp.orElse _

theorem Refuses.firstOf {p : Parser α} {others : List (Parser α)} {tokens rest : List Token}
    {a : α} (hp : p.Refuses tokens) (hothers : (firstOf others).Reads tokens a rest) :
    (Parser.firstOf (p :: others)).Reads tokens a rest :=
  hp.orElse hothers

theorem refuses_firstOf {parsers : List (Parser α)} {tokens : List Token}
    (hparsers : ∀ p ∈ parsers, p.Refuses tokens) : (firstOf parsers).Refuses tokens := by
  induction parsers with
  | nil => exact fun _ _ => rfl
  | cons p parsers ih =>
    have hp := hparsers p List.mem_cons_self
    exact hp.orElse_refuses (ih fun q hq => hparsers q (List.mem_cons_of_mem p hq))

theorem Reads.optional {p : Parser α} {tokens rest : List Token} {a : α}
    (hp : p.Reads tokens a rest) : (optional p).Reads tokens (some a) rest :=
  (hp.map some).orElse _

theorem Refuses.optional {p : Parser α} {tokens : List Token} (hp : p.Refuses tokens) :
    (optional p).Reads tokens none tokens :=
  (hp.map some).orElse reads_pure

theorem reads_token {kind : TokenKind} {t : Token} (hkind : t.kind = kind) (rest : List Token) :
    (token kind).Reads (t :: rest) t rest := by
  intro retry
  simp [token, satisfying, ofFunction, hkind]

theorem needs_token (kind : TokenKind) : (token kind).Needs kind := by
  intro tokens hhead retry failures
  cases tokens with
  | nil => rfl
  | cons t rest =>
    have hkind := hhead t rfl
    simp [token, satisfying, ofFunction, hkind]

/-- After a token of its own a parser refuses where the rest of it refuses. -/
theorem refuses_token_bind {kind : TokenKind} {f : Token → Parser β} {t : Token} {rest : List Token}
    (hkind : t.kind = kind) (hf : (f t).Refuses rest) : (token kind >>= f).Refuses (t :: rest) := by
  intro retry failures
  change Parser.bind (token kind) f retry (t :: rest) failures = _
  simp only [Parser.bind, token, satisfying, ofFunction, hkind, decide_true, if_pos]
  exact hf retry failures

theorem Needs.bind {p : Parser α} {kind : TokenKind} (hp : p.Needs kind) (f : α → Parser β) :
    (p >>= f).Needs kind :=
  fun _ hhead => (hp hhead).bind f

theorem Needs.map {p : Parser α} {kind : TokenKind} (hp : p.Needs kind) (f : α → β) :
    (f <$> p).Needs kind :=
  fun _ hhead => (hp hhead).map f

theorem Needs.refuses {p : Parser α} {kind : TokenKind} (hp : p.Needs kind) {t : Token}
    (hkind : t.kind ≠ kind) (rest : List Token) : p.Refuses (t :: rest) := by
  apply hp
  intro first hfirst
  obtain rfl : t = first := by simpa using hfirst
  exact hkind

theorem reads_commit (rule : Rule) (tokens : List Token) :
    (commit rule).Reads tokens ⟨rule, tokens.length⟩ tokens := by
  intro retry
  simp [commit, Site.isClosed]

theorem Reads.require {p : Parser α} {tokens rest : List Token} {a : α}
    (hp : p.Reads tokens a rest) (site : Site) (expected : Expected) :
    (site.require expected p).Reads tokens a rest :=
  hp.orElse _

theorem Reads.following {p : Parser α} {kind : TokenKind} {t : Token} {middle rest : List Token}
    {a : α} (hkind : t.kind = kind) (hp : p.Reads middle a rest) :
    (following kind p).Reads (t :: middle) (some a) rest :=
  (reads_token hkind middle).optional.bind (hp.map some)

theorem reads_following_none {p : Parser α} {kind : TokenKind} {tokens : List Token}
    (hhead : ∀ t ∈ tokens.head?, t.kind ≠ kind) :
    (following kind p).Reads tokens none tokens :=
  (needs_token kind hhead).optional.bind reads_pure

/-- A list of items is collected in full if each item is read in front of what may follow it, an
item may follow an item, and so may the rest, where there is no further item. -/
theorem reads_collect {p : Parser (Option α)} {language : List Token → α → Prop}
    {mayFollow : List Token → Prop}
    (hitem : ∀ ⦃taken a rest⦄, language taken a → mayFollow rest →
      p.Reads (taken ++ rest) (some a) rest)
    (hnext : ∀ ⦃taken a⦄, language taken a → ∀ rest, mayFollow (taken ++ rest))
    (hlength : ∀ ⦃taken a⦄, language taken a → 0 < taken.length)
    {tokens rest : List Token} {as : List α} (hitems : Sequence language tokens as)
    (hrest : mayFollow rest) (hstop : p.Reads rest none rest) :
    (collect p).Reads (tokens ++ rest) as rest := by
  have hwithin (bound : Nat) (hbound : as.length ≤ bound) :
      (collectWithin p bound).Reads (tokens ++ rest) as rest := by
    induction hitems generalizing bound with
    | nil =>
      cases bound with
      | zero => exact reads_pure
      | succ bound => exact hstop.bind reads_pure
    | @cons first others a as hfirst hothers ih =>
      obtain ⟨bound, rfl⟩ : ∃ n, bound = n + 1 := ⟨bound - 1, by simp at hbound; omega⟩
      have hafter : mayFollow (others ++ rest) := by
        cases hothers with
        | nil => exact hrest
        | @cons second more _ _ hsecond _ =>
          rw [List.append_assoc]
          exact hnext hsecond (more ++ rest)
      rw [List.append_assoc]
      exact (hitem hfirst hafter).bind ((ih bound (by simpa using hbound)).map (a :: ·))
  have hcount : as.length ≤ tokens.length := by
    clear hwithin
    induction hitems with
    | nil => simp
    | @cons first others a as hfirst _ ih =>
      have hpositive := hlength hfirst
      simp only [List.length_cons, List.length_append]
      omega
  have hreads := hwithin (tokens ++ rest).length (by simp; omega)
  exact fun retry => hreads retry

theorem reads_many {p : Parser α} {language : List Token → α → Prop}
    {mayFollow : List Token → Prop}
    (hitem : ∀ ⦃taken a rest⦄, language taken a → mayFollow rest → p.Reads (taken ++ rest) a rest)
    (hnext : ∀ ⦃taken a⦄, language taken a → ∀ rest, mayFollow (taken ++ rest))
    (hlength : ∀ ⦃taken a⦄, language taken a → 0 < taken.length)
    {tokens rest : List Token} {as : List α} (hitems : Sequence language tokens as)
    (hrest : mayFollow rest) (hstop : p.Refuses rest) : (many p).Reads (tokens ++ rest) as rest :=
  reads_collect (fun _ _ _ htaken hrest => (hitem htaken hrest).optional) hnext hlength hitems
    hrest hstop.optional

/-- A list with commas is read in full before a token that starts no item and is no comma. -/
theorem reads_separated {site : Site} {expected : Expected} {p : Parser α}
    {language : List Token → α → Prop} {mayFollow : List Token → Prop}
    (hitem : ∀ ⦃taken a rest⦄, language taken a → mayFollow rest → p.Reads (taken ++ rest) a rest)
    (hcomma : ∀ ⦃comma : Token⦄, comma.kind = .comma → ∀ rest, mayFollow (comma :: rest))
    {tokens rest : List Token} {as : List α} (hitems : Separated language tokens as)
    (hrest : mayFollow rest) (hstop : p.Refuses rest) (hend : ∀ t ∈ rest.head?, t.kind ≠ .comma) :
    (site.separated expected p).Reads (tokens ++ rest) as rest := by
  cases hitems with
  | none => exact hstop.optional.bind reads_pure
  | @some first others a as hfirst hothers =>
    have hcollect : (collect (following .comma (site.require expected p))).Reads (others ++ rest)
        as rest := by
      have hread : ∀ ⦃taken a after⦄, AfterComma language taken a → mayFollow after →
          (following .comma (site.require expected p)).Reads (taken ++ after) (some a) after := by
        rintro _ b after ⟨hkind, hb⟩ hafter
        exact .following hkind ((hitem hb hafter).require site expected)
      refine reads_collect hread ?_ ?_ hothers hrest (reads_following_none hend)
      · rintro _ b ⟨hkind, hb⟩ after
        exact hcomma hkind _
      · rintro _ b ⟨hkind, hb⟩
        simp
    have hafter : mayFollow (others ++ rest) := by
      cases hothers with
      | nil => exact hrest
      | cons hsecond _ =>
        cases hsecond with
        | mk hkind _ => exact hcomma hkind _
    rw [List.append_assoc]
    exact (hitem hfirst hafter).optional.bind (hcollect.map (a :: ·))

end FrontEnd.Parser
