import FrontEnd.Parsing.Unit
import FrontEnd.Proofs.Relabeling.Diagnostic
import FrontEnd.Proofs.Relabeling.Operand

/-!
Parsers that commute with relabeling: on relabeled tokens they give the relabeled result, and their
failures miss the same pieces at the corresponding tokens. The ways of combining parsers keep this.
-/

namespace FrontEnd

variable {α β : Type} (r : Relabeling)

def Failure.relabel (failure : Failure) : Failure :=
  ⟨failure.site, failure.expected.relabel r, failure.found.map (Token.relabel r)⟩

def Outcome.relabel (f : α → α) (outcome : Outcome α) : Outcome α :=
  ⟨outcome.parsed.map (relabelParsed r f), outcome.failures.map (Failure.relabel r)⟩

namespace Parser

/-- On relabeled tokens the second parser does what the first one does, under new labels. -/
def Commutes (f : α → α) (p q : Parser α) : Prop :=
  ∀ retry tokens failures,
    q retry (tokens.map (Token.relabel r)) (failures.map (Failure.relabel r)) =
      (p retry tokens failures).relabel r f

variable {r}

/-! ### Combinators -/

theorem commutes_pure {f : α → α} {a b : α} (hlabel : b = f a) :
    Commutes r f (pure a) (pure b) := by
  subst hlabel
  intro retry tokens failures
  rfl

theorem Commutes.bind {f : α → α} {g : β → β} {p q : Parser α} {next other : α → Parser β}
    (hp : Commutes r f p q) (hnext : ∀ a, Commutes r g (next a) (other (f a))) :
    Commutes r g (p >>= next) (q >>= other) := by
  intro retry tokens failures
  have hfirst := hp retry tokens failures
  simp only [Bind.bind, Parser.bind]
  rw [hfirst]
  obtain ⟨parsed, more⟩ := p retry tokens failures
  cases parsed with
  | none => rfl
  | some result =>
    obtain ⟨a, rest⟩ := result
    exact hnext a retry rest more

theorem Commutes.map {f : α → α} {g : β → β} {p q : Parser α} (hp : Commutes r f p q)
    {label other : α → β} (hlabel : ∀ a, other (f a) = g (label a)) :
    Commutes r g (label <$> p) (other <$> q) := by
  rw [map_eq_pure_bind, map_eq_pure_bind]
  exact hp.bind fun a => commutes_pure (hlabel a)

theorem commutes_reject {f : α → α} : Commutes r f reject reject :=
  fun _ _ _ => rfl

theorem Commutes.orElse {f : α → α} {p q p' q' : Parser α} (hp : Commutes r f p p')
    (hq : Commutes r f q q') : Commutes r f (p.orElse q) (p'.orElse q') := by
  intro retry tokens failures
  have hfirst := hp retry tokens failures
  unfold Parser.orElse
  rw [hfirst]
  obtain ⟨parsed, more⟩ := p retry tokens failures
  cases parsed with
  | none => exact hq retry tokens more
  | some result => rfl

theorem commutes_firstOf {f : α → α} {parsers : List (Parser α)}
    (hall : ∀ p ∈ parsers, Commutes r f p p) :
    Commutes r f (firstOf parsers) (firstOf parsers) := by
  induction parsers with
  | nil => exact commutes_reject
  | cons p rest ih =>
    obtain ⟨hp, hrest⟩ := List.forall_mem_cons.mp hall
    exact hp.orElse (ih hrest)

theorem Commutes.optional {f : α → α} {p q : Parser α} (hp : Commutes r f p q) :
    Commutes r (Option.map f) p.optional q.optional := by
  have hsome : Commutes r (Option.map f) (some <$> p) (some <$> q) := hp.map fun _ => rfl
  have hnone : Commutes r (Option.map f) (pure none) (pure none) := commutes_pure rfl
  exact hsome.orElse hnone

theorem commutes_ofFunction {f : α → α} {read? : List Token → Option (α × List Token)}
    (hread : ∀ tokens, read? (tokens.map (Token.relabel r)) =
      (read? tokens).map (relabelParsed r f)) :
    Commutes r f (ofFunction read?) (ofFunction read?) := by
  intro retry tokens failures
  simp only [ofFunction, Outcome.relabel, hread tokens]

theorem commutes_token_of {f : Token → Token} {kind : TokenKind}
    (hlabel : ∀ t : Token, t.kind = kind → t.relabel r = f t) :
    Commutes r f (token kind) (token kind) := by
  refine commutes_ofFunction fun tokens => ?_
  cases tokens with
  | nil => rfl
  | cons t rest =>
    simp only [List.map_cons, Token.kind_relabel]
    by_cases hkind : t.kind = kind
    · simp [hkind, relabelParsed, hlabel t hkind]
    · simp [hkind]

/-- A token whose label does not matter. -/
theorem commutes_token (kind : TokenKind) :
    Commutes r (Token.relabel r) (token kind) (token kind) :=
  commutes_token_of fun _ _ => rfl

theorem commutes_identifier :
    Commutes r (Token.renamed r) (token .identifier) (token .identifier) :=
  commutes_token_of fun _ hkind => Token.relabel_of_identifier r hkind

theorem commutes_moved (kind : TokenKind) (hname : kind ≠ .identifier) :
    Commutes r (Token.moved r) (token kind) (token kind) := by
  refine commutes_token_of fun t hkind => Token.relabel_of_not_identifier r ?_
  rw [hkind]
  exact hname

theorem commutes_keyword (word : Keyword) :
    Commutes r (Token.moved r) (keyword word) (keyword word) :=
  commutes_moved (.keyword word) (by simp)

theorem Commutes.following {f : α → α} {p q : Parser α} (hp : Commutes r f p q)
    (kind : TokenKind) : Commutes r (Option.map f) (following kind p) (following kind q) := by
  refine (commutes_token kind).optional.bind fun found => ?_
  cases found with
  | none => exact commutes_pure rfl
  | some _ => exact hp.map fun _ => rfl

theorem commutes_bounded {f : α → α} {p : Nat → Parser α}
    (hall : ∀ bound, Commutes r f (p bound) (p bound)) :
    Commutes r f (bounded p) (bounded p) := by
  intro retry tokens failures
  unfold bounded
  rw [List.length_map]
  exact hall tokens.length retry tokens failures

theorem Commutes.collect {f : α → α} {p : Parser (Option α)}
    (hp : Commutes r (Option.map f) p p) :
    Commutes r (List.map f) (collect p) (collect p) := by
  refine commutes_bounded fun bound => ?_
  induction bound with
  | zero => exact commutes_pure rfl
  | succ bound ih =>
    refine hp.bind fun found => ?_
    cases found with
    | none => exact commutes_pure rfl
    | some first => exact ih.map fun _ => rfl

theorem Commutes.many {f : α → α} {p : Parser α} (hp : Commutes r f p p) :
    Commutes r (List.map f) (many p) (many p) :=
  hp.optional.collect

/-- A construct is kept out of a place by its failures there, whatever their labels. -/
theorem isClosed_relabel (site : Site) (retry : Retry) (failures : List Failure) :
    site.isClosed retry (failures.map (Failure.relabel r)) = site.isClosed retry failures := by
  unfold Site.isClosed
  rw [List.any_map]
  rfl

theorem commutes_commit (rule : Rule) : Commutes r id (commit rule) (commit rule) := by
  intro retry tokens failures
  simp only [commit, List.length_map, isClosed_relabel]
  cases Site.isClosed ⟨rule, tokens.length⟩ retry failures <;> rfl

theorem commutes_fail {f : α → α} (site : Site) {expected other : Expected}
    (hexpected : other = expected.relabel r) :
    Commutes r f (site.fail expected) (site.fail other) := by
  subst hexpected
  intro retry tokens failures
  simp only [Site.fail, isClosed_relabel]
  cases site.isClosed retry failures <;> simp [Outcome.relabel, Failure.relabel]

theorem Commutes.require {f : α → α} {p q : Parser α} (hp : Commutes r f p q) (site : Site)
    {expected other : Expected} (hexpected : other = expected.relabel r) :
    Commutes r f (site.require expected p) (site.require other q) :=
  hp.orElse (commutes_fail site hexpected)

theorem Commutes.separated {f : α → α} {p : Parser α} (hp : Commutes r f p p) (site : Site)
    {expected : Expected} (hexpected : expected = expected.relabel r) :
    Commutes r (List.map f) (site.separated expected p) (site.separated expected p) := by
  refine hp.optional.bind fun found => ?_
  cases found with
  | none => exact commutes_pure rfl
  | some first => exact ((hp.require site hexpected).following .comma).collect.map fun _ => rfl

end Parser

end FrontEnd
