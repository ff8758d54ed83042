import FrontEnd.Proofs.Parsing.Combinators
import FrontEnd.Proofs.Parsing.Silent

/-!
The record of failures while a parser is at work. Where no construct is kept out that a parser could
enter, it does the same whatever was recorded before, and whether or not constructs may be entered
again: `Yields` says what it makes of the tokens, and which failures it adds.
-/

namespace FrontEnd

namespace Site

theorem isClosed_append (site : Site) (retry : Retry) (before after : List Failure) :
    site.isClosed retry (before ++ after) =
      (site.isClosed retry before || site.isClosed retry after) := by
  simp only [isClosed, List.any_append, Bool.and_or_distrib_left]

theorem isClosed_of_forall_ne {site : Site} {failures : List Failure}
    (hne : ∀ failure ∈ failures, failure.site ≠ site) (retry : Retry) :
    site.isClosed retry failures = false := by
  have hany : failures.any (·.site = site) = false := by simpa using hne
  rw [isClosed, hany, Bool.and_false]

end Site

/-- No construct is kept out that is recognized with fewer than `bound` tokens left. -/
def OpenBelow (bound : Nat) (retry : Retry) (failures : List Failure) : Prop :=
  ∀ site : Site, site.left < bound → site.isClosed retry failures = false

theorem OpenBelow.mono {small large : Nat} {retry : Retry} {failures : List Failure}
    (hopen : OpenBelow large retry failures) (hle : small ≤ large) :
    OpenBelow small retry failures :=
  fun site hleft => hopen site (by omega)

theorem openBelow_always (bound : Nat) (failures : List Failure) :
    OpenBelow bound .always failures :=
  fun _ _ => rfl

theorem openBelow_nil (bound : Nat) (retry : Retry) : OpenBelow bound retry [] :=
  fun _ _ => Site.isClosed_of_forall_ne (by simp) retry

/-- The first failure shows at a later token than the second, or at their end. -/
def Failure.ShowsAfter (tokens : List Token) (later earlier : Failure) : Prop :=
  ∃ t rest after, t :: rest <:+ tokens ∧ earlier.found = some t ∧ after <:+ rest ∧
    later.found = after.head?

/-- Failures of constructs inside each other, from the inside out. Each shows at one of the tokens
or at their end, after its construct was recognized with fewer than `bound` tokens left, and each
shows at an earlier token than the one before it. -/
structure Nested (bound : Nat) (tokens : List Token) (failures : List Failure) : Prop where
  outward : failures.Pairwise fun inner outer => inner.site.left < outer.site.left
  left_lt : ∀ failure ∈ failures, failure.site.left < bound
  shows : ∀ failure ∈ failures, ∃ rest : List Token,
    rest <:+ tokens ∧ rest.length ≤ failure.site.left ∧ failure.found = rest.head?
  back : failures.Pairwise (Failure.ShowsAfter tokens)

namespace Nested

variable {bound : Nat} {tokens : List Token} {failures : List Failure}

theorem nil : Nested bound tokens [] where
  outward := .nil
  left_lt := by simp
  shows := by simp
  back := .nil

theorem mono {large : Nat} {more : List Token} (hfailures : Nested bound tokens failures)
    (hbound : bound ≤ large) (hsub : tokens <:+ more) : Nested large more failures where
  outward := hfailures.outward
  left_lt failure hmem := Nat.lt_of_lt_of_le (hfailures.left_lt failure hmem) hbound
  shows failure hmem := by
    obtain ⟨rest, hrest, hplace⟩ := hfailures.shows failure hmem
    exact ⟨rest, hrest.trans hsub, hplace⟩
  back := by
    refine hfailures.back.imp ?_
    rintro later earlier ⟨t, rest, after, hrest, hplaces⟩
    exact ⟨t, rest, after, hrest.trans hsub, hplaces⟩

theorem found_mem (hfailures : Nested bound tokens failures) :
    ∀ failure ∈ failures, ∀ t ∈ failure.found, t ∈ tokens := by
  intro failure hmem t ht
  obtain ⟨rest, hrest, -, hfound⟩ := hfailures.shows failure hmem
  exact hrest.mem (List.mem_of_mem_head? (hfound ▸ ht))

/-- What fails with a token taken already shows after that token. -/
theorem showsAfter_head (hfailures : Nested tokens.length tokens failures) {inner outer : Failure}
    (hinner : inner ∈ failures) (houter : outer.found = tokens.head?) :
    inner.ShowsAfter tokens outer := by
  obtain ⟨after, hafter, hleft, hfound⟩ := hfailures.shows inner hinner
  have hlt := hfailures.left_lt inner hinner
  cases tokens with
  | nil => cases hlt
  | cons t rest =>
    rcases List.suffix_cons_iff.mp hafter with rfl | hafter
    · omega
    · exact ⟨t, rest, after, List.suffix_rfl, houter, hafter, hfound⟩

/-- The construct around all the others fails last, and shows where they start. -/
theorem concat {site : Site} (hfailures : Nested tokens.length tokens failures)
    (hleft : tokens.length ≤ site.left) (expected : Expected) :
    Nested (site.left + 1) tokens (failures ++ [⟨site, expected, tokens.head?⟩]) where
  outward := by
    rw [List.pairwise_append]
    refine ⟨hfailures.outward, List.pairwise_singleton _ _, fun inner hinner outer houter => ?_⟩
    obtain rfl := List.mem_singleton.mp houter
    exact Nat.lt_of_lt_of_le (hfailures.left_lt inner hinner) hleft
  left_lt failure hmem := by
    rcases List.mem_append.mp hmem with hmem | hmem
    · have := hfailures.left_lt failure hmem
      omega
    · obtain rfl := List.mem_singleton.mp hmem
      exact Nat.lt_succ_self _
  shows failure hmem := by
    rcases List.mem_append.mp hmem with hmem | hmem
    · exact hfailures.shows failure hmem
    · obtain rfl := List.mem_singleton.mp hmem
      exact ⟨tokens, List.suffix_rfl, hleft, rfl⟩
  back := by
    rw [List.pairwise_append]
    refine ⟨hfailures.back, List.pairwise_singleton _ _, fun inner hinner outer houter => ?_⟩
    obtain rfl := List.mem_singleton.mp houter
    exact hfailures.showsAfter_head hinner rfl

theorem eq_nil (hfailures : Nested 0 tokens failures) : failures = [] := by
  rw [List.eq_nil_iff_forall_not_mem]
  intro failure hmem
  have := hfailures.left_lt failure hmem
  omega

/-- A construct around the failures is not kept out by them. -/
theorem isClosed_append {site : Site} (hfailures : Nested site.left tokens failures) {retry : Retry}
    {before : List Failure} (hopen : OpenBelow (site.left + 1) retry before) :
    site.isClosed retry (before ++ failures) = false := by
  have hinside : site.isClosed retry failures = false := by
    refine Site.isClosed_of_forall_ne (fun failure hmem heq => ?_) retry
    have := hfailures.left_lt failure hmem
    rw [heq] at this
    omega
  rw [Site.isClosed_append, hopen site (Nat.lt_succ_self _), hinside, Bool.or_false]

theorem nodup_sites (hfailures : Nested bound tokens failures) :
    (failures.map Failure.site).Nodup := by
  rw [List.Nodup, List.pairwise_map]
  refine hfailures.outward.imp fun hlt heq => ?_
  rw [heq] at hlt
  exact Nat.lt_irrefl _ hlt

end Nested

namespace Parser

variable {α β : Type}

/-! ### Single runs -/

section Run

variable {p : Parser α} {retry : Retry} {tokens rest : List Token} {before after : List Failure}

theorem bind_of_some {a : α} (hp : p retry tokens before = ⟨some (a, rest), after⟩)
    (f : α → Parser β) : (p >>= f) retry tokens before = f a retry rest after := by
  change Parser.bind p f retry tokens before = _
  rw [Parser.bind, hp]

theorem bind_of_none (hp : p retry tokens before = ⟨none, after⟩) (f : α → Parser β) :
    (p >>= f) retry tokens before = ⟨none, after⟩ := by
  change Parser.bind p f retry tokens before = _
  rw [Parser.bind, hp]

theorem map_of_none (hp : p retry tokens before = ⟨none, after⟩) (f : α → β) :
    (f <$> p) retry tokens before = ⟨none, after⟩ := by
  rw [← bind_pure_comp, bind_of_none hp]

theorem orElse_of_some {result : α × List Token}
    (hp : p retry tokens before = ⟨some result, after⟩) (q : Parser α) :
    (p.orElse q) retry tokens before = ⟨some result, after⟩ := by
  rw [Parser.orElse, hp]

theorem orElse_of_none (hp : p retry tokens before = ⟨none, after⟩) (q : Parser α) :
    (p.orElse q) retry tokens before = q retry tokens after := by
  rw [Parser.orElse, hp]

/-- Which alternative follows matters only where it is tried. -/
theorem orElse_congr {q other : Parser α}
    (hsame : ∀ before, q retry tokens before = other retry tokens before) (p : Parser α) :
    (p.orElse q) retry tokens before = (p.orElse other) retry tokens before := by
  rcases hp : p retry tokens before with ⟨_ | result, after⟩
  · rw [orElse_of_none hp, orElse_of_none hp, hsame]
  · rw [orElse_of_some hp, orElse_of_some hp]

theorem map_orElse (f : α → β) (p q : Parser α) :
    f <$> p.orElse q = (f <$> p).orElse (f <$> q) := by
  funext retry tokens before
  simp only [Functor.map, Parser.bind, Parser.orElse]
  rcases p retry tokens before with ⟨_ | ⟨a, rest⟩, after⟩ <;> rfl

/-- A construct that misses a piece records that. -/
theorem require_of_none {site : Site} (hp : p retry tokens before = ⟨none, after⟩)
    (hclosed : site.isClosed retry after = false) (expected : Expected) :
    site.require expected p retry tokens before =
      ⟨none, after ++ [⟨site, expected, tokens.head?⟩]⟩ := by
  rw [Site.require, orElse_of_none hp, Site.fail, hclosed]
  simp

theorem token_of_kind {kind : TokenKind} {t : Token} (hkind : t.kind = kind) (rest : List Token)
    (retry : Retry) (failures : List Failure) :
    token kind retry (t :: rest) failures = ⟨some (t, rest), failures⟩ := by
  simp [token, satisfying, ofFunction, hkind]

/-- A repetition ends where there is no result. -/
theorem many_of_none {t : Token} (hp : p retry (t :: rest) before = ⟨none, after⟩) :
    many p retry (t :: rest) before = ⟨some ([], t :: rest), after⟩ := by
  have hoptional : optional p retry (t :: rest) before = ⟨some (none, t :: rest), after⟩ :=
    orElse_of_none (map_of_none hp some) (pure none)
  exact bind_of_some hoptional _

end Run

/-! ### Runs from all records -/

/-- What the parser makes of the tokens, and which failures it adds to the record, where no
construct is kept out that it could enter. -/
def Yields (p : Parser α) (bound : Nat) (tokens : List Token) (outcome : Outcome α) : Prop :=
  ∀ ⦃retry failures⦄, OpenBelow bound retry failures →
    p retry tokens failures = ⟨outcome.parsed, failures ++ outcome.failures⟩

variable {p : Parser α} {bound : Nat} {tokens rest : List Token}

theorem Yields.mono {large : Nat} {outcome : Outcome α} (hp : p.Yields bound tokens outcome)
    (hle : bound ≤ large) : p.Yields large tokens outcome :=
  fun _ _ hopen => hp (hopen.mono hle)

theorem Yields.unique {one other : Outcome α} (hone : p.Yields bound tokens one)
    (hother : p.Yields bound tokens other) : one = other := by
  have h := (hone (openBelow_nil bound .always)).symm.trans (hother (openBelow_nil bound .always))
  exact Outcome.ext (congrArg Outcome.parsed h) (by simpa using congrArg Outcome.failures h)

theorem Yields.parses {a : α} {failures : List Failure}
    (hp : p.Yields bound tokens ⟨some (a, rest), failures⟩) : p.Parses tokens a rest :=
  ⟨.always, [], congrArg Outcome.parsed (hp (openBelow_nil bound .always))⟩

/-- What is read from an empty record is read from all others. -/
theorem Yields.of_reads {outcome : Outcome α} {a : α} (hp : p.Yields bound tokens outcome)
    (hreads : p.Reads tokens a rest) : outcome = ⟨some (a, rest), []⟩ := by
  have h := (hp (openBelow_nil bound .always)).symm.trans (hreads .always)
  exact Outcome.ext (congrArg Outcome.parsed h) (by simpa using congrArg Outcome.failures h)

theorem Refuses.yields (hp : p.Refuses tokens) (bound : Nat) :
    p.Yields bound tokens ⟨none, []⟩ := by
  intro retry failures _
  rw [hp retry failures, List.append_nil]

theorem yields_pure (a : α) (bound : Nat) (tokens : List Token) :
    (pure a : Parser α).Yields bound tokens ⟨some (a, tokens), []⟩ := by
  intro retry failures _
  rw [List.append_nil]
  rfl

theorem yields_ofFunction (read? : List Token → Option (α × List Token)) (bound : Nat)
    (tokens : List Token) : (ofFunction read?).Yields bound tokens ⟨read? tokens, []⟩ := by
  intro retry failures _
  rw [List.append_nil]
  rfl

theorem Yields.bind_of {a : α} {failures : List Failure} {f : α → Parser β} {outcome : Outcome β}
    (hp : p.Yields bound tokens ⟨some (a, rest), failures⟩)
    (hf : ∀ ⦃retry before⦄, OpenBelow bound retry before →
      f a retry rest (before ++ failures) = ⟨outcome.parsed, before ++ outcome.failures⟩) :
    (p >>= f).Yields bound tokens outcome := by
  intro retry before hopen
  rw [bind_of_some (hp hopen), hf hopen]

theorem Yields.bind {a : α} {f : α → Parser β} {outcome : Outcome β}
    (hp : p.Yields bound tokens ⟨some (a, rest), []⟩) (hf : (f a).Yields bound rest outcome) :
    (p >>= f).Yields bound tokens outcome :=
  hp.bind_of fun retry before hopen => by rw [List.append_nil, hf hopen]

theorem Yields.bind_failed {failures : List Failure} (hp : p.Yields bound tokens ⟨none, failures⟩)
    (f : α → Parser β) : (p >>= f).Yields bound tokens ⟨none, failures⟩ :=
  fun _ _ hopen => bind_of_none (hp hopen) f

theorem Yields.bind_pure {failures : List Failure} {a : α} {f : α → Parser β} {b : β}
    (hp : p.Yields bound tokens ⟨some (a, rest), failures⟩) (hf : f a = pure b) :
    (p >>= f).Yields bound tokens ⟨some (b, rest), failures⟩ :=
  hp.bind_of fun retry before _ => by rw [hf]; rfl

theorem Yields.map {outcome : Outcome α} (hp : p.Yields bound tokens outcome) (f : α → β) :
    (f <$> p).Yields bound tokens
      ⟨outcome.parsed.map (fun result => (f result.1, result.2)), outcome.failures⟩ := by
  obtain ⟨_ | ⟨a, rest⟩, failures⟩ := outcome <;> rw [← bind_pure_comp]
  · exact hp.bind_failed _
  · exact hp.bind_pure rfl

theorem Yields.orElse_read {a : α} {failures : List Failure}
    (hp : p.Yields bound tokens ⟨some (a, rest), failures⟩) (q : Parser α) :
    (p.orElse q).Yields bound tokens ⟨some (a, rest), failures⟩ :=
  fun _ _ hopen => orElse_of_some (hp hopen) q

/-- An alternative that neither enters a construct nor records anything after the failures of the
first one. -/
theorem Yields.orElse_of_forall {q : Parser α} {failures : List Failure}
    {parsed : Option (α × List Token)} (hp : p.Yields bound tokens ⟨none, failures⟩)
    (hq : ∀ retry before, q retry tokens before = ⟨parsed, before⟩) :
    (p.orElse q).Yields bound tokens ⟨parsed, failures⟩ := by
  intro retry before hopen
  rw [orElse_of_none (hp hopen), hq]

theorem Yields.optional_read {a : α} {failures : List Failure}
    (hp : p.Yields bound tokens ⟨some (a, rest), failures⟩) :
    (optional p).Yields bound tokens ⟨some (some a, rest), failures⟩ :=
  (hp.map some).orElse_read (pure none)

theorem Yields.optional_none {failures : List Failure}
    (hp : p.Yields bound tokens ⟨none, failures⟩) :
    (optional p).Yields bound tokens ⟨some (none, tokens), failures⟩ :=
  (hp.map some).orElse_of_forall fun _ _ => rfl

theorem Refuses.orElse_yields_iff {q : Parser α} {outcome : Outcome α} (hp : p.Refuses tokens) :
    (p.orElse q).Yields bound tokens outcome ↔ q.Yields bound tokens outcome := by
  have hsame (retry : Retry) (before : List Failure) :
      (p.orElse q) retry tokens before = q retry tokens before := orElse_of_none (hp retry before) q
  simp only [Yields, hsame]

theorem Refuses.orElse_yields {q : Parser α} {outcome : Outcome α} (hp : p.Refuses tokens)
    (hq : q.Yields bound tokens outcome) : (p.orElse q).Yields bound tokens outcome :=
  hp.orElse_yields_iff.mpr hq

end Parser

end FrontEnd
