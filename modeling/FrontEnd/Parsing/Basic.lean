import FrontEnd.Diagnostic.Syntax

/-!
Parsers with backtracking and a record of failures.

A parser reads from the front of a list of tokens. If it does not match, the next alternative starts
again from the same tokens. Once a construct has been recognized by its first tokens, a piece that
is missing is recorded as a failure of that construct; the record is kept when an alternative is
tried. A construct that already failed at a place is not entered there again, and reports nothing
more there.
-/

namespace FrontEnd

/-- The constructs that record what they miss. -/
inductive Rule where
  | variableDeclaration
  | constantDeclaration
  | functionDeclaration
  | parameter
  | print
  | ret
  | read
  | decision
  | loop
  | assignment
  | call
  | array
deriving DecidableEq

/-- A construct and the place where it was recognized, counted in tokens that are left. -/
structure Site where
  rule : Rule
  left : Nat
deriving DecidableEq

/-- A construct that misses something, and the token that stands there instead, if any is left. -/
structure Failure where
  site : Site
  expected : Expected
  found : Option Token
deriving DecidableEq

/-- Whether a construct that failed at a place may be entered there again, and fail again. -/
inductive Retry where
  | never
  | always
deriving DecidableEq

/-- Whether a construct failed at a place before and is kept out for that. -/
def Site.isClosed (site : Site) (retry : Retry) (failures : List Failure) : Bool :=
  retry = .never && failures.any (·.site = site)

/-- What a parser made of its tokens: a result with the tokens after it, if it matched, and the
failures up to now, oldest first. -/
@[ext]
structure Outcome (α : Type) where
  parsed : Option (α × List Token)
  failures : List Failure

/-- A parser, given the tokens to read and the failures up to now. -/
def Parser (α : Type) : Type :=
  Retry → List Token → List Failure → Outcome α

namespace Parser

variable {α β : Type}

/-- Matches without reading. -/
protected def pure (a : α) : Parser α := fun _ tokens failures =>
  ⟨some (a, tokens), failures⟩

/-- Goes on after a match. -/
protected def bind (p : Parser α) (f : α → Parser β) : Parser β := fun retry tokens failures =>
  match p retry tokens failures with
  | ⟨some (a, rest), failures⟩ => f a retry rest failures
  | ⟨none, failures⟩ => ⟨none, failures⟩

instance : Monad Parser where
  pure := Parser.pure
  bind := Parser.bind

instance : LawfulMonad Parser := LawfulMonad.mk' _
  (fun p => by
    funext retry tokens failures
    simp only [Functor.map, Parser.bind]
    rcases p retry tokens failures with ⟨_ | ⟨a, rest⟩, failures⟩ <;> rfl)
  (fun _ _ => rfl)
  (fun p f g => by
    funext retry tokens failures
    simp only [bind, Parser.bind]
    rcases p retry tokens failures with ⟨_ | ⟨a, rest⟩, failures⟩ <;> rfl)

/-- Never matches. -/
def reject : Parser α := fun _ _ failures =>
  ⟨none, failures⟩

/-- The second parser where the first one does not match. -/
def orElse (p q : Parser α) : Parser α := fun retry tokens failures =>
  match p retry tokens failures with
  | ⟨some result, failures⟩ => ⟨some result, failures⟩
  | ⟨none, failures⟩ => q retry tokens failures

/-- The first of the parsers that matches. -/
def firstOf (parsers : List (Parser α)) : Parser α :=
  parsers.foldr orElse reject

/-- Matches in any case, with nothing read if the parser does not match. -/
def optional (p : Parser α) : Parser (Option α) :=
  (some <$> p).orElse (pure none)

/-- A parser that records no failures. -/
def ofFunction (read? : List Token → Option (α × List Token)) : Parser α := fun _ tokens failures =>
  ⟨read? tokens, failures⟩

/-- The next token, if it passes a test. -/
def satisfying (test : TokenKind → Bool) : Parser Token :=
  ofFunction fun
    | [] => none
    | token :: rest => if test token.kind then some (token, rest) else none

/-- The next token, if it is of the given kind. -/
def token (kind : TokenKind) : Parser Token :=
  satisfying (· = kind)

/-- A reserved word. -/
def keyword (word : Keyword) : Parser Token :=
  token (.keyword word)

/-- What has to follow a token of the given kind, if the next token is of that kind. -/
def following (kind : TokenKind) (p : Parser α) : Parser (Option α) := do
  match ← optional (token kind) with
  | none => pure none
  | some _ => some <$> p

/-- A parser that takes the number of tokens left as a bound for its recursion. -/
def bounded (p : Nat → Parser α) : Parser α := fun retry tokens failures =>
  p tokens.length retry tokens failures

/-- The results of a parser until it gives none, up to a bound. -/
def collectWithin (p : Parser (Option α)) : Nat → Parser (List α)
  | 0 => pure []
  | bound + 1 => do
    match ← p with
    | none => pure []
    | some first => (first :: ·) <$> collectWithin p bound

/-- The results of a parser until it gives none. A result that takes a token leaves fewer of them,
so there are at most as many results as tokens. -/
def collect (p : Parser (Option α)) : Parser (List α) :=
  bounded (collectWithin p)

/-- As many matches as there are. -/
def many (p : Parser α) : Parser (List α) :=
  collect (optional p)

/-- Enters a construct that has just been recognized, unless it is kept out. -/
def commit (rule : Rule) : Parser Site := fun retry tokens failures =>
  let site : Site := ⟨rule, tokens.length⟩
  if site.isClosed retry failures then ⟨none, failures⟩ else ⟨some (site, tokens), failures⟩

end Parser

namespace Site

variable {α : Type}

/-- Gives the construct up and records what it misses at the next token, unless it is kept out. -/
def fail (site : Site) (expected : Expected) : Parser α := fun retry tokens failures =>
  if site.isClosed retry failures then ⟨none, failures⟩
  else ⟨none, failures ++ [⟨site, expected, tokens.head?⟩]⟩

/-- A piece that the construct cannot do without. -/
def require (site : Site) (expected : Expected) (p : Parser α) : Parser α :=
  p.orElse (site.fail expected)

/-- Items with commas between them, possibly none. After a comma an item has to follow. -/
def separated (site : Site) (expected : Expected) (item : Parser α) : Parser (List α) := do
  match ← item.optional with
  | none => pure []
  | some first =>
    (first :: ·) <$> Parser.collect (Parser.following .comma (site.require expected item))

end Site

end FrontEnd
