import FrontEnd.Diagnostic.Basic
import FrontEnd.Parsing.Statement
import FrontEnd.Token.Stream

/-!
Parsing a whole program. Reading stops at the first token with which neither a declaration, a
function nor a statement begins; what was read up to there is kept, and the recorded failures become
the diagnostics. If none of them lies at that token or after it, the token itself is reported.
-/

namespace FrontEnd

namespace Parser

/-- A parameter: the reserved word for a type, and a name. -/
def parameter : Parser Parameter := do
  let (word, type) ← ofFunction typeWord?
  let site ← commit .parameter
  let name ← site.require (.parameterName word.lexeme) (token .identifier)
  return ⟨word, type, name⟩
where
  typeWord? : List Token → Option ((Token × ValueType) × List Token)
    | [] => none
    | token :: rest =>
      match token.kind with
      | .keyword word => (ValueType.ofKeyword? word).map fun type => ((token, type), rest)
      | _ => none

def function (statement : Parser Statement) : Parser FunctionDeclaration := do
  let word ← keyword .action
  let site ← commit .functionDeclaration
  let name ← site.require (.functionName word.lexeme) (token .identifier)
  let _ ← site.require .parametersOpening (token .leftParen)
  let parameters ← site.separated .nextParameter parameter
  let _ ← site.require .parametersClosing (token .rightParen)
  let body ← block statement site .function
  return ⟨word, name, parameters, body⟩

/-- As much of a program as the tokens start with. -/
def compilationUnit : Parser CompilationUnit :=
  bounded fun bound => do
    let declarations ← many declaration
    let functions ← many (function (statementWithin bound))
    let statements ← many (statementWithin bound)
    return ⟨declarations, functions, statements⟩

end Parser

/-- A failure as a diagnostic. Where no token is left, the end of the input stands for it. -/
def Failure.diagnostic (ending : Token) (failure : Failure) : Diagnostic :=
  .ofSyntax (.missing failure.expected (failure.found.getD ending))

/-- The report on the first token that was not read, unless a diagnostic lies there or later: then
a construct that stopped there has already said why. -/
def leftoverReport (diagnostics : List Diagnostic) : List Token → List Diagnostic
  | [] => []
  | token :: _ =>
    if diagnostics.any fun d => token.location.span.start ≤ d.location.span.start then []
    else if token.kind = .unknown then [.ofSyntax (.unrecognized token)]
    else [.ofSyntax (.unexpected token)]

/-- A program as far as it could be read, and what was wrong with its syntax. -/
structure ParsedUnit where
  unit : CompilationUnit
  diagnostics : List Diagnostic

namespace TokenStream

/-- Parses the tokens of a stream, entering failed constructs again or not. -/
def parseBy (retry : Retry) (stream : TokenStream) : ParsedUnit :=
  let outcome := Parser.compilationUnit retry stream.significant []
  let (unit, rest) := outcome.parsed.getD (⟨[], [], []⟩, stream.significant)
  let failures := outcome.failures.map (Failure.diagnostic stream.ending)
  ⟨unit, failures ++ leftoverReport failures rest⟩

/-- Parses the tokens of a stream. -/
def parse (stream : TokenStream) : ParsedUnit :=
  stream.parseBy .never

end TokenStream

end FrontEnd
