import FrontEnd.Diagnostic.Syntax
import FrontEnd.Diagnostic.Semantic

/-!
Diagnostics: what is wrong with a program, and where. A diagnostic never ends the work; they are
collected in the order in which they are found.
-/

namespace FrontEnd

/-- What is wrong. -/
inductive Problem where
  | inSyntax (problem : SyntaxProblem)
  | inMeaning (problem : SemanticProblem)
deriving DecidableEq

namespace Problem

def isSyntactic : Problem → Bool
  | inSyntax _ => true
  | inMeaning _ => false

def message : Problem → String
  | inSyntax problem => problem.message
  | inMeaning problem => problem.message

end Problem

/-- A problem and its place. -/
structure Diagnostic where
  problem : Problem
  location : Location
deriving DecidableEq

namespace Diagnostic

/-- A fault in the order of the tokens, at the token where it shows. -/
def ofSyntax (problem : SyntaxProblem) : Diagnostic :=
  ⟨.inSyntax problem, problem.found.location⟩

/-- A fault in the use of names and types, at a token. -/
def ofMeaning (problem : SemanticProblem) (token : Token) : Diagnostic :=
  ⟨.inMeaning problem, token.location⟩

def message (diagnostic : Diagnostic) : String :=
  diagnostic.problem.message

/-- One line that says what is wrong and where. -/
def text (diagnostic : Diagnostic) : String :=
  let stage := if diagnostic.problem.isSyntactic then "syntax" else "semantic"
  s!"{stage} error at {diagnostic.location.row}:{diagnostic.location.col}: {diagnostic.message}"

end Diagnostic

end FrontEnd
