import FrontEnd.Analysis.Unit
import FrontEnd.Parsing.Unit

/-!
Compiling a source text: tokens, program, diagnostics and symbols. Nothing stops a compilation; what
could not be read is missing from the program, and the diagnostics say why.
-/

namespace FrontEnd

/-- Everything that is known about a source text. -/
structure Compilation where
  tokens : List Token
  unit : CompilationUnit
  syntaxDiagnostics : List Diagnostic
  semanticDiagnostics : List Diagnostic
  table : SymbolTable

namespace Compilation

/-- All diagnostics: first those about syntax, then those about names and types. -/
def diagnostics (compilation : Compilation) : List Diagnostic :=
  compilation.syntaxDiagnostics ++ compilation.semanticDiagnostics

def hasErrors (compilation : Compilation) : Bool :=
  !compilation.diagnostics.isEmpty

end Compilation

/-- Compiles a source text. -/
def compile (source : String) : Compilation :=
  let stream := TokenStream.ofString source
  let parsed := stream.parse
  let analysis := parsed.unit.analyze
  ⟨stream.tokens, parsed.unit, parsed.diagnostics, analysis.diagnostics, analysis.table⟩

end FrontEnd
