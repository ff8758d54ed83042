import FrontEnd.Compilation.Basic
import FrontEnd.Outline.Syntax

/-!
Dumps: listings of what a compilation has built. Each has a heading of its own.
-/

namespace FrontEnd

/-- Which dumps are wanted. -/
structure DumpSelection where
  tokens : Bool := false
  tree : Bool := false
  symbols : Bool := false
deriving DecidableEq

/-- A token as a line of columns: place, kind and spelling. -/
def Token.line (token : Token) : String :=
  let row := Column.right 4 (toString token.location.row)
  let col := Column.left 4 (toString token.location.col)
  let kind := Column.left 24 token.kind.text
  s!"{row}:{col} {kind} {token.lexeme}\n"

namespace Compilation

def dumpTokens (compilation : Compilation) : String :=
  "=== Tokens ===\n" ++ String.join (compilation.tokens.map Token.line)

def dumpTree (compilation : Compilation) : String :=
  "=== Tree ===\n" ++ compilation.unit.outline.render

def dumpSymbols (compilation : Compilation) : String :=
  "=== Symbols ===\n"
    ++ String.join (compilation.table.toList.map fun symbol => symbol.text ++ "\n")

/-- The wanted dumps: tokens, tree, symbols. -/
def dump (compilation : Compilation) (selection : DumpSelection) : String :=
  (if selection.tokens then compilation.dumpTokens else "")
    ++ (if selection.tree then compilation.dumpTree else "")
    ++ (if selection.symbols then compilation.dumpSymbols else "")

end Compilation

end FrontEnd
