import FrontEnd.Diagnostic.Basic
import FrontEnd.Symbol.Table

/-!
Passes over a program. A pass reads and changes the table of symbols and finds diagnostics. Passes
follow each other: the second starts from the table that the first one leaves, and the diagnostics
of the first come first.
-/

namespace FrontEnd

/-- The report on a symbol whose key is taken, at the place of the symbol. -/
def Symbol.duplicate (symbol : Symbol) : Diagnostic :=
  ⟨.inMeaning (.duplicateSymbol symbol.name symbol.scope.label), symbol.location⟩

/-- Registers a symbol, or reports it if its key is taken, and tells which of the two it did. -/
def SymbolTable.register {ι : Type} [Interner ι] (table : SymbolTable ι) (symbol : Symbol) :
    Bool × List Diagnostic × SymbolTable ι :=
  let (inserted, after) := table.insert symbol
  (inserted, if inserted then [] else [symbol.duplicate], after)

/-- The table and the diagnostics that analysis leaves. -/
structure Analysis where
  table : SymbolTable
  diagnostics : List Diagnostic

/-- A step of analysis. -/
def Pass : Type :=
  SymbolTable → Analysis

namespace Pass

/-- Does nothing. -/
def skip : Pass := fun table =>
  ⟨table, []⟩

/-- One pass and then another. -/
def andThen (first second : Pass) : Pass := fun table =>
  let before := first table
  let after := second before.table
  ⟨after.table, before.diagnostics ++ after.diagnostics⟩

/-- Passes one after the other. -/
def sequence (passes : List Pass) : Pass :=
  passes.foldr andThen skip

@[simp] theorem sequence_nil : sequence [] = skip := rfl

@[simp] theorem sequence_cons (first : Pass) (rest : List Pass) :
    sequence (first :: rest) = first.andThen (sequence rest) := rfl

@[simp] theorem skip_andThen (pass : Pass) : skip.andThen pass = pass := rfl

@[simp] theorem andThen_skip (pass : Pass) : pass.andThen skip = pass := by
  funext table
  simp [andThen, skip]

theorem andThen_assoc (first second third : Pass) :
    (first.andThen second).andThen third = first.andThen (second.andThen third) := by
  funext table
  simp [andThen]

theorem sequence_append (before after : List Pass) :
    sequence (before ++ after) = (sequence before).andThen (sequence after) := by
  induction before with
  | nil => simp
  | cons first rest ih => simp [ih, andThen_assoc]

/-- Registers a symbol, or reports it if its key is taken. -/
def declare (symbol : Symbol) : Pass := fun table =>
  let (_, reported, after) := table.register symbol
  ⟨after, reported⟩

end Pass

end FrontEnd
