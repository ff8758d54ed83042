import FrontEnd.Analysis.Registration
import FrontEnd.Analysis.Validation

/-!
Analysis of a whole program: registration, and then validation against the table that it leaves.
-/

namespace FrontEnd.CompilationUnit

/-- Analyses a program from an empty table. -/
def analyze (unit : CompilationUnit) : Analysis :=
  unit.register.andThen unit.validate ∅

end FrontEnd.CompilationUnit
