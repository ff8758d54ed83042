import FrontEnd.Diagnostic.Basic
import FrontEnd.Proofs.Relabeling.Syntax
import Mathlib.Data.List.Forall2

/-!
Diagnostics under new labels. A diagnostic about names and types keeps no token, so that its quoted
element may or may not be a name; where only places change, every message stays the same.
-/

namespace FrontEnd

variable (r : Relabeling)

/-- Only names are renamed; the other spellings in messages are those of reserved words. -/
def Expected.relabel : Expected → Expected
  | .assignedValue target => .assignedValue (r.name target)
  | .argumentsClosing function => .argumentsClosing (r.name function)
  | expected => expected

def SyntaxProblem.relabel : SyntaxProblem → SyntaxProblem
  | missing expected found => .missing (expected.relabel r) (found.relabel r)
  | unexpected found => .unexpected (found.relabel r)
  | unrecognized found => .unrecognized (found.relabel r)

/-- The same fault in the use of names and types, under new names. -/
inductive SemanticProblem.Relabels : SemanticProblem → SemanticProblem → Prop
  | duplicateSymbol (name : String) (scope : Scope) :
      Relabels (.duplicateSymbol name scope.label)
        (.duplicateSymbol (r.name name) (r.scope scope).label)
  | undeclaredVariable (name : String) (scope : Scope) :
      Relabels (.undeclaredVariable name scope.label)
        (.undeclaredVariable (r.name name) (r.scope scope).label)
  | undeclaredFunction (name : String) :
      Relabels (.undeclaredFunction name) (.undeclaredFunction (r.name name))
  | constantAssigned (name : String) :
      Relabels (.constantAssigned name) (.constantAssigned (r.name name))
  | constantStepped (direction : StepDirection) (name : String) :
      Relabels (.constantStepped direction name) (.constantStepped direction (r.name name))
  | stepNotNumeric (direction : StepDirection) (name : String) (type : Option ValueType) :
      Relabels (.stepNotNumeric direction name type) (.stepNotNumeric direction (r.name name) type)
  | noReturnValue (function : String) :
      Relabels (.noReturnValue function) (.noReturnValue (r.name function))
  | operandsNotNumeric (operator : String) (left right : Option ValueType) :
      Relabels (.operandsNotNumeric operator left right) (.operandsNotNumeric operator left right)
  | operandsNotOrdered (operator : String) (left right : Option ValueType) :
      Relabels (.operandsNotOrdered operator left right) (.operandsNotOrdered operator left right)
  | elementMismatch {element other : String} (found expected : ValueType)
      (helement : other = element ∨ other = r.name element) :
      Relabels (.elementMismatch element found expected) (.elementMismatch other found expected)
  | argumentCount (function : String) (expected found : Nat) :
      Relabels (.argumentCount function expected found)
        (.argumentCount (r.name function) expected found)
  | argumentMismatch (number : Nat) (function : String) (expected : ValueType)
      (found : Option ValueType) :
      Relabels (.argumentMismatch number function expected found)
        (.argumentMismatch number (r.name function) expected found)

/-- The same diagnostic under new names and at the new place. -/
inductive Diagnostic.Relabels : Diagnostic → Diagnostic → Prop
  | inSyntax {problem : SyntaxProblem} {location : Location} :
      Relabels ⟨.inSyntax problem, location⟩ ⟨.inSyntax (problem.relabel r), r.location location⟩
  | inMeaning {problem other : SemanticProblem} {location : Location}
      (hproblem : problem.Relabels r other) :
      Relabels ⟨.inMeaning problem, location⟩ ⟨.inMeaning other, r.location location⟩

/-- The same diagnostics, one by one. -/
abbrev RelabelsAll (first second : List Diagnostic) : Prop :=
  List.Forall₂ (Diagnostic.Relabels r) first second

theorem Diagnostic.Relabels.location_eq {first second : Diagnostic}
    (hrelabels : first.Relabels r second) : second.location = r.location first.location := by
  cases hrelabels <;> rfl

theorem relabelsAll_single {first second : SemanticProblem} (hproblem : first.Relabels r second)
    {token other : Token} (hplace : other.location = r.location token.location) :
    RelabelsAll r [.ofMeaning first token] [.ofMeaning second other] := by
  refine .cons ?_ .nil
  unfold Diagnostic.ofMeaning
  rw [hplace]
  exact .inMeaning hproblem

theorem relabelsAll_flatMap {α β : Type} {items : List α} {label : α → β}
    {find : α → List Diagnostic} {other : β → List Diagnostic}
    (hall : ∀ item ∈ items, RelabelsAll r (find item) (other (label item))) :
    RelabelsAll r (items.flatMap find) ((items.map label).flatMap other) := by
  induction items with
  | nil => exact .nil
  | cons item rest ih =>
    obtain ⟨hitem, hrest⟩ := List.forall_mem_cons.mp hall
    rw [List.map_cons, List.flatMap_cons, List.flatMap_cons]
    exact List.rel_append hitem (ih hrest)

/-! ### Messages -/

variable {location : Location → Location}

theorem Token.text_relabel_ofLocation (t : Token) :
    (t.relabel (.ofLocation location)).text = t.text := by
  rw [Token.relabel_ofLocation]
  rfl

theorem Expected.relabel_ofLocation (expected : Expected) :
    expected.relabel (.ofLocation location) = expected := by
  cases expected <;> rfl

theorem SyntaxProblem.message_relabel_ofLocation (problem : SyntaxProblem) :
    (problem.relabel (.ofLocation location)).message = problem.message := by
  cases problem with
  | missing expected found =>
    unfold relabel message
    simp only [Expected.relabel_ofLocation, Token.text_relabel_ofLocation]
  | unexpected found =>
    unfold relabel message
    simp only [Token.text_relabel_ofLocation]
  | unrecognized found =>
    unfold relabel message
    simp only [Token.text_relabel_ofLocation]

theorem SemanticProblem.Relabels.eq_of_ofLocation {first second : SemanticProblem}
    (hrelabels : first.Relabels (.ofLocation location) second) : second = first := by
  cases hrelabels with
  | elementMismatch found expected helement =>
    rcases helement with rfl | rfl <;> rfl
  | _ => rfl

theorem Diagnostic.Relabels.message_eq {first second : Diagnostic}
    (hrelabels : first.Relabels (.ofLocation location) second) :
    second.message = first.message := by
  cases hrelabels with
  | inSyntax => exact SyntaxProblem.message_relabel_ofLocation _
  | inMeaning hproblem =>
    rw [hproblem.eq_of_ofLocation]
    rfl

theorem messages_eq_of_relabels {first second : List Diagnostic}
    (hrelabels : RelabelsAll (.ofLocation location) first second) :
    second.map Diagnostic.message = first.map Diagnostic.message := by
  induction hrelabels with
  | nil => rfl
  | cons hfirst hrest ih => rw [List.map_cons, List.map_cons, hfirst.message_eq, ih]

end FrontEnd
