import FrontEnd.Proofs.Relabeling.Analysis
import FrontEnd.Proofs.Relabeling.Stream
import FrontEnd.Proofs.Symbol.Scope

/-!
Names do not matter. Where the names in a list of tokens are replaced by others, and different names
by different ones, the program is the same under the new names, and so are the diagnostics and the
symbols. All places stay; only the end of the input lies past the last token as it is spelled now.
-/

namespace FrontEnd

namespace Scope

/-- The scope of a function under its new name; the scope outside of functions stays. Scopes are no
more than their labels, so the name is read off the label. -/
def rename (ρ : String → String) (scope : Scope) : Scope :=
  scope.functionName?.elim scope fun name => function (ρ name)

theorem rename_function (ρ : String → String) (name : String) :
    (function name).rename ρ = function (ρ name) := by
  rw [rename, functionName?_function, Option.elim_some]

theorem rename_unit (ρ : String → String) : unit.rename ρ = unit := by
  rw [rename, functionName?_unit, Option.elim_none]

theorem functionName?_rename (ρ : String → String) (scope : Scope) :
    (scope.rename ρ).functionName? = scope.functionName?.map ρ := by
  cases hname : scope.functionName? with
  | none => rw [rename, hname, Option.elim_none, hname, Option.map_none]
  | some name => rw [rename, hname, Option.elim_some, functionName?_function, Option.map_some]

theorem rename_injective {ρ : String → String} (hρ : Function.Injective ρ) {first second : Scope}
    (hsame : first.rename ρ = second.rename ρ) : first = second := by
  have hnames : first.functionName? = second.functionName? := by
    refine Option.map_injective hρ ?_
    rw [← functionName?_rename, ← functionName?_rename, hsame]
  cases hname : second.functionName? with
  | none =>
    rw [hname] at hnames
    rwa [rename, rename, hname, hnames, Option.elim_none, Option.elim_none] at hsame
  | some name =>
    rw [eq_function_of_functionName? hname, eq_function_of_functionName? (hnames.trans hname)]

end Scope

/-- New names for all names, and nothing else. -/
def Relabeling.ofNames (ρ : String → String) : Relabeling :=
  ⟨ρ, Scope.rename ρ, id⟩

theorem Relabeling.faithful_ofNames {ρ : String → String} (hρ : Function.Injective ρ) :
    (ofNames ρ).Faithful where
  name_inj hname := hρ hname
  scope_inj hscope := Scope.rename_injective hρ hscope
  scope_unit := Scope.rename_unit ρ
  scope_function := Scope.rename_function ρ

/-- The same fault of syntax under new names and at the same place. Where the end of the input was
found, the end of the renamed input is found. -/
inductive Diagnostic.Renames (ρ : String → String) (ending other : Token) :
    Diagnostic → Diagnostic → Prop
  | atToken {first second : Diagnostic} :
    first.Relabels (.ofNames ρ) second → first.location = second.location →
    Renames ρ ending other first second
  | atEnding {expected : Expected} :
    Renames ρ ending other (.ofSyntax (.missing expected ending))
      (.ofSyntax (.missing (expected.relabel (.ofNames ρ)) other))

namespace TokenStream

/-- The stream with the lexemes of its identifiers replaced. -/
def rename (ρ : String → String) (stream : TokenStream) : TokenStream :=
  ⟨stream.tokens.map (Token.relabel (.ofNames ρ)), stream.sourceLength⟩

variable {ρ : String → String}

theorem significant_rename (ρ : String → String) (stream : TokenStream) :
    (stream.rename ρ).significant = stream.significant.map (Token.relabel (.ofNames ρ)) := by
  simp only [significant, rename, List.filter_map]
  congr 2
  funext t
  simp [Token.isComment]

theorem span_ending_rename (ρ : String → String) (stream : TokenStream) :
    (stream.rename ρ).ending.location.span = stream.ending.location.span := rfl

/-- The end of the input stays where it is unless the last token is a name. -/
theorem ending_rename {stream : TokenStream}
    (hlast : ∀ t ∈ stream.tokens.getLast?, t.kind ≠ .identifier) :
    (stream.rename ρ).ending = stream.ending := by
  have hend : ((stream.rename ρ).tokens.getLast?).map endOf = stream.tokens.getLast?.map endOf := by
    rw [rename, List.getLast?_map, Option.map_map]
    cases hfound : stream.tokens.getLast? with
    | none => rfl
    | some t =>
      have hkind := hlast t hfound
      rw [Option.map_some, Option.map_some, Function.comp_apply,
        Token.relabel_of_not_identifier _ hkind]
      rfl
  simp only [ending, hend]
  rfl

theorem diagnostic_rename (ending other : Token) (failure : Failure) :
    (failure.diagnostic ending).Renames ρ ending other
      ((failure.relabel (.ofNames ρ)).diagnostic other) := by
  obtain ⟨site, expected, _ | t⟩ := failure
  · exact .atEnding
  · have hplace : (t.relabel (.ofNames ρ)).location = t.location := Token.location_relabel _ t
    have hsecond : (Failure.relabel (.ofNames ρ) ⟨site, expected, some t⟩).diagnostic other =
        ⟨.inSyntax (SyntaxProblem.relabel (.ofNames ρ) (.missing expected t)), t.location⟩ := by
      rw [← hplace]
      rfl
    rw [hsecond]
    exact .atToken .inSyntax rfl

/-- Whether the end of the input stands in one place or another of the same offset, the same tokens
are reported as left over. -/
theorem leftoverReport_renames {ending other : Token}
    (hspan : other.location.span = ending.location.span) {first second : List Diagnostic}
    (hrenames : List.Forall₂ (Diagnostic.Renames ρ ending other) first second) (rest : List Token) :
    List.Forall₂ (Diagnostic.Renames ρ ending other) (leftoverReport first rest)
      (leftoverReport second (rest.map (Token.relabel (.ofNames ρ)))) := by
  have hleftover : RelabelsAll (.ofNames ρ) (leftoverReport first rest)
      (leftoverReport second (rest.map (Token.relabel (.ofNames ρ)))) := by
    refine leftoverReport_relabels_of_any (fun location => ?_) rest
    induction hrenames with
    | nil => rfl
    | cons hfirst _ ih =>
      rw [List.any_cons, List.any_cons, ih]
      cases hfirst with
      | atToken _ hplace => rw [hplace]; rfl
      | atEnding =>
        simp only [Diagnostic.ofSyntax, SyntaxProblem.found, hspan]
        rfl
  exact hleftover.imp fun _ _ hrelabels => .atToken hrelabels hrelabels.location_eq.symm

theorem parse_rename (ρ : String → String) (stream : TokenStream) :
    (stream.rename ρ).parse.unit = stream.parse.unit.relabel (.ofNames ρ) ∧
      List.Forall₂ (Diagnostic.Renames ρ stream.ending (stream.rename ρ).ending)
        stream.parse.diagnostics (stream.rename ρ).parse.diagnostics :=
  parseBy_corresponds (significant_rename ρ stream)
    (fun failure => diagnostic_rename stream.ending (stream.rename ρ).ending failure)
    (fun _ _ => leftoverReport_renames (span_ending_rename ρ stream)) .never

/-- Renaming the identifiers of a list of tokens by an injective map renames the program that is
parsed, and the diagnostics of its syntax keep their order and their places. Only where the end of
the input was found, its place in the renamed list is that after the new spelling of the last token,
at the same offset. Analysis finds the same faults in the use of names and types, in the same order
and at the same places, and leaves the same symbols under their new names and scopes. -/
theorem parse_analyze_rename (hρ : Function.Injective ρ) (stream : TokenStream) :
    (stream.rename ρ).parse.unit = stream.parse.unit.relabel (.ofNames ρ) ∧
      List.Forall₂ (Diagnostic.Renames ρ stream.ending (stream.rename ρ).ending)
        stream.parse.diagnostics (stream.rename ρ).parse.diagnostics ∧
      (stream.rename ρ).ending.location.span = stream.ending.location.span ∧
      ((∀ t ∈ stream.tokens.getLast?, t.kind ≠ .identifier) →
        (stream.rename ρ).ending = stream.ending) ∧
      RelabelsAll (.ofNames ρ) stream.parse.unit.analyze.diagnostics
        (stream.rename ρ).parse.unit.analyze.diagnostics ∧
      (stream.rename ρ).parse.unit.analyze.table.toList =
        stream.parse.unit.analyze.table.toList.map (Symbol.relabel (.ofNames ρ)) := by
  obtain ⟨hunit, hdiagnostics⟩ := parse_rename ρ stream
  obtain ⟨hmeaning, htable⟩ :=
    analyze_relabels (Relabeling.faithful_ofNames hρ) stream.parse.unit
  rw [hunit]
  exact ⟨rfl, hdiagnostics, span_ending_rename ρ stream, ending_rename, hmeaning, htable⟩

/-- A function with a parameter, which is given back, and a use of another name outside of it. -/
def functionAndUse : TokenStream :=
  ofString "accion @f(entero @n){ devolucion @n # } muestre @m #"

theorem parse_analyze_rename_functionAndUse :
    Function.Injective (· ++ "s") ∧
      functionAndUse.parse.diagnostics = [] ∧
      RelabelsAll (.ofNames (· ++ "s")) functionAndUse.parse.unit.analyze.diagnostics
        (functionAndUse.rename (· ++ "s")).parse.unit.analyze.diagnostics ∧
      (functionAndUse.rename (· ++ "s")).parse.unit.analyze.table.toList.map
        (fun symbol => (symbol.name, symbol.scope.label)) =
          [("@ns", "function:@fs"), ("@fs", "unit")] := by
  have hinjective : Function.Injective (· ++ "s") := fun first second hsame => by simpa using hsame
  obtain ⟨-, -, -, -, hmeaning, htable⟩ := parse_analyze_rename hinjective functionAndUse
  refine ⟨hinjective, by decide +kernel, hmeaning, ?_⟩
  rw [htable]
  decide +kernel

/-- A declaration whose name is the last token and whose terminator is missing. -/
def unendedDeclaration : TokenStream where
  tokens := [⟨.keyword .var, "variable", ⟨0, 0, ⟨0, 8⟩⟩⟩, ⟨.identifier, "@x", ⟨0, 9, ⟨9, 11⟩⟩⟩]
  sourceLength := 11

/-- The end of the input moves with the spelling of the last token. -/
theorem locations_rename_ne :
    Function.Injective (· ++ "s") ∧
      (unendedDeclaration.rename (· ++ "s")).parse.diagnostics.map Diagnostic.location ≠
        unendedDeclaration.parse.diagnostics.map Diagnostic.location := by
  refine ⟨fun first second hsame => ?_, by decide +kernel⟩
  simpa using hsame

end TokenStream

end FrontEnd
