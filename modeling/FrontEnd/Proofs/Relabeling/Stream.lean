import FrontEnd.Proofs.Relabeling.Productions

/-!
Parsing a relabeled list of tokens. The report on tokens that were left over compares places, so
that the order of places has to be kept; it is the only part of the parser that looks at them.
-/

namespace FrontEnd

variable {r : Relabeling}

/-- The relabeling moves places without changing their order. -/
def Relabeling.KeepsOrder (r : Relabeling) : Prop :=
  ∀ first second : Location,
    (r.location first).span.start ≤ (r.location second).span.start ↔
      first.span.start ≤ second.span.start

theorem Failure.diagnostic_relabels (ending : Token) (failure : Failure) :
    (failure.diagnostic ending).Relabels r ((failure.relabel r).diagnostic (ending.relabel r)) := by
  have hfound : (failure.relabel r).found.getD (ending.relabel r) =
      (failure.found.getD ending).relabel r := by
    cases hfound : failure.found <;> simp [Failure.relabel, hfound]
  unfold Failure.diagnostic
  rw [hfound]
  simp only [Diagnostic.ofSyntax, SyntaxProblem.found, Token.location_relabel]
  exact .inSyntax

/-- The report on leftover tokens depends on the diagnostics before it only in which of them lie at
the first leftover token or after it. -/
theorem leftoverReport_relabels_of_any {first second : List Diagnostic}
    (hany : ∀ location, (second.any fun d =>
        (r.location location).span.start ≤ d.location.span.start) =
      first.any fun d => location.span.start ≤ d.location.span.start) (rest : List Token) :
    RelabelsAll r (leftoverReport first rest)
      (leftoverReport second (rest.map (Token.relabel r))) := by
  cases rest with
  | nil => exact .nil
  | cons token rest =>
    simp only [List.map_cons, leftoverReport, Token.location_relabel, Token.kind_relabel,
      hany token.location]
    by_cases hreported :
        (first.any fun d => token.location.span.start ≤ d.location.span.start) = true
    · rw [if_pos hreported, if_pos hreported]
      exact .nil
    · rw [if_neg hreported, if_neg hreported]
      by_cases hunknown : token.kind = .unknown
      · rw [if_pos hunknown, if_pos hunknown]
        refine .cons ?_ .nil
        simp only [Diagnostic.ofSyntax, SyntaxProblem.found, Token.location_relabel]
        exact .inSyntax
      · rw [if_neg hunknown, if_neg hunknown]
        refine .cons ?_ .nil
        simp only [Diagnostic.ofSyntax, SyntaxProblem.found, Token.location_relabel]
        exact .inSyntax

theorem leftoverReport_relabels (horder : r.KeepsOrder) {first second : List Diagnostic}
    (hrelabels : RelabelsAll r first second) (rest : List Token) :
    RelabelsAll r (leftoverReport first rest)
      (leftoverReport second (rest.map (Token.relabel r))) := by
  refine leftoverReport_relabels_of_any (fun location => ?_) rest
  induction hrelabels with
  | nil => rfl
  | cons hfirst hrest ih =>
    rw [List.any_cons, List.any_cons, ih, hfirst.location_eq]
    simp only [horder location _]

/-- Parsing relabeled tokens gives the relabeled program. The diagnostics correspond in their order,
in whatever way those of single failures and the reports on leftover tokens do. -/
theorem TokenStream.parseBy_corresponds {corresponds : Diagnostic → Diagnostic → Prop}
    {stream other : TokenStream}
    (htokens : other.significant = stream.significant.map (Token.relabel r))
    (hfailure : ∀ failure : Failure, corresponds (failure.diagnostic stream.ending)
      ((failure.relabel r).diagnostic other.ending))
    (hleftover : ∀ first second, List.Forall₂ corresponds first second → ∀ rest,
      List.Forall₂ corresponds (leftoverReport first rest)
        (leftoverReport second (rest.map (Token.relabel r)))) (retry : Retry) :
    (other.parseBy retry).unit = (stream.parseBy retry).unit.relabel r ∧
      List.Forall₂ corresponds (stream.parseBy retry).diagnostics
        (other.parseBy retry).diagnostics := by
  have hfailures (failures : List Failure) :
      List.Forall₂ corresponds (failures.map (Failure.diagnostic stream.ending))
        ((failures.map (Failure.relabel r)).map (Failure.diagnostic other.ending)) := by
    induction failures with
    | nil => exact .nil
    | cons failure rest ih => exact .cons (hfailure failure) ih
  have hrun := Parser.compilationUnit_commutes (r := r) retry stream.significant []
  rw [List.map_nil] at hrun
  unfold parseBy
  rw [htokens, hrun]
  obtain ⟨parsed, failures⟩ := Parser.compilationUnit retry stream.significant []
  cases parsed with
  | none =>
    exact ⟨rfl, List.rel_append (hfailures failures) (hleftover _ _ (hfailures failures) _)⟩
  | some result =>
    obtain ⟨unit, rest⟩ := result
    exact ⟨rfl, List.rel_append (hfailures failures) (hleftover _ _ (hfailures failures) rest)⟩

/-- Parsing relabeled tokens gives the relabeled program, with the same diagnostics under new labels
and in the same order. -/
theorem TokenStream.parseBy_relabel (horder : r.KeepsOrder) {stream other : TokenStream}
    (htokens : other.significant = stream.significant.map (Token.relabel r))
    (hending : other.ending = stream.ending.relabel r) (retry : Retry) :
    (other.parseBy retry).unit = (stream.parseBy retry).unit.relabel r ∧
      RelabelsAll r (stream.parseBy retry).diagnostics
        (other.parseBy retry).diagnostics := by
  refine parseBy_corresponds htokens (fun failure => ?_)
    (fun _ _ => leftoverReport_relabels horder) retry
  rw [hending]
  exact failure.diagnostic_relabels stream.ending

end FrontEnd
