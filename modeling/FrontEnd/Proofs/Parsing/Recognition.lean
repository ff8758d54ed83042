import FrontEnd.Proofs.Parsing.Completeness.Unit
import FrontEnd.Proofs.Parsing.Soundness

/-!
The parser recognizes the grammar: it has nothing to report exactly on the token lists that are
programs once the comments are left out, and then it returns the program.
-/

namespace FrontEnd

open Grammar

theorem leftoverReport_nil_eq_nil_iff {rest : List Token} :
    leftoverReport [] rest = [] ↔ rest = [] := by
  cases rest with
  | nil => simp [leftoverReport]
  | cons token rest =>
    by_cases hkind : token.kind = .unknown <;> simp [leftoverReport, hkind]

theorem TokenStream.parse_of_isUnit {stream : TokenStream} {unit : CompilationUnit}
    (hunit : IsUnit stream.significant unit) : stream.parse = ⟨unit.hoist, []⟩ := by
  have hread : Parser.compilationUnit .never stream.significant [] = ⟨some (unit.hoist, []), []⟩ :=
    Parser.compilationUnit_reads hunit .never
  simp [parse, parseBy, hread, leftoverReport]

theorem TokenStream.isUnit_of_parse {stream : TokenStream}
    (hsilent : stream.parse.diagnostics = []) :
    IsUnit stream.significant stream.parse.unit := by
  unfold parse parseBy at hsilent ⊢
  generalize hrun : Parser.compilationUnit .never stream.significant [] = outcome at hsilent ⊢
  obtain ⟨parsed, failures⟩ := outcome
  obtain ⟨hfailures, hleftover⟩ := List.append_eq_nil_iff.mp hsilent
  rw [hfailures, leftoverReport_nil_eq_nil_iff] at hleftover
  cases parsed with
  | none =>
    have htokens : stream.significant = [] := hleftover
    rw [htokens]
    exact .mk .nil .nil .nil
  | some result =>
    obtain ⟨unit, rest⟩ := result
    obtain rfl : rest = [] := hleftover
    obtain ⟨taken, htaken, hunit⟩ :=
      Parser.compilationUnit_sound ⟨.never, [], congrArg Outcome.parsed hrun⟩
    rw [htaken, List.append_nil]
    exact hunit

/-- Parsing reports nothing exactly if the tokens, without the comments, are a program of the
grammar. The program that is returned is then derived from them, and every other derivation differs
from it only in how many of the leading declarations count as statements. -/
theorem TokenStream.diagnostics_parse_eq_nil_iff (stream : TokenStream) :
    (stream.parse.diagnostics = [] ↔ ∃ unit, IsUnit stream.significant unit) ∧
      (stream.parse.diagnostics = [] →
        IsUnit stream.significant stream.parse.unit ∧
          ∀ unit, IsUnit stream.significant unit → stream.parse.unit = unit.hoist) := by
  refine ⟨⟨fun hsilent => ⟨_, isUnit_of_parse hsilent⟩, ?_⟩, fun hsilent => ?_⟩
  · rintro ⟨unit, hunit⟩
    rw [parse_of_isUnit hunit]
  · refine ⟨isUnit_of_parse hsilent, fun unit hunit => ?_⟩
    rw [parse_of_isUnit hunit]

/-- A token of no particular place. -/
def Token.unplaced (kind : TokenKind) (lexeme : String) : Token :=
  ⟨kind, lexeme, ⟨0, 0, ⟨0, 0⟩⟩⟩

/-- Two declarations with a comment between them, and a step without a terminator. -/
def TokenStream.declarationsAndStep : TokenStream where
  tokens := [.unplaced (.keyword .var) "variable", .unplaced .identifier "@x",
    .unplaced .terminator "#", .unplaced .lineComment "¶ note",
    .unplaced (.keyword .const) "constant", .unplaced .identifier "@k",
    .unplaced (.assignment .set) "=", .unplaced (.arithmetic .sub) "-", .unplaced .integer "1",
    .unplaced .terminator "#", .unplaced .identifier "@x", .unplaced .increment "++"]
  sourceLength := 0

theorem TokenStream.diagnostics_parse_declarationsAndStep :
    declarationsAndStep.parse.diagnostics = [] ∧
      IsUnit declarationsAndStep.significant declarationsAndStep.parse.unit ∧
      ∀ unit, IsUnit declarationsAndStep.significant unit →
        declarationsAndStep.parse.unit = unit.hoist := by
  have hsilent : declarationsAndStep.parse.diagnostics = [] := by decide +kernel
  exact ⟨hsilent, declarationsAndStep.diagnostics_parse_eq_nil_iff.2 hsilent⟩

end FrontEnd
