import FrontEnd.Proofs.Registration.Basic
import FrontEnd.Proofs.Typing.Walk

/-!
Analysis reports nothing exactly on the well-formed programs: registration reports the keys that are
declared twice, and validation follows the walk from the table that registration leaves.
-/

namespace FrontEnd

/-- Registering one thing after another reports nothing exactly if no key is taken, neither in the
table before nor by what was registered earlier. -/
theorem diagnostics_register_eq_nil_iff (registrations : List Registration) (table : SymbolTable) :
    (Pass.sequence (registrations.map Registration.pass) table).diagnostics = [] ↔
      (registrations.map Registration.key).Nodup ∧
        ∀ registration ∈ registrations, table.find? registration.key = none := by
  induction registrations generalizing table with
  | nil => simp [Pass.skip]
  | cons first rest ih =>
    have hkey := first.key_symbol table
    simp only [List.map_cons, Pass.sequence_cons, Pass.andThen, List.append_eq_nil_iff, ih,
      List.nodup_cons, List.mem_map, List.forall_mem_cons, Registration.pass,
      diagnostics_declare_eq_nil_iff, hkey]
    constructor
    · rintro ⟨hfree, hnodup, hrest⟩
      have hfreeSymbol : table.find? (first.symbol table).key = none := by rwa [hkey]
      have hfind := find?_declare hfreeSymbol
      refine ⟨⟨?_, hnodup⟩, hfree, fun registration hmem => ?_⟩
      · rintro ⟨registration, hmem, hsame⟩
        have htaken := hrest registration hmem
        rw [hfind, hkey, if_pos hsame.symm] at htaken
        cases htaken
      · have hunused := hrest registration hmem
        rw [hfind, hkey] at hunused
        by_cases hsame : first.key = registration.key
        · rw [if_pos hsame] at hunused
          cases hunused
        · rw [if_neg hsame] at hunused
          exact hunused
    · rintro ⟨⟨hnew, hnodup⟩, hfree, hrest⟩
      have hfreeSymbol : table.find? (first.symbol table).key = none := by rwa [hkey]
      have hfind := find?_declare hfreeSymbol
      refine ⟨hfree, hnodup, fun registration hmem => ?_⟩
      have hdistinct : first.key ≠ registration.key := fun hsame =>
        hnew ⟨registration, hmem, hsame.symm⟩
      rw [hfind, hkey, if_neg hdistinct]
      exact hrest registration hmem

theorem CompilationUnit.diagnostics_register_eq_nil_iff (unit : CompilationUnit) :
    (unit.register ∅).diagnostics = [] ↔ unit.keys.Nodup := by
  rw [register, FrontEnd.diagnostics_register_eq_nil_iff, registrations_eq_declared, keys]
  simp [SymbolTable.find?_eq_find?_toList]

/-- Analysis of a program reports nothing exactly if the program is well formed. -/
theorem CompilationUnit.diagnostics_analyze_eq_nil_iff (unit : CompilationUnit) :
    unit.analyze.diagnostics = [] ↔ unit.WellFormed := by
  have hfollows := Typing.unit_follows unit (unit.register ∅).table
  rw [analyze, Pass.andThen, List.append_eq_nil_iff, diagnostics_register_eq_nil_iff]
  constructor
  · rintro ⟨hkeys, hsilent⟩
    obtain ⟨middle, hwalk⟩ := (hfollows _).mpr ⟨hsilent, rfl⟩
    exact ⟨hkeys, middle, _, hwalk⟩
  · rintro ⟨hkeys, middle, after, hwalk⟩
    exact ⟨hkeys, ((hfollows after).mp ⟨middle, hwalk⟩).1⟩

end FrontEnd
