import FrontEnd.Proofs.Places.Semantic
import FrontEnd.Proofs.Registration.First

/-!
What registration leaves, symbol by symbol and report by report. Of the declarations with one key
the first one is registered, and each other one is reported.
-/

namespace FrontEnd

/-! ### One declaration -/

namespace Registration

/-- The type of what is declared: that of its first value for a variable or constant, the given one
for a parameter, and that of its first return for a function. -/
def type? (table : SymbolTable) : Registration → Option ValueType
  | declaration scope d => d.value?.bind (Value.type? ⟨table, scope⟩)
  | parameter _ p => some p.type
  | function f => f.returns.head?.bind (Payload.type? ⟨table, f.scope⟩)

/-- The symbol of what is declared. It stands at its name; only variables and parameters may change;
only functions have parameters. -/
def entry (type : Option ValueType) : Registration → Symbol
  | declaration scope (.ofVariable d) =>
    { name := d.name.lexeme, role := .value, type, isMutable := true, scope
      location := d.name.location }
  | declaration scope (.ofConstant d) =>
    { name := d.name.lexeme, role := .value, type, isMutable := false, scope
      location := d.name.location }
  | parameter scope p =>
    { name := p.name.lexeme, role := .value, type, isMutable := true, scope
      location := p.name.location }
  | function f =>
    { name := f.name.lexeme, role := .function (f.parameters.map Parameter.type), type
      isMutable := false, scope := .unit, location := f.name.location }

/-- The report on a name that is declared already, at the name. -/
def duplicate (registration : Registration) : Diagnostic :=
  .ofMeaning (.duplicateSymbol registration.name.lexeme (registration.entry none).scope.label)
    registration.name

theorem symbol_eq_entry (registration : Registration) (table : SymbolTable) :
    registration.symbol table = registration.entry (registration.type? table) := by
  cases registration with
  | declaration scope d => cases d <;> rfl
  | parameter => rfl
  | function f =>
    rw [symbol, f.firstReturn?_eq_head?_returns]
    rfl

theorem duplicate_entry (registration : Registration) (type : Option ValueType) :
    (registration.entry type).duplicate = registration.duplicate := by
  cases registration with
  | declaration scope d => cases d <;> rfl
  | parameter | function => rfl

/-! ### One declaration after the other -/

/-- The table after declarations have been registered from the empty one on. -/
def tableAfter (registrations : List Registration) : SymbolTable :=
  (Pass.sequence (registrations.map pass) ∅).table

/-- Declarations, each with those before it. -/
def inTurn (earlier : List Registration) :
    List Registration → List (List Registration × Registration)
  | [] => []
  | registration :: rest => (earlier, registration) :: inTurn (earlier ++ [registration]) rest

/-- Whether none of the earlier declarations has the same key. -/
def isFirst (earlier : List Registration) (registration : Registration) : Bool :=
  registration.key ∉ earlier.map key

/-- Where no declaration with a key has been registered, the key is free. -/
theorem find?_tableAfter_eq_none_iff (earlier : List Registration) (key : Key) :
    (tableAfter earlier).find? key = none ↔ key ∉ earlier.map Registration.key := by
  have hfree : (∅ : SymbolTable).find? key = none := by
    simp [SymbolTable.find?_eq_find?_toList]
  rw [tableAfter, find?_register hfree, Option.map_eq_none_iff, List.find?_eq_none]
  simp

theorem tableAfter_append (earlier : List Registration) (registration : Registration) :
    tableAfter (earlier ++ [registration]) =
      (registration.pass (tableAfter earlier)).table := by
  rw [tableAfter, List.map_append, Pass.sequence_append]
  rfl

/-- Registering a declaration appends its symbol if it is the first one with its key, and reports it
otherwise. -/
theorem pass_tableAfter (earlier : List Registration) (registration : Registration) :
    (registration.pass (tableAfter earlier)).table.toList =
        (tableAfter earlier).toList ++
          (if registration.isFirst earlier then
            [registration.entry (registration.type? (tableAfter earlier))] else []) ∧
      (registration.pass (tableAfter earlier)).diagnostics =
        if registration.isFirst earlier then [] else [registration.duplicate] := by
  have hkey := registration.key_symbol (tableAfter earlier)
  rw [pass, table_declare]
  by_cases hnew : registration.key ∈ earlier.map key
  · have htaken : (tableAfter earlier).find? (registration.symbol (tableAfter earlier)).key ≠
        none := by
      rw [hkey, Ne, find?_tableAfter_eq_none_iff]
      exact fun hfree => hfree hnew
    rw [diagnostics_declare_of_taken htaken, (SymbolTable.insert_of_taken htaken).2,
      symbol_eq_entry, duplicate_entry]
    simp [isFirst, hnew]
  · have hfree : (tableAfter earlier).find? (registration.symbol (tableAfter earlier)).key =
        none := by
      rw [hkey, find?_tableAfter_eq_none_iff]
      exact hnew
    rw [diagnostics_declare_of_free hfree, (SymbolTable.insert_of_free hfree).2, symbol_eq_entry]
    simp [isFirst, hnew]

/-- The declarations that are the first ones with their keys, each with those before it. -/
def firsts (registrations : List Registration) : List (List Registration × Registration) :=
  (inTurn [] registrations).filter fun (earlier, registration) => registration.isFirst earlier

/-- The declarations whose keys are taken when their turn comes. -/
def others (registrations : List Registration) : List (List Registration × Registration) :=
  (inTurn [] registrations).filter fun (earlier, registration) => !registration.isFirst earlier

theorem sequence_inTurn (earlier rest : List Registration) :
    (Pass.sequence (rest.map pass) (tableAfter earlier)).table.toList =
        (tableAfter earlier).toList ++
          ((inTurn earlier rest).filter fun (earlier, r) => r.isFirst earlier).map
            (fun (earlier, r) => r.entry (r.type? (tableAfter earlier))) ∧
      (Pass.sequence (rest.map pass) (tableAfter earlier)).diagnostics =
        ((inTurn earlier rest).filter fun (earlier, r) => !r.isFirst earlier).map
          (fun (_, r) => r.duplicate) := by
  induction rest generalizing earlier with
  | nil => simp [inTurn, Pass.skip]
  | cons registration rest ih =>
    obtain ⟨htable, hdiagnostics⟩ := registration.pass_tableAfter earlier
    obtain ⟨hlast, hmore⟩ := ih (earlier ++ [registration])
    rw [tableAfter_append] at hlast hmore
    simp only [List.map_cons, Pass.sequence_cons, Pass.andThen, inTurn, List.filter_cons]
    rw [hlast, hmore, htable, hdiagnostics]
    cases registration.isFirst earlier <;> simp

end Registration

/-! ### The whole program -/

namespace CompilationUnit

open Registration

/-- From the empty table, registration leaves the first declaration of each key, in the order of the
declarations and with the type that is inferred from the table just before, and reports each other
one, in that order too. -/
theorem toList_register (unit : CompilationUnit) :
    (unit.register ∅).table.toList =
        (firsts unit.declared).map (fun (earlier, registration) =>
          registration.entry (registration.type? (tableAfter earlier))) ∧
      (unit.register ∅).diagnostics =
        (others unit.declared).map (fun (_, registration) => registration.duplicate) := by
  rw [register, registrations_eq_declared]
  exact sequence_inTurn [] unit.declared

end CompilationUnit

end FrontEnd
