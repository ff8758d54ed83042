import FrontEnd.Analysis.Unit
import FrontEnd.Proofs.Isolation.Agreement
import FrontEnd.Proofs.Registration.Basic
import FrontEnd.Proofs.Symbol.Part

/-!
Passes and parts of a table. Registering a name and checking an action read and change what belongs
to one scope, and read functions. So they depend on no more than a part of the table that holds
these, and they spare every part that their own keys are not in.
-/

namespace FrontEnd

namespace Pass

variable {keep : Key → Bool}

/-- What the pass finds, and what it does to a part of the table, depends on that part alone. -/
def DependsOn (pass : Pass) (keep : Key → Bool) : Prop :=
  ∀ ⦃table other : SymbolTable⦄, table.part keep = other.part keep →
    (pass table).diagnostics = (pass other).diagnostics ∧
      (pass table).table.part keep = (pass other).table.part keep

/-- The pass leaves a part of the table as it is. -/
def Spares (pass : Pass) (keep : Key → Bool) : Prop :=
  ∀ table : SymbolTable, (pass table).table.part keep = table.part keep

theorem DependsOn.andThen {first second : Pass} (hfirst : first.DependsOn keep)
    (hsecond : second.DependsOn keep) : (first.andThen second).DependsOn keep := by
  intro table other hpart
  obtain ⟨hdiagnostics, hafter⟩ := hfirst hpart
  obtain ⟨hmore, hlast⟩ := hsecond hafter
  refine ⟨?_, hlast⟩
  simp only [Pass.andThen, hdiagnostics, hmore]

theorem dependsOn_sequence {passes : List Pass} (hall : ∀ pass ∈ passes, pass.DependsOn keep) :
    (sequence passes).DependsOn keep := by
  induction passes with
  | nil => exact fun _ _ hpart => ⟨rfl, hpart⟩
  | cons pass rest ih =>
    obtain ⟨hpass, hrest⟩ := List.forall_mem_cons.mp hall
    exact hpass.andThen (ih hrest)

theorem Spares.andThen {first second : Pass} (hfirst : first.Spares keep)
    (hsecond : second.Spares keep) : (first.andThen second).Spares keep :=
  fun table => (hsecond (first table).table).trans (hfirst table)

theorem spares_sequence {passes : List Pass} (hall : ∀ pass ∈ passes, pass.Spares keep) :
    (sequence passes).Spares keep := by
  induction passes with
  | nil => exact fun _ => rfl
  | cons pass rest ih =>
    obtain ⟨hpass, hrest⟩ := List.forall_mem_cons.mp hall
    exact hpass.andThen (ih hrest)

end Pass

variable {keep : Key → Bool}

/-- Whatever can be named in the scope is in the part. -/
structure Scope.VisibleIn (scope : Scope) (keep : Key → Bool) : Prop where
  value (name : String) : keep (.value name scope) = true
  function (name : String) : keep (.function name) = true

theorem agrees_of_part_eq {scope : Scope} (hscope : scope.VisibleIn keep)
    {table other : SymbolTable} (hpart : table.part keep = other.part keep) :
    Environment.Agrees ⟨table, scope⟩ ⟨other, scope⟩ where
  scope := rfl
  value? name := by
    have hfind : table.find? (.value name scope) = other.find? (.value name scope) := by
      rw [SymbolTable.find?_eq_find?_part (hscope.value name), hpart,
        ← SymbolTable.find?_eq_find?_part (hscope.value name)]
    exact hfind
  function? name := by
    have hfind : table.find? (.function name) = other.find? (.function name) := by
      rw [SymbolTable.find?_eq_find?_part (hscope.function name), hpart,
        ← SymbolTable.find?_eq_find?_part (hscope.function name)]
    exact hfind

/-! ### Registration -/

theorem declare_dependsOn {symbol : Symbol} (hkey : keep symbol.key = true) :
    (Pass.declare symbol).DependsOn keep := by
  intro table other hpart
  have hfind : table.find? symbol.key = other.find? symbol.key := by
    rw [SymbolTable.find?_eq_find?_part hkey, hpart, ← SymbolTable.find?_eq_find?_part hkey]
  rw [table_declare, table_declare]
  by_cases hfree : table.find? symbol.key = none
  · have hotherFree : other.find? symbol.key = none := hfind ▸ hfree
    rw [diagnostics_declare_of_free hfree, diagnostics_declare_of_free hotherFree,
      SymbolTable.part_insert_of_free hfree, SymbolTable.part_insert_of_free hotherFree, hpart]
    exact ⟨rfl, rfl⟩
  · have hotherTaken : other.find? symbol.key ≠ none := hfind ▸ hfree
    rw [diagnostics_declare_of_taken hfree, diagnostics_declare_of_taken hotherTaken,
      SymbolTable.part_insert_of_taken hfree, SymbolTable.part_insert_of_taken hotherTaken]
    exact ⟨rfl, hpart⟩

theorem declare_spares {symbol : Symbol} (hkey : keep symbol.key = false) :
    (Pass.declare symbol).Spares keep := by
  intro table
  rw [table_declare]
  by_cases hfree : table.find? symbol.key = none
  · rw [SymbolTable.part_insert_of_free hfree, if_neg (by simp [hkey]), List.append_nil]
  · exact SymbolTable.part_insert_of_taken hfree

namespace Registration

theorem symbol_congr (registration : Registration) {table other : SymbolTable}
    (henv : Environment.Agrees ⟨table, registration.scope⟩ ⟨other, registration.scope⟩) :
    registration.symbol table = registration.symbol other := by
  cases registration with
  | declaration scope d =>
    have htype : Value.type? ⟨table, scope⟩ = Value.type? ⟨other, scope⟩ :=
      funext (Value.type?_congr henv)
    rw [symbol, symbol, htype]
  | parameter scope p => rfl
  | function f =>
    have htype : Payload.type? ⟨table, f.scope⟩ = Payload.type? ⟨other, f.scope⟩ :=
      funext (Payload.type?_congr henv)
    rw [symbol, symbol, htype]

theorem pass_dependsOn {registration : Registration} (hscope : registration.scope.VisibleIn keep)
    (hkey : keep registration.key = true) : registration.pass.DependsOn keep := by
  intro table other hpart
  have hsymbol := registration.symbol_congr (agrees_of_part_eq hscope hpart)
  rw [← registration.key_symbol other] at hkey
  rw [pass, pass, hsymbol]
  exact declare_dependsOn hkey hpart

theorem pass_spares {registration : Registration} (hkey : keep registration.key = false) :
    registration.pass.Spares keep := by
  intro table
  rw [← registration.key_symbol table] at hkey
  exact declare_spares hkey table

end Registration

/-! ### Actions -/

theorem key_of_value? {env : Environment} {name : String} {symbol : Symbol}
    (hvalue : env.value? name = some symbol) : symbol.key = .value name env.scope :=
  (SymbolTable.find?_eq_some_iff.mp hvalue).2

theorem part_retypeTarget {scope : Scope} (hscope : scope.VisibleIn keep)
    {table other : SymbolTable} (hpart : table.part keep = other.part keep) (target : Token)
    (value : Value) :
    (retypeTarget ⟨table, scope⟩ target value).part keep =
      (retypeTarget ⟨other, scope⟩ target value).part keep := by
  have henv := agrees_of_part_eq hscope hpart
  unfold retypeTarget
  rw [henv.value?, value.type?_congr henv]
  split
  · split
    · rw [SymbolTable.part_retype?, SymbolTable.part_retype?, hpart]
    · exact hpart
  · exact hpart

/-- A part of the table that holds no value of the scope does not notice the new type. -/
theorem part_retypeTarget_of_hidden {scope : Scope}
    (hscope : ∀ name, keep (.value name scope) = false) (table : SymbolTable) (target : Token)
    (value : Value) : (retypeTarget ⟨table, scope⟩ target value).part keep = table.part keep := by
  unfold retypeTarget
  split
  · next symbol type hvalue htype =>
    split
    · have hkey : keep symbol.key = false := by
        rw [key_of_value? hvalue]
        exact hscope target.lexeme
      rw [SymbolTable.part_retype?, SymbolTable.map_retypeAt_part hkey]
    · rfl
  · rfl

namespace Action

theorem pass_dependsOn {scope : Scope} (hscope : scope.VisibleIn keep) (action : Action) :
    (action.pass scope).DependsOn keep := by
  intro table other hpart
  refine ⟨action.check_congr (agrees_of_part_eq hscope hpart), ?_⟩
  cases action with
  | assign target value => exact part_retypeTarget hscope hpart target value
  | _ => exact hpart

theorem pass_spares {scope : Scope} (hscope : ∀ name, keep (.value name scope) = false)
    (action : Action) : (action.pass scope).Spares keep := by
  intro table
  cases action with
  | assign target value => exact part_retypeTarget_of_hidden hscope table target value
  | _ => rfl

end Action

end FrontEnd
