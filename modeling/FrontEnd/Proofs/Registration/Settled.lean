import FrontEnd.Proofs.Naming.Agreement
import FrontEnd.Proofs.Registration.Order

/-!
Programs that declare names before they use them. What is registered under a key stays, so that the
types which registration infers on the way are those which the table gives that it leaves.
-/

namespace FrontEnd

/-! ### What the type of a declaration depends on -/

namespace Registration

/-- The uses of names in what gives a declaration its type: in the first value of a variable or
constant, and in the first return of a function. -/
def occurrences : Registration → List Occurrence
  | declaration scope d => d.occurrences scope
  | parameter _ _ => []
  | function f => f.returns.head?.elim [] (Payload.occurrences f.scope)

theorem type?_eq_of_agreeOn {registration : Registration} {table other : SymbolTable}
    (hagree : Environment.AgreeOn registration.occurrences ⟨table, registration.scope⟩
      ⟨other, registration.scope⟩) :
    registration.type? table = registration.type? other := by
  cases registration with
  | declaration scope d =>
    cases d with
    | ofVariable d =>
      cases hvalue : d.value with
      | none => simp [type?, Declaration.value?, hvalue]
      | some value =>
        simp only [occurrences, Declaration.occurrences, hvalue, Option.elim_some] at hagree
        simp only [type?, Declaration.value?, hvalue, Option.bind_some]
        exact value.type?_eq_of_agreeOn hagree
    | ofConstant d => exact d.value.type?_eq_of_agreeOn hagree
  | parameter scope p => rfl
  | function f =>
    cases hreturn : f.returns.head? with
    | none => simp [type?, hreturn]
    | some payload =>
      simp only [occurrences, hreturn, Option.elim_some] at hagree
      simp only [type?, hreturn, Option.bind_some]
      exact payload.type?_eq_of_agreeOn hagree

/-! ### What is registered stays -/

theorem exists_append_of_mem_inTurn {front rest earlier : List Registration}
    {registration : Registration} (hmem : (earlier, registration) ∈ inTurn front rest) :
    ∃ later, front ++ rest = earlier ++ registration :: later := by
  induction rest generalizing front with
  | nil => cases hmem
  | cons first rest ih =>
    rcases List.mem_cons.mp hmem with heq | hmem
    · obtain ⟨rfl, rfl⟩ := Prod.mk.inj heq
      exact ⟨rest, rfl⟩
    · obtain ⟨later, hlater⟩ := ih hmem
      exact ⟨later, by rw [← hlater, List.append_assoc, List.singleton_append]⟩

/-- The symbol of a key that was declared earlier is the one that the table has in the end. -/
theorem find?_tableAfter_of_mem {registrations earlier : List Registration}
    {registration : Registration} (hmem : (earlier, registration) ∈ inTurn [] registrations)
    {key : Key} (hkey : key ∈ earlier.map Registration.key) :
    (tableAfter earlier).find? key = (tableAfter registrations).find? key := by
  obtain ⟨later, hlater⟩ := exists_append_of_mem_inTurn hmem
  cases hfound : (tableAfter earlier).find? key with
  | none => exact absurd hkey ((find?_tableAfter_eq_none_iff earlier key).mp hfound)
  | some symbol =>
    have hsequence : tableAfter registrations =
        (Pass.sequence ((registration :: later).map pass) (tableAfter earlier)).table := by
      rw [← List.nil_append registrations, hlater, tableAfter, List.map_append,
        Pass.sequence_append]
      rfl
    rw [hsequence]
    exact (find?_register_of_some hfound _).symm

theorem key_entry (registration : Registration) (type : Option ValueType) :
    (registration.entry type).key = registration.key := by
  cases registration with
  | declaration scope d => cases d <;> rfl
  | parameter | function => rfl

theorem type_entry (registration : Registration) (type : Option ValueType) :
    (registration.entry type).type = type := by
  cases registration with
  | declaration scope d => cases d <;> rfl
  | parameter | function => rfl

end Registration

/-! ### The whole program -/

namespace CompilationUnit

open Registration

/-- Every name that gives a declaration its type is declared before, a value in the same scope. -/
def DeclaresBeforeUse (unit : CompilationUnit) : Prop :=
  ∀ turn ∈ inTurn [] unit.declared, ∀ occurrence ∈ turn.2.occurrences,
    occurrence.key ∈ turn.1.map Registration.key

instance (unit : CompilationUnit) : Decidable unit.DeclaresBeforeUse :=
  inferInstanceAs (Decidable (∀ turn ∈ inTurn [] unit.declared,
    ∀ occurrence ∈ turn.2.occurrences, occurrence.key ∈ turn.1.map Registration.key))

theorem table_register (unit : CompilationUnit) :
    (unit.register ∅).table = tableAfter unit.declared := by
  rw [register, registrations_eq_declared, tableAfter]

theorem type?_register {unit : CompilationUnit} (hunit : unit.DeclaresBeforeUse)
    {earlier : List Registration} {registration : Registration}
    (hmem : (earlier, registration) ∈ inTurn [] unit.declared) :
    registration.type? (tableAfter earlier) = registration.type? (unit.register ∅).table := by
  refine type?_eq_of_agreeOn ⟨rfl, fun occurrence hused _ => ?_⟩
  rw [table_register]
  exact find?_tableAfter_of_mem hmem (hunit _ hmem occurrence hused)

/-- One pass of registration is enough for a program that declares before it uses: in the table that
the pass leaves, every variable and constant has the type which that table gives to its first value,
and every function the type which that table gives to its first return. -/
theorem type_register_settled {unit : CompilationUnit} (hunit : unit.DeclaresBeforeUse) :
    let table := (unit.register ∅).table
    table.toList =
        (firsts unit.declared).map (fun (_, registration) =>
          registration.entry (registration.type? table)) ∧
      (∀ earlier scope (d : Declaration) value,
        (earlier, Registration.declaration scope d) ∈ firsts unit.declared →
          d.value? = some value → ∃ symbol, table.value? d.name.lexeme scope = some symbol ∧
            symbol.type = value.type? ⟨table, scope⟩) ∧
      ∀ earlier (f : FunctionDeclaration),
        (earlier, Registration.function f) ∈ firsts unit.declared →
          ∃ symbol, table.function? f.name.lexeme = some symbol ∧
            symbol.type = f.returns.head?.bind (Payload.type? ⟨table, f.scope⟩) := by
  intro table
  have hlist : table.toList = (firsts unit.declared).map fun (_, registration) =>
      registration.entry (registration.type? table) := by
    have hfirsts := (sequence_inTurn [] unit.declared).1
    refine (congrArg SymbolTable.toList unit.table_register).trans (hfirsts.trans ?_)
    refine List.map_congr_left fun ⟨earlier, registration⟩ hmem => ?_
    exact congrArg registration.entry (type?_register hunit (List.mem_filter.mp hmem).1)
  have hfind : ∀ earlier registration, (earlier, registration) ∈ firsts unit.declared →
      table.find? registration.key = some (registration.entry (registration.type? table)) := by
    intro earlier registration hmem
    refine SymbolTable.find?_eq_some_iff.mpr ⟨?_, registration.key_entry _⟩
    rw [hlist]
    exact List.mem_map.mpr ⟨(earlier, registration), hmem, rfl⟩
  refine ⟨hlist, fun earlier scope d value hmem hvalue => ?_, fun earlier f hmem => ?_⟩
  · refine ⟨_, hfind earlier _ hmem, ?_⟩
    rw [type_entry, type?, hvalue, Option.bind_some]
  · exact ⟨_, hfind earlier _ hmem, type_entry _ _⟩

/-- A program whose second function returns a call of the first, with a local variable between the
two and a name that is declared twice. -/
def chainedReturns : CompilationUnit :=
  let word (kind : TokenKind) (lexeme : String) (column : Nat) : Token :=
    ⟨kind, lexeme, ⟨0, column, ⟨column, column + lexeme.utf8ByteSize⟩⟩⟩
  let name := word .identifier
  let given (declared : Token) (value : Value) : Declaration :=
    .ofVariable ⟨word (.keyword .var) "variable" 0, declared, value⟩
  { declarations := [given (name "@x" 9) (.operand (.token (word .integer "1" 14)))]
    functions := [
      ⟨word (.keyword .action) "action" 17, name "@f" 24,
        [⟨word (.keyword .integer) "integer" 27, .integer, name "@n" 35⟩],
        [.declare (given (name "@m" 50) (.operand (.binary (.token (name "@n" 55))
            (word (.arithmetic .add) "+" 58) (.token (word .decimal "2.5" 60))))),
          .ret (word (.keyword .ret) "return" 65) (.operand (.token (name "@m" 72)))]⟩,
      ⟨word (.keyword .action) "action" 77, name "@g" 84, [],
        [.ret (word (.keyword .ret) "return" 91)
          (.call ⟨name "@f" 98, [.token (word .integer "1" 101)]⟩)]⟩]
    statements := [.declare (given (name "@y" 116) (.call ⟨name "@g" 121, []⟩)),
      .declare (given (name "@x" 136) (.operand (.token (word .string "~a~" 141))))] }

theorem type_register_settled_chainedReturns :
    let table := (chainedReturns.register ∅).table
    chainedReturns.DeclaresBeforeUse ∧
      (table.toList.map fun symbol => (symbol.name, symbol.type)) =
        [("@x", some .integer), ("@n", some .integer), ("@m", some .decimal), ("@f", some .decimal),
          ("@g", some .decimal), ("@y", some .decimal)] ∧
      (∃ symbol, table.value? "@y" .unit = some symbol ∧ symbol.type = some .decimal) ∧
      ∃ symbol, table.function? "@g" = some symbol ∧ symbol.type = some .decimal := by
  intro table
  have hunit : chainedReturns.DeclaresBeforeUse := by decide +kernel
  obtain ⟨hlist, hvalue, hfunction⟩ := type_register_settled hunit
  refine ⟨hunit, ?_, ?_, ?_⟩
  · rw [hlist]
    decide +kernel
  · obtain ⟨symbol, hfound, htype⟩ := hvalue _ _ _ _ (List.mem_of_getElem? (i := 5) rfl) rfl
    exact ⟨symbol, hfound, htype.trans (by decide +kernel)⟩
  · obtain ⟨symbol, hfound, htype⟩ := hfunction _ _ (List.mem_of_getElem? (i := 4) rfl)
    exact ⟨symbol, hfound, htype.trans (by decide +kernel)⟩

end CompilationUnit

end FrontEnd
