import FrontEnd.Analysis.Inference
import FrontEnd.Proofs.Naming.Uses

/-!
What a type depends on: the symbols of the names that are used, and nothing else that the table
holds.
-/

namespace FrontEnd

/-- The key under which a name is looked up where it is used. -/
def Occurrence.key (occurrence : Occurrence) : Key :=
  match occurrence.use with
  | .call _ => .function occurrence.name.lexeme
  | .read | .assign | .step _ => .value occurrence.name.lexeme occurrence.scope

/-- Two environments of one scope, with the same symbols for the names that are used there. -/
structure Environment.AgreeOn (occurrences : List Occurrence) (env other : Environment) : Prop where
  scope : env.scope = other.scope
  find? : ∀ occurrence ∈ occurrences, occurrence.scope = env.scope →
    env.table.find? occurrence.key = other.table.find? occurrence.key

variable {env other : Environment}

theorem Environment.AgreeOn.mono {occurrences fewer : List Occurrence}
    (hagree : AgreeOn occurrences env other) (hsubset : fewer ⊆ occurrences) :
    AgreeOn fewer env other where
  scope := hagree.scope
  find? occurrence hmem := hagree.find? occurrence (hsubset hmem)

theorem Token.type?_eq_of_agreeOn (t : Token)
    (hagree : Environment.AgreeOn (Operand.occurrences env.scope (.token t)) env other) :
    t.type? env = t.type? other := by
  by_cases hname : t.kind = .identifier
  · have hfind : env.value? t.lexeme = other.value? t.lexeme := by
      rw [Environment.value?, Environment.value?, ← hagree.scope]
      exact hagree.find? ⟨env.scope, t, .read⟩ (by simp [Operand.occurrences, hname]) rfl
    simp only [type?, hname, hfind]
  · unfold type?
    split <;> first | rfl | contradiction

theorem Operand.type?_eq_of_agreeOn (operand : Operand)
    (hagree : Environment.AgreeOn (operand.occurrences env.scope) env other) :
    operand.type? env = operand.type? other := by
  induction operand with
  | binary left operator right ihleft ihright =>
    have hleft := ihleft (hagree.mono (List.subset_append_left _ _))
    have hright := ihright (hagree.mono (List.subset_append_right _ _))
    rw [type?, type?, hleft, hright]
  | unary operator operand ih => rw [type?, type?, ih hagree]
  | token t => exact t.type?_eq_of_agreeOn hagree
  | numeric value => rfl

theorem Call.type?_eq_of_agreeOn (call : Call)
    (hagree : Environment.AgreeOn (call.occurrences env.scope) env other) :
    call.type? env = call.type? other := by
  have hfind : env.table.find? (.function call.name.lexeme) =
      other.table.find? (.function call.name.lexeme) :=
    hagree.find? _ List.mem_cons_self rfl
  simp only [type?, Environment.function?, SymbolTable.function?, hfind]

theorem ArrayElement.type?_eq_of_agreeOn (element : ArrayElement)
    (hagree : Environment.AgreeOn (element.occurrences env.scope) env other) :
    element.type? env = element.type? other := by
  match element with
  | .operand o =>
    rw [occurrences] at hagree
    rw [type?, type?, o.type?_eq_of_agreeOn hagree]
  | .array _ [] => rw [type?, type?]
  | .array _ (first :: _) =>
    -- only the first element counts
    rw [occurrences, occurrencesOf] at hagree
    rw [type?, type?,
      first.type?_eq_of_agreeOn (hagree.mono (List.subset_append_left _ _))]

theorem Value.type?_eq_of_agreeOn (value : Value)
    (hagree : Environment.AgreeOn (value.occurrences env.scope) env other) :
    value.type? env = value.type? other := by
  cases value with
  | call c => exact c.type?_eq_of_agreeOn hagree
  | array a => exact a.toElement.type?_eq_of_agreeOn hagree
  | operand o => exact o.type?_eq_of_agreeOn hagree

theorem Payload.type?_eq_of_agreeOn (payload : Payload)
    (hagree : Environment.AgreeOn (payload.occurrences env.scope) env other) :
    payload.type? env = payload.type? other := by
  cases payload with
  | call c => exact c.type?_eq_of_agreeOn hagree
  | operand o => exact o.type?_eq_of_agreeOn hagree

end FrontEnd
