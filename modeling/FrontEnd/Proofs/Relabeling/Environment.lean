import FrontEnd.Analysis.Inference
import FrontEnd.Proofs.Relabeling.Syntax
import FrontEnd.Proofs.Symbol.Table

/-!
Looking names up under new labels. Relabeled tables hold the relabeled symbols in the same order,
and a faithful relabeling finds them under the new names, so that inference gives the same types.
-/

namespace FrontEnd

variable {r : Relabeling}

/-! ### Keys and tables -/

/-- The key under which a symbol is found after relabeling. -/
def Key.relabel (r : Relabeling) (key : Key) : Key :=
  ⟨key.scope.map r.scope, r.name key.name⟩

theorem Symbol.key_relabel (r : Relabeling) (symbol : Symbol) :
    (symbol.relabel r).key = symbol.key.relabel r := by
  obtain ⟨name, role, type, isMutable, scope, location⟩ := symbol
  cases role <;> rfl

theorem Key.relabel_inj (hr : r.Faithful) {first second : Key} :
    first.relabel r = second.relabel r ↔ first = second := by
  refine ⟨fun hkeys => ?_, fun hkeys => by rw [hkeys]⟩
  obtain ⟨hscope, hname⟩ := Key.mk.inj hkeys
  have hscopes : first.scope = second.scope :=
    Option.map_injective (fun _ _ hsame => hr.scope_inj hsame) hscope
  have hnames : first.name = second.name := hr.name_inj hname
  cases first
  cases second
  rw [Key.mk.injEq]
  exact ⟨hscopes, hnames⟩

/-- The second table holds the symbols of the first one under new labels. -/
def SymbolTable.Relabels (r : Relabeling) (table other : SymbolTable) : Prop :=
  other.toList = table.toList.map (Symbol.relabel r)

theorem SymbolTable.Relabels.find? (hr : r.Faithful) {table other : SymbolTable}
    (htable : table.Relabels r other) (key : Key) :
    other.find? (key.relabel r) = (table.find? key).map (Symbol.relabel r) := by
  have hkeys : (fun symbol : Symbol => decide (symbol.key = key.relabel r)) ∘ Symbol.relabel r =
      fun symbol => decide (symbol.key = key) := by
    funext symbol
    simp only [Function.comp_apply, Symbol.key_relabel, Key.relabel_inj hr]
  rw [SymbolTable.find?_eq_find?_toList, htable, List.find?_map, hkeys,
    ← SymbolTable.find?_eq_find?_toList]

/-- The second environment is the first one under new labels. -/
structure Environment.Relabels (r : Relabeling) (env other : Environment) : Prop where
  table : env.table.Relabels r other.table
  scope : other.scope = r.scope env.scope

variable {env other : Environment}

theorem Environment.Relabels.value? (hr : r.Faithful) (henv : env.Relabels r other)
    (name : String) :
    other.value? (r.name name) = (env.value? name).map (Symbol.relabel r) := by
  have hkey : Key.value (r.name name) other.scope = (Key.value name env.scope).relabel r := by
    rw [henv.scope]
    rfl
  unfold Environment.value? SymbolTable.value?
  rw [hkey, henv.table.find? hr]

theorem Environment.Relabels.function? (hr : r.Faithful) (henv : env.Relabels r other)
    (name : String) :
    other.function? (r.name name) = (env.function? name).map (Symbol.relabel r) :=
  henv.table.find? hr (.function name)

/-! ### Types -/

theorem bind_type_relabel (symbol : Option Symbol) :
    (symbol.map (Symbol.relabel r)).bind Symbol.type = symbol.bind Symbol.type := by
  cases symbol <;> rfl

theorem Token.type?_relabel (hr : r.Faithful) (henv : env.Relabels r other) (t : Token) :
    (t.relabel r).type? other = t.type? env := by
  by_cases hname : t.kind = .identifier
  · rw [Token.relabel_of_identifier r hname]
    simp only [Token.type?, Token.kind_renamed, hname, Token.lexeme_renamed]
    rw [henv.value? hr, bind_type_relabel]
  · rw [Token.relabel_of_not_identifier r hname]
    unfold Token.type?
    rw [Token.kind_moved]
    split
    · next hkind => exact absurd hkind hname
    all_goals rfl

theorem Operand.type?_relabel (hr : r.Faithful) (henv : env.Relabels r other) (o : Operand) :
    (o.relabel r).type? other = o.type? env := by
  induction o with
  | binary left operator right ihleft ihright =>
    simp only [Operand.relabel, Operand.type?, Token.kind_moved, ihleft, ihright]
  | unary operator operand ih => simp only [Operand.relabel, Operand.type?, Token.kind_moved, ih]
  | token t => exact Token.type?_relabel hr henv t
  | numeric value => rfl

theorem Call.type?_relabel (hr : r.Faithful) (henv : env.Relabels r other) (c : Call) :
    (c.relabel r).type? other = c.type? env := by
  unfold Call.type?
  rw [← bind_type_relabel (env.function? c.name.lexeme), ← henv.function? hr]
  rfl

theorem ArrayElement.type?_relabel (hr : r.Faithful) (henv : env.Relabels r other)
    (element : ArrayElement) : (element.relabel r).type? other = element.type? env := by
  match element with
  | .operand o =>
    rw [ArrayElement.relabel, ArrayElement.type?, ArrayElement.type?, o.type?_relabel hr henv]
  | .array bracket [] =>
    rw [ArrayElement.relabel, ArrayElement.relabelAll, ArrayElement.type?, ArrayElement.type?]
  | .array bracket (first :: rest) =>
    rw [ArrayElement.relabel, ArrayElement.relabelAll, ArrayElement.type?, ArrayElement.type?,
      ArrayElement.type?_relabel hr henv first]

theorem ArrayLiteral.toElement_relabel (array : ArrayLiteral) :
    (array.relabel r).toElement = array.toElement.relabel r := by
  rw [ArrayLiteral.toElement, ArrayLiteral.toElement, ArrayElement.relabel,
    ArrayElement.relabelAll_eq_map, ArrayLiteral.relabel]

theorem Value.type?_relabel (hr : r.Faithful) (henv : env.Relabels r other) (value : Value) :
    (value.relabel r).type? other = value.type? env := by
  cases value with
  | call c => exact c.type?_relabel hr henv
  | array a =>
    rw [Value.relabel, Value.type?, Value.type?, ArrayLiteral.type?, ArrayLiteral.type?,
      ArrayLiteral.toElement_relabel, ArrayElement.type?_relabel hr henv]
  | operand o => exact o.type?_relabel hr henv

theorem Payload.type?_relabel (hr : r.Faithful) (henv : env.Relabels r other)
    (payload : Payload) : (payload.relabel r).type? other = payload.type? env := by
  cases payload with
  | call c => exact c.type?_relabel hr henv
  | operand o => exact o.type?_relabel hr henv

end FrontEnd
