import FrontEnd.Analysis.Check

/-!
Arrays hold values of one type. The check of an array compares its elements with the first one, by
the types of the operands that come first in them. Where no array is empty and every operand has a
type, these comparisons all together say that all operands, however deep they stand, have one type.
-/

namespace FrontEnd

/-! ### Reports on elements -/

/-- Whether the report is about an element that does not fit the first one. -/
def Diagnostic.isElementMismatch (diagnostic : Diagnostic) : Bool :=
  match diagnostic.problem with
  | .inMeaning (.elementMismatch _ _ _) => true
  | _ => false

/-- No element is reported for not fitting the first one, whatever else is reported. -/
def FindsNoMismatch (diagnostics : List Diagnostic) : Prop :=
  ∀ d ∈ diagnostics, d.isElementMismatch = false

theorem findsNoMismatch_nil : FindsNoMismatch [] :=
  List.forall_mem_nil _

theorem findsNoMismatch_singleton {diagnostic : Diagnostic} :
    FindsNoMismatch [diagnostic] ↔ diagnostic.isElementMismatch = false :=
  List.forall_mem_singleton

theorem findsNoMismatch_append {first second : List Diagnostic} :
    FindsNoMismatch (first ++ second) ↔ FindsNoMismatch first ∧ FindsNoMismatch second :=
  List.forall_mem_append

theorem Operand.checkOperator_findsNoMismatch (env : Environment) (left right : Operand)
    (operator : Token) : FindsNoMismatch (checkOperator env left operator right) := by
  unfold checkOperator
  dsimp only
  split
  · exact findsNoMismatch_nil
  · split
    · split
      · exact findsNoMismatch_nil
      · exact findsNoMismatch_singleton.mpr rfl
    · split
      · exact findsNoMismatch_singleton.mpr rfl
      · exact findsNoMismatch_nil
    · exact findsNoMismatch_nil

/-- An operand has no elements. -/
theorem Operand.check_findsNoMismatch (env : Environment) (operand : Operand) :
    FindsNoMismatch (operand.check env) := by
  induction operand with
  | binary left operator right ihleft ihright =>
    rw [check, findsNoMismatch_append, findsNoMismatch_append]
    exact ⟨⟨ihleft, ihright⟩, checkOperator_findsNoMismatch env left right operator⟩
  | unary operator operand ih => exact ih
  | token t =>
    rw [check]
    split
    · exact findsNoMismatch_singleton.mpr rfl
    · exact findsNoMismatch_nil
  | numeric value => exact findsNoMismatch_nil

namespace ArrayElement

/-! ### The operands of an array -/

mutual

/-- The operands of an element, at all depths and from left to right. -/
def leaves : ArrayElement → List Operand
  | .operand o => [o]
  | .array _ elements => leavesOf elements

/-- The operands of elements, one element after the other. -/
def leavesOf : List ArrayElement → List Operand
  | [] => []
  | element :: rest => element.leaves ++ leavesOf rest

end

/-- Neither the element nor anything in it is an empty array. -/
inductive IsFilled : ArrayElement → Prop
  | operand (operand : Operand) : IsFilled (.operand operand)
  | array {bracket : Token} {first : ArrayElement} {rest : List ArrayElement}
      (hfirst : IsFilled first) (hrest : ∀ element ∈ rest, IsFilled element) :
      IsFilled (.array bracket (first :: rest))

/-- All operands of an element have the type. -/
def IsUniform (env : Environment) (type : ValueType) (element : ArrayElement) : Prop :=
  ∀ leaf ∈ element.leaves, leaf.type? env = some type

variable {env : Environment}

theorem mem_leavesOf {leaf : Operand} {elements : List ArrayElement} :
    leaf ∈ leavesOf elements ↔ ∃ element ∈ elements, leaf ∈ element.leaves := by
  induction elements with
  | nil => simp [leavesOf]
  | cons element rest ih => simp [leavesOf, ih]

theorem isUniform_operand {operand : Operand} {type : ValueType} :
    (ArrayElement.operand operand).IsUniform env type ↔ operand.type? env = some type := by
  rw [IsUniform, leaves, List.forall_mem_singleton]

/-- An array is uniform if its elements are, all for the same type. -/
theorem isUniform_array {bracket : Token} {elements : List ArrayElement} {type : ValueType} :
    (ArrayElement.array bracket elements).IsUniform env type ↔
      ∀ element ∈ elements, element.IsUniform env type := by
  rw [IsUniform, leaves]
  simp only [mem_leavesOf, IsUniform]
  exact ⟨fun h element hmem leaf hleaf => h leaf ⟨element, hmem, hleaf⟩,
    fun h leaf ⟨element, hmem, hleaf⟩ => h element hmem leaf hleaf⟩

theorem findsNoMismatch_checkAll {elements : List ArrayElement} :
    FindsNoMismatch (checkAll env elements) ↔
      ∀ element ∈ elements, FindsNoMismatch (element.check env) := by
  induction elements with
  | nil => simp [checkAll, FindsNoMismatch]
  | cons element rest ih => rw [checkAll, findsNoMismatch_append, ih, List.forall_mem_cons]

/-- Elements whose types are known fit the first one if they have its type. -/
theorem findsNoMismatch_mismatches {first : ArrayElement} {rest : List ArrayElement}
    {expected : ValueType} (hfirst : first.type? env = some expected)
    (hrest : ∀ element ∈ rest, ∃ found, element.type? env = some found) :
    FindsNoMismatch (mismatches env (first :: rest)) ↔
      ∀ element ∈ rest, element.type? env = some expected := by
  rw [mismatches, hfirst]
  dsimp only
  constructor
  · intro hsilent element hmem
    obtain ⟨found, hfound⟩ := hrest element hmem
    by_cases hsame : found = expected
    · rw [hfound, hsame]
    · have hreported := hsilent _ (List.mem_filterMap.mpr
        ⟨element, hmem, by rw [hfound, Option.filter_some, decide_eq_true hsame]; rfl⟩)
      cases hreported
  · intro hsame d hmem
    obtain ⟨element, helement, hreport⟩ := List.mem_filterMap.mp hmem
    obtain ⟨found, hreported, -⟩ := Option.map_eq_some_iff.mp hreport
    obtain ⟨hfound, hother⟩ := Option.filter_eq_some_iff.mp hreported
    rw [hsame element helement, Option.some.injEq] at hfound
    exact absurd hfound.symm (of_decide_eq_true hother)

/-- An element has the type that all its operands have. -/
theorem IsFilled.type?_eq {element : ArrayElement} (hfilled : element.IsFilled) {type : ValueType}
    (huniform : element.IsUniform env type) : element.type? env = some type := by
  induction hfilled with
  | operand operand =>
    rw [ArrayElement.type?]
    exact isUniform_operand.mp huniform
  | array hfirst hrest ihfirst ihrest =>
    rw [ArrayElement.type?]
    exact ihfirst (isUniform_array.mp huniform _ List.mem_cons_self)

/-- Among elements whose operands agree, the type tells which type they agree on. -/
theorem IsFilled.isUniform_iff {element : ArrayElement} (hfilled : element.IsFilled)
    (hagree : ∃ found, element.IsUniform env found) {type : ValueType} :
    element.IsUniform env type ↔ element.type? env = some type := by
  refine ⟨hfilled.type?_eq, fun htype => ?_⟩
  obtain ⟨found, huniform⟩ := hagree
  have hsame : found = type := Option.some.inj ((hfilled.type?_eq huniform).symm.trans htype)
  exact hsame ▸ huniform

/-- Where every operand has a type, nothing is reported exactly if they all have the same one. -/
theorem IsFilled.findsNoMismatch_iff {element : ArrayElement} (hfilled : element.IsFilled)
    (hknown : ∀ leaf ∈ element.leaves, (leaf.type? env).isSome = true) :
    FindsNoMismatch (element.check env) ↔ ∃ type, element.IsUniform env type := by
  induction hfilled with
  | operand operand =>
    rw [leaves, List.forall_mem_singleton, Option.isSome_iff_exists] at hknown
    simp only [isUniform_operand, hknown, iff_true]
    rw [check]
    exact operand.check_findsNoMismatch env
  | @array bracket first rest hfirst hrest ihfirst ihrest =>
    simp only [leaves, mem_leavesOf] at hknown
    have hinside {element : ArrayElement} (hmem : element ∈ first :: rest) :
        ∀ leaf ∈ element.leaves, (leaf.type? env).isSome = true :=
      fun leaf hleaf => hknown leaf ⟨element, hmem, hleaf⟩
    have ihfirst := ihfirst (hinside List.mem_cons_self)
    have ihrest := fun element hmem => ihrest element hmem (hinside (List.mem_cons_of_mem _ hmem))
    rw [check, findsNoMismatch_append, findsNoMismatch_checkAll, List.forall_mem_cons]
    simp only [isUniform_array, List.forall_mem_cons]
    constructor
    · rintro ⟨⟨hsilentFirst, hsilentRest⟩, hagree⟩
      obtain ⟨type, huniform⟩ := ihfirst.mp hsilentFirst
      have htypes : ∀ element ∈ rest, ∃ found, element.IsUniform env found :=
        fun element hmem => (ihrest element hmem).mp (hsilentRest element hmem)
      have hfit := (findsNoMismatch_mismatches (hfirst.type?_eq huniform) fun element hmem =>
        (htypes element hmem).imp fun _ => (hrest element hmem).type?_eq).mp hagree
      exact ⟨type, huniform, fun element hmem =>
        ((hrest element hmem).isUniform_iff (htypes element hmem)).mpr (hfit element hmem)⟩
    · rintro ⟨type, huniform, hothers⟩
      have hfit : ∀ element ∈ rest, element.type? env = some type :=
        fun element hmem => (hrest element hmem).type?_eq (hothers element hmem)
      exact ⟨⟨ihfirst.mpr ⟨type, huniform⟩,
          fun element hmem => (ihrest element hmem).mpr ⟨type, hothers element hmem⟩⟩,
        (findsNoMismatch_mismatches (hfirst.type?_eq huniform) fun element hmem =>
          ⟨type, hfit element hmem⟩).mpr hfit⟩

end ArrayElement

namespace ArrayLiteral

/-- The operands in an array, at all depths and from left to right. -/
def leaves (array : ArrayLiteral) : List Operand :=
  array.toElement.leaves

/-- Neither the array nor an array in it is empty. -/
def IsFilled (array : ArrayLiteral) : Prop :=
  array.toElement.IsFilled

/-- If no array in it is empty and all its operands have types, then no element of an array is
reported for its type, at any depth, exactly if all operands have one and the same type. This is the
type of the array. -/
theorem findsNoMismatch_check_iff (env : Environment) {array : ArrayLiteral}
    (hfilled : array.IsFilled)
    (hknown : ∀ leaf ∈ array.leaves, (leaf.type? env).isSome = true) :
    (FindsNoMismatch (array.toElement.check env) ↔
        ∃ type, ∀ leaf ∈ array.leaves, leaf.type? env = some type) ∧
      ∀ type, (∀ leaf ∈ array.leaves, leaf.type? env = some type) →
        array.type? env = some type :=
  ⟨hfilled.findsNoMismatch_iff hknown, fun _ huniform => hfilled.type?_eq huniform⟩

/-- An array of arrays of different depths, in which an undeclared name stands in a product:
`[[1, @x * 2], [[3]]]`. -/
def nestedIntegers : ArrayLiteral :=
  let word (kind : TokenKind) (lexeme : String) (column : Nat) : Token :=
    ⟨kind, lexeme, ⟨0, column, ⟨column, column + lexeme.utf8ByteSize⟩⟩⟩
  let number (lexeme : String) (column : Nat) : Operand :=
    .numeric ⟨none, word .integer lexeme column⟩
  let product := Operand.binary (.token (word .identifier "@x" 5))
    (word (.arithmetic .mul) "*" 8) (number "2" 10)
  ⟨word .leftBracket "[" 0,
    [.array (word .leftBracket "[" 1) [.operand (number "1" 2), .operand product],
      .array (word .leftBracket "[" 14)
        [.array (word .leftBracket "[" 15) [.operand (number "3" 16)]]]⟩

/-- The undeclared name is reported, but no element is. -/
theorem findsNoMismatch_check_nestedIntegers :
    nestedIntegers.IsFilled ∧
      (∀ leaf ∈ nestedIntegers.leaves, (leaf.type? ⟨∅, .unit⟩).isSome = true) ∧
      nestedIntegers.toElement.check ⟨∅, .unit⟩ ≠ [] ∧
      FindsNoMismatch (nestedIntegers.toElement.check ⟨∅, .unit⟩) ∧
      nestedIntegers.type? ⟨∅, .unit⟩ = some .integer := by
  have hfilled : nestedIntegers.IsFilled := by
    refine .array (.array (.operand _) ?_) ?_
    · simpa using .operand _
    · simpa using .array (.array (.operand _) (by simp)) (by simp)
  have hleaves : ∀ leaf ∈ nestedIntegers.leaves, leaf.type? ⟨∅, .unit⟩ = some .integer := by
    decide +kernel
  have hknown : ∀ leaf ∈ nestedIntegers.leaves, (leaf.type? ⟨∅, .unit⟩).isSome = true := by
    decide +kernel
  obtain ⟨hsilent, htype⟩ := findsNoMismatch_check_iff ⟨∅, .unit⟩ hfilled hknown
  exact ⟨hfilled, hknown, by decide +kernel, hsilent.mpr ⟨.integer, hleaves⟩, htype _ hleaves⟩

end ArrayLiteral

end FrontEnd
