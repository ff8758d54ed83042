import FrontEnd.Proofs.Grammar.Tokens
import FrontEnd.Proofs.Grammar.Writing

/-!
The operands that occur in a program, with those inside of others. Each of them is itself written
with tokens of the program.
-/

namespace FrontEnd

/-! ### Operands, from left to right -/

/-- The operand and the operands inside of it. -/
def Operand.parts : Operand → List Operand
  | binary left operator right => .binary left operator right :: (left.parts ++ right.parts)
  | unary operator operand => .unary operator operand :: operand.parts
  | token t => [.token t]
  | numeric value => [.numeric value]

def Call.operands (call : Call) : List Operand :=
  call.arguments.flatMap Operand.parts

mutual

def ArrayElement.operands : ArrayElement → List Operand
  | .operand o => o.parts
  | .array _ elements => ArrayElement.operandsOf elements

def ArrayElement.operandsOf : List ArrayElement → List Operand
  | [] => []
  | element :: rest => element.operands ++ ArrayElement.operandsOf rest

end

theorem ArrayElement.operandsOf_eq_flatMap (elements : List ArrayElement) :
    ArrayElement.operandsOf elements = elements.flatMap ArrayElement.operands := by
  induction elements with
  | nil => rw [operandsOf, List.flatMap_nil]
  | cons element rest ih => rw [operandsOf, ih, List.flatMap_cons]

def Value.operands : Value → List Operand
  | call c => c.operands
  | array a => a.toElement.operands
  | operand o => o.parts

def Payload.operands : Payload → List Operand
  | call c => c.operands
  | operand o => o.parts

def Declaration.operands (declaration : Declaration) : List Operand :=
  declaration.value?.elim [] Value.operands

mutual

def Statement.operands : Statement → List Operand
  | .print _ payload | .ret _ payload | .read _ payload => payload.operands
  | .decision _ condition body alternative =>
    condition.parts ++ Statement.operandsOf body ++ Statement.operandsOfAlternative alternative
  | .declare declaration => declaration.operands
  | .assign _ value => value.operands
  | .loop _ body condition => Statement.operandsOf body ++ condition.parts
  | .call c => c.operands
  | .step _ _ _ => []

def Statement.operandsOf : List Statement → List Operand
  | [] => []
  | statement :: rest => statement.operands ++ Statement.operandsOf rest

def Statement.operandsOfAlternative : Option (List Statement) → List Operand
  | none => []
  | some body => Statement.operandsOf body

end

theorem Statement.operandsOf_eq_flatMap (statements : List Statement) :
    Statement.operandsOf statements = statements.flatMap Statement.operands := by
  induction statements with
  | nil => rw [operandsOf, List.flatMap_nil]
  | cons statement rest ih => rw [operandsOf, ih, List.flatMap_cons]

def FunctionDeclaration.operands (function : FunctionDeclaration) : List Operand :=
  Statement.operandsOf function.body

def CompilationUnit.operands (unit : CompilationUnit) : List Operand :=
  unit.declarations.flatMap Declaration.operands ++
    unit.functions.flatMap FunctionDeclaration.operands ++ Statement.operandsOf unit.statements

namespace Grammar

variable {α : Type} {tokens : List Token}

/-- The operand is written with some of the tokens. -/
def WrittenIn (tokens : List Token) (operand : Operand) : Prop :=
  ∃ taken, taken ⊆ tokens ∧ IsExpression taken operand

theorem WrittenIn.mono {operand : Operand} {more : List Token} (hwritten : WrittenIn tokens operand)
    (hmore : ∀ t ∈ tokens, t ∈ more) : WrittenIn more operand := by
  obtain ⟨taken, hsubset, hoperand⟩ := hwritten
  exact ⟨taken, fun t hmem => hmore t (hsubset hmem), hoperand⟩

/-- The operands of the trees of a language are written with the tokens of these. -/
def Contains (language : List Token → α → Prop) (operands : α → List Operand) : Prop :=
  ∀ ⦃tokens a⦄, language tokens a → ∀ operand ∈ operands a, WrittenIn tokens operand

theorem Contains.of_within {language : List Token → α → Prop} {operands : α → List Operand}
    (hcontains : ∀ limit,
      Contains (fun taken a => language taken a ∧ taken.length ≤ limit) operands) :
    Contains language operands :=
  fun tokens _ hlanguage => hcontains tokens.length ⟨hlanguage, Nat.le_refl _⟩

/-! ### Lists -/

section Lists

variable {item : List Token → α → Prop} {operands : α → List Operand}

theorem Contains.flatMap {items : List Token → List α → Prop} (hitem : Contains item operands)
    (hitems : ∀ {tokens as a}, items tokens as → a ∈ as → ∃ taken, taken ⊆ tokens ∧ item taken a) :
    Contains items (List.flatMap operands) := by
  intro tokens as hlist operand hmem
  obtain ⟨a, ha, hoperand⟩ := List.mem_flatMap.mp hmem
  obtain ⟨taken, hsubset, htaken⟩ := hitems hlist ha
  exact (hitem htaken operand hoperand).mono hsubset

theorem Contains.sequence (hitem : Contains item operands) :
    Contains (Sequence item) (List.flatMap operands) :=
  hitem.flatMap Sequence.exists_of_mem

theorem Contains.separated (hitem : Contains item operands) :
    Contains (Separated item) (List.flatMap operands) :=
  hitem.flatMap Separated.exists_of_mem

theorem Contains.block (hitem : Contains item operands) :
    Contains (Block item) (List.flatMap operands) :=
  hitem.flatMap Block.exists_of_mem

end Lists

/-! ### Operands and values -/

theorem contains_operand (tier : Tier) : Contains (IsOperand tier) Operand.parts := by
  intro tokens operand hoperand
  have hwhole {tier : Tier} {tokens : List Token} {operand : Operand}
      (hoperand : IsOperand tier tokens operand) : WrittenIn tokens operand :=
    ⟨tokens, List.Subset.refl _, hoperand.loosen (Nat.zero_le _)⟩
  induction hoperand with
  | tighter _ ih | atom _ ih => exact ih
  | binary hleft hoperator hright ihleft ihright =>
    simp only [Operand.parts, List.forall_mem_cons, List.forall_mem_append]
    exact ⟨hwhole (.binary hleft hoperator hright),
      fun part hmem => (ihleft part hmem).mono (by simp +contextual),
      fun part hmem => (ihright part hmem).mono (by simp +contextual)⟩
  | negation hnot hoperand ih =>
    simp only [Operand.parts, List.forall_mem_cons]
    exact ⟨hwhole (.negation hnot hoperand),
      fun part hmem => (ih part hmem).mono (by simp +contextual)⟩
  | parenthesized _ _ _ ih => exact fun part hmem => (ih part hmem).mono (by simp +contextual)
  | name hkind => simpa [Operand.parts] using hwhole (.name hkind)
  | string hkind => simpa [Operand.parts] using hwhole (.string hkind)
  | char hkind => simpa [Operand.parts] using hwhole (.char hkind)
  | number hkind => simpa [Operand.parts] using hwhole (.number hkind)
  | signed hsign hkind => simpa [Operand.parts] using hwhole (.signed hsign hkind)

theorem contains_call : Contains IsCall Call.operands := by
  rintro _ _ ⟨-, -, harguments, -⟩ operand hmem
  exact ((contains_operand _).separated harguments operand hmem).mono (by simp +contextual)

/-- Array elements hold elements of fewer tokens. -/
theorem contains_element : Contains IsElement ArrayElement.operands := by
  apply Contains.of_within
  intro limit
  induction limit with
  | zero =>
    rintro tokens element ⟨_ | hoperand, hlength⟩
    · simp at hlength
    · have := hoperand.length_pos
      omega
  | succ limit ih =>
    rintro tokens element ⟨helement, hlength⟩ operand hmem
    cases helement with
    | operand hoperand =>
      rw [ArrayElement.operands] at hmem
      exact contains_operand _ hoperand operand hmem
    | array hopening helements hclosing =>
      simp only [List.length_cons, List.length_append] at hlength
      rw [ArrayElement.operands, ArrayElement.operandsOf_eq_flatMap] at hmem
      have hinner := helements.within (show _ ≤ limit by omega)
      exact (ih.separated hinner operand hmem).mono (by simp +contextual)

theorem contains_value : Contains IsValue Value.operands := by
  intro tokens value hvalue
  cases hvalue with
  | call hcall => exact contains_call hcall
  | array harray => exact contains_element harray
  | operand hoperand => exact contains_operand _ hoperand

theorem contains_payload : Contains IsPayload Payload.operands := by
  intro tokens payload hpayload
  cases hpayload with
  | call hcall => exact contains_call hcall
  | operand hoperand => exact contains_operand _ hoperand

/-! ### Declarations and statements -/

theorem contains_declaration : Contains IsDeclaration Declaration.operands := by
  intro tokens declaration hdeclaration operand hmem
  cases hdeclaration with
  | ofVariable hvariable =>
    cases hvariable with
    | bare => cases hmem
    | initialized _ _ _ hvalue _ =>
      exact (contains_value hvalue operand hmem).mono (by simp +contextual)
  | ofConstant hconstant =>
    cases hconstant with
    | mk _ _ _ hvalue _ => exact (contains_value hvalue operand hmem).mono (by simp +contextual)

/-- Statements hold statements of fewer tokens. -/
theorem contains_statement : Contains IsStatement Statement.operands := by
  apply Contains.of_within
  intro limit
  induction limit with
  | zero =>
    rintro tokens statement ⟨hstatement, hlength⟩
    obtain ⟨first, rest, rfl, -⟩ := hstatement.starts
    simp at hlength
  | succ limit ih =>
    rintro tokens statement ⟨hstatement, hlength⟩ operand hmem
    cases hstatement with
    | print _ hpayload _ | ret _ hpayload _ | read _ hpayload _ =>
      rw [Statement.operands] at hmem
      exact (contains_payload hpayload operand hmem).mono (by simp +contextual)
    | decision _ _ hcondition _ hbody =>
      simp only [List.length_cons, List.length_append] at hlength
      have hinner := hbody.within (show _ ≤ limit by omega)
      rw [Statement.operands, Statement.operandsOf_eq_flatMap, Statement.operandsOfAlternative,
        List.append_nil, List.mem_append] at hmem
      rcases hmem with hmem | hmem
      · exact (contains_operand _ hcondition operand hmem).mono (by simp +contextual)
      · exact (ih.block hinner operand hmem).mono (by simp +contextual)
    | decisionWithAlternative _ _ hcondition _ hbody _ halternative =>
      simp only [List.length_cons, List.length_append] at hlength
      have hinner := hbody.within (show _ ≤ limit by omega)
      have hother := halternative.within (show _ ≤ limit by omega)
      rw [Statement.operands, Statement.operandsOf_eq_flatMap, Statement.operandsOfAlternative,
        Statement.operandsOf_eq_flatMap, List.mem_append, List.mem_append] at hmem
      rcases hmem with (hmem | hmem) | hmem
      · exact (contains_operand _ hcondition operand hmem).mono (by simp +contextual)
      · exact (ih.block hinner operand hmem).mono (by simp +contextual)
      · exact (ih.block hother operand hmem).mono (by simp +contextual)
    | declare hdeclaration =>
      rw [Statement.operands] at hmem
      exact contains_declaration hdeclaration operand hmem
    | assign _ _ hvalue _ =>
      rw [Statement.operands] at hmem
      exact (contains_value hvalue operand hmem).mono (by simp +contextual)
    | loop _ hbody _ _ hcondition _ _ =>
      simp only [List.length_cons, List.length_append] at hlength
      have hinner := hbody.within (show _ ≤ limit by omega)
      rw [Statement.operands, Statement.operandsOf_eq_flatMap, List.mem_append] at hmem
      rcases hmem with hmem | hmem
      · exact (ih.block hinner operand hmem).mono (by simp +contextual)
      · exact (contains_operand _ hcondition operand hmem).mono (by simp +contextual)
    | call hcall _ =>
      rw [Statement.operands] at hmem
      exact (contains_call hcall operand hmem).mono (by simp +contextual)
    | increment | decrement =>
      rw [Statement.operands] at hmem
      cases hmem

/-! ### Functions and programs -/

theorem contains_function : Contains IsFunction FunctionDeclaration.operands := by
  rintro _ _ ⟨-, -, -, -, -, hbody⟩ operand hmem
  rw [FunctionDeclaration.operands, Statement.operandsOf_eq_flatMap] at hmem
  exact (contains_statement.block hbody operand hmem).mono (by simp +contextual)

theorem contains_unit : Contains IsUnit CompilationUnit.operands := by
  rintro _ _ ⟨hdeclarations, hfunctions, hstatements⟩ operand hmem
  rw [CompilationUnit.operands, Statement.operandsOf_eq_flatMap, List.mem_append,
    List.mem_append] at hmem
  rcases hmem with (hmem | hmem) | hmem
  · exact (contains_declaration.sequence hdeclarations operand hmem).mono (by simp +contextual)
  · exact (contains_function.sequence hfunctions operand hmem).mono (by simp +contextual)
  · exact (contains_statement.sequence hstatements operand hmem).mono (by simp +contextual)

end Grammar

end FrontEnd
