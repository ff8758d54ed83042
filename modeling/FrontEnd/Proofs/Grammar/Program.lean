import FrontEnd.Proofs.Grammar.Operand
import FrontEnd.Syntax.Statement

/-!
The grammar of values, statements and programs, as relations between lists of tokens and syntax
trees. A program is a list of declarations, a list of functions and a list of statements.
-/

namespace FrontEnd.Grammar

variable {α : Type}

/-- Items one after the other. -/
inductive Sequence (item : List Token → α → Prop) : List Token → List α → Prop
  | nil : Sequence item [] []
  | cons {first rest : List Token} {a : α} {as : List α} :
    item first a → Sequence item rest as → Sequence item (first ++ rest) (a :: as)

/-- An item with a comma before it. -/
inductive AfterComma (item : List Token → α → Prop) : List Token → α → Prop
  | mk {comma : Token} {tokens : List Token} {a : α} :
    comma.kind = .comma → item tokens a → AfterComma item (comma :: tokens) a

/-- Items with commas between them, possibly none. -/
inductive Separated (item : List Token → α → Prop) : List Token → List α → Prop
  | none : Separated item [] []
  | some {first rest : List Token} {a : α} {as : List α} :
    item first a → Sequence (AfterComma item) rest as → Separated item (first ++ rest) (a :: as)

/-- Items in braces. -/
inductive Block (item : List Token → α → Prop) : List Token → List α → Prop
  | mk {opening closing : Token} {tokens : List Token} {as : List α} :
    opening.kind = .leftBrace → Sequence item tokens as → closing.kind = .rightBrace →
    Block item (opening :: (tokens ++ [closing])) as

/-- A terminator that may be left out. -/
inductive OptionalTerminator : List Token → Prop
  | absent : OptionalTerminator []
  | present {hash : Token} : hash.kind = .terminator → OptionalTerminator [hash]

inductive IsCall : List Token → Call → Prop
  | mk {name opening closing : Token} {tokens : List Token} {arguments : List Operand} :
    name.kind = .identifier → opening.kind = .leftParen →
    Separated IsExpression tokens arguments → closing.kind = .rightParen →
    IsCall (name :: opening :: (tokens ++ [closing])) ⟨name, arguments⟩

inductive IsElement : List Token → ArrayElement → Prop
  | array {opening closing : Token} {tokens : List Token} {elements : List ArrayElement} :
    opening.kind = .leftBracket → Separated IsElement tokens elements →
    closing.kind = .rightBracket →
    IsElement (opening :: (tokens ++ [closing])) (.array opening elements)
  | operand {tokens : List Token} {operand : Operand} :
    IsExpression tokens operand → IsElement tokens (.operand operand)

/-- An array is written like an element that is an array. -/
def IsArray (tokens : List Token) (array : ArrayLiteral) : Prop :=
  IsElement tokens array.toElement

inductive IsValue : List Token → Value → Prop
  | call {tokens : List Token} {call : Call} : IsCall tokens call → IsValue tokens (.call call)
  | array {tokens : List Token} {array : ArrayLiteral} :
    IsArray tokens array → IsValue tokens (.array array)
  | operand {tokens : List Token} {operand : Operand} :
    IsExpression tokens operand → IsValue tokens (.operand operand)

inductive IsPayload : List Token → Payload → Prop
  | call {tokens : List Token} {call : Call} : IsCall tokens call → IsPayload tokens (.call call)
  | operand {tokens : List Token} {operand : Operand} :
    IsExpression tokens operand → IsPayload tokens (.operand operand)

inductive IsVariable : List Token → VariableDeclaration → Prop
  | bare {word name hash : Token} :
    word.kind = .keyword .var → name.kind = .identifier → hash.kind = .terminator →
    IsVariable [word, name, hash] ⟨word, name, none⟩
  | initialized {word name equals hash : Token} {tokens : List Token} {value : Value} :
    word.kind = .keyword .var → name.kind = .identifier → equals.kind = .assignment .set →
    IsValue tokens value → hash.kind = .terminator →
    IsVariable (word :: name :: equals :: (tokens ++ [hash])) ⟨word, name, some value⟩

inductive IsConstant : List Token → ConstantDeclaration → Prop
  | mk {word name equals hash : Token} {tokens : List Token} {value : Value} :
    word.kind = .keyword .const → name.kind = .identifier → equals.kind = .assignment .set →
    IsValue tokens value → hash.kind = .terminator →
    IsConstant (word :: name :: equals :: (tokens ++ [hash])) ⟨word, name, value⟩

inductive IsDeclaration : List Token → Declaration → Prop
  | ofVariable {tokens : List Token} {declaration : VariableDeclaration} :
    IsVariable tokens declaration → IsDeclaration tokens (.ofVariable declaration)
  | ofConstant {tokens : List Token} {declaration : ConstantDeclaration} :
    IsConstant tokens declaration → IsDeclaration tokens (.ofConstant declaration)

inductive IsStatement : List Token → Statement → Prop
  | print {word hash : Token} {tokens : List Token} {payload : Payload} :
    word.kind = .keyword .print → IsPayload tokens payload → hash.kind = .terminator →
    IsStatement (word :: (tokens ++ [hash])) (.print word payload)
  | ret {word hash : Token} {tokens : List Token} {payload : Payload} :
    word.kind = .keyword .ret → IsPayload tokens payload → hash.kind = .terminator →
    IsStatement (word :: (tokens ++ [hash])) (.ret word payload)
  | read {word hash : Token} {tokens : List Token} {payload : Payload} :
    word.kind = .keyword .read → IsPayload tokens payload → hash.kind = .terminator →
    IsStatement (word :: (tokens ++ [hash])) (.read word payload)
  | decision {word opening closing : Token} {tokens bodyTokens : List Token}
      {condition : Operand} {body : List Statement} :
    word.kind = .keyword .branch → opening.kind = .leftParen → IsExpression tokens condition →
    closing.kind = .rightParen → Block IsStatement bodyTokens body →
    IsStatement (word :: opening :: (tokens ++ closing :: bodyTokens))
      (.decision word condition body none)
  | decisionWithAlternative {word opening closing otherwise : Token}
      {tokens bodyTokens alternativeTokens : List Token} {condition : Operand}
      {body alternative : List Statement} :
    word.kind = .keyword .branch → opening.kind = .leftParen → IsExpression tokens condition →
    closing.kind = .rightParen → Block IsStatement bodyTokens body →
    otherwise.kind = .keyword .otherwise → Block IsStatement alternativeTokens alternative →
    IsStatement
      (word :: opening :: (tokens ++ closing :: (bodyTokens ++ otherwise :: alternativeTokens)))
      (.decision word condition body (some alternative))
  | declare {tokens : List Token} {declaration : Declaration} :
    IsDeclaration tokens declaration → IsStatement tokens (.declare declaration)
  | assign {target equals hash : Token} {tokens : List Token} {value : Value} :
    target.kind = .identifier → equals.kind = .assignment .set → IsValue tokens value →
    hash.kind = .terminator →
    IsStatement (target :: equals :: (tokens ++ [hash])) (.assign target value)
  | loop {word whilst opening closing hash : Token} {bodyTokens tokens : List Token}
      {body : List Statement} {condition : Operand} :
    word.kind = .keyword .loop → Block IsStatement bodyTokens body →
    whilst.kind = .keyword .whilst → opening.kind = .leftParen →
    IsExpression tokens condition → closing.kind = .rightParen → hash.kind = .terminator →
    IsStatement (word :: (bodyTokens ++ whilst :: opening :: (tokens ++ [closing, hash])))
      (.loop word body condition)
  | call {tokens ending : List Token} {call : Call} :
    IsCall tokens call → OptionalTerminator ending → IsStatement (tokens ++ ending) (.call call)
  | increment {target operator : Token} {ending : List Token} :
    target.kind = .identifier → operator.kind = .increment → OptionalTerminator ending →
    IsStatement (target :: operator :: ending) (.step .increment target operator)
  | decrement {target operator : Token} {ending : List Token} :
    target.kind = .identifier → operator.kind = .decrement → OptionalTerminator ending →
    IsStatement (target :: operator :: ending) (.step .decrement target operator)

inductive IsParameter : List Token → Parameter → Prop
  | mk {word name : Token} {keyword : Keyword} {type : ValueType} :
    word.kind = .keyword keyword → ValueType.ofKeyword? keyword = some type →
    name.kind = .identifier → IsParameter [word, name] ⟨word, type, name⟩

inductive IsFunction : List Token → FunctionDeclaration → Prop
  | mk {word name opening closing : Token} {tokens bodyTokens : List Token}
      {parameters : List Parameter} {body : List Statement} :
    word.kind = .keyword .action → name.kind = .identifier → opening.kind = .leftParen →
    Separated IsParameter tokens parameters → closing.kind = .rightParen →
    Block IsStatement bodyTokens body →
    IsFunction (word :: name :: opening :: (tokens ++ closing :: bodyTokens))
      ⟨word, name, parameters, body⟩

inductive IsUnit : List Token → CompilationUnit → Prop
  | mk {declarationTokens functionTokens statementTokens : List Token}
      {declarations : List Declaration} {functions : List FunctionDeclaration}
      {statements : List Statement} :
    Sequence IsDeclaration declarationTokens declarations →
    Sequence IsFunction functionTokens functions →
    Sequence IsStatement statementTokens statements →
    IsUnit (declarationTokens ++ functionTokens ++ statementTokens)
      ⟨declarations, functions, statements⟩

theorem IsArray.starts {tokens : List Token} {array : ArrayLiteral}
    (harray : IsArray tokens array) :
    ∃ first rest, tokens = first :: rest ∧ first.kind = .leftBracket := by
  cases harray with
  | array hopening _ _ => exact ⟨_, _, rfl, hopening⟩

theorem IsCall.starts {tokens : List Token} {call : Call} (hcall : IsCall tokens call) :
    ∃ first rest, tokens = first :: rest ∧ first.kind = .identifier := by
  cases hcall with
  | mk hname _ _ _ => exact ⟨_, _, rfl, hname⟩

theorem IsVariable.starts {tokens : List Token} {declaration : VariableDeclaration}
    (hvariable : IsVariable tokens declaration) :
    ∃ first rest, tokens = first :: rest ∧ first.kind = .keyword .var := by
  cases hvariable with
  | bare hword _ _ => exact ⟨_, _, rfl, hword⟩
  | initialized hword _ _ _ _ => exact ⟨_, _, rfl, hword⟩

theorem IsConstant.starts {tokens : List Token} {declaration : ConstantDeclaration}
    (hconstant : IsConstant tokens declaration) :
    ∃ first rest, tokens = first :: rest ∧ first.kind = .keyword .const := by
  cases hconstant with
  | mk hword _ _ _ _ => exact ⟨_, _, rfl, hword⟩

theorem IsDeclaration.starts {tokens : List Token} {declaration : Declaration}
    (hdeclaration : IsDeclaration tokens declaration) :
    ∃ first rest, tokens = first :: rest ∧
      (first.kind = .keyword .var ∨ first.kind = .keyword .const) := by
  cases hdeclaration with
  | ofVariable hvariable =>
    obtain ⟨first, rest, htokens, hfirst⟩ := hvariable.starts
    exact ⟨first, rest, htokens, .inl hfirst⟩
  | ofConstant hconstant =>
    obtain ⟨first, rest, htokens, hfirst⟩ := hconstant.starts
    exact ⟨first, rest, htokens, .inr hfirst⟩

/-- The kinds of token that a statement can start with. -/
def startsStatement : TokenKind → Prop
  | .keyword .print | .keyword .ret | .keyword .read | .keyword .branch | .keyword .var
  | .keyword .const | .keyword .loop | .identifier => True
  | _ => False

/-- A statement starts like a declaration exactly if it is one. -/
theorem IsStatement.starts {tokens : List Token} {statement : Statement}
    (hstatement : IsStatement tokens statement) :
    ∃ first rest, tokens = first :: rest ∧ startsStatement first.kind ∧
      (first.kind = .keyword .var ∨ first.kind = .keyword .const →
        ∃ declaration, statement = .declare declaration) := by
  cases hstatement with
  | print hword _ _ | ret hword _ _ | read hword _ _ =>
    exact ⟨_, _, rfl, by simp [hword, startsStatement], by simp [hword]⟩
  | decision hword _ _ _ _ | decisionWithAlternative hword _ _ _ _ _ _ =>
    exact ⟨_, _, rfl, by simp [hword, startsStatement], by simp [hword]⟩
  | declare hdeclaration =>
    obtain ⟨first, rest, rfl, hfirst⟩ := hdeclaration.starts
    refine ⟨first, rest, rfl, ?_, fun _ => ⟨_, rfl⟩⟩
    rcases hfirst with hfirst | hfirst <;> simp [hfirst, startsStatement]
  | assign htarget _ _ _ =>
    exact ⟨_, _, rfl, by simp [htarget, startsStatement], by simp [htarget]⟩
  | loop hword _ _ _ _ _ _ =>
    exact ⟨_, _, rfl, by simp [hword, startsStatement], by simp [hword]⟩
  | call hcall _ =>
    obtain ⟨first, rest, rfl, hfirst⟩ := hcall.starts
    exact ⟨first, _, rfl, by simp [hfirst, startsStatement], by simp [hfirst]⟩
  | increment htarget _ _ | decrement htarget _ _ =>
    exact ⟨_, _, rfl, by simp [htarget, startsStatement], by simp [htarget]⟩

theorem IsFunction.starts {tokens : List Token} {function : FunctionDeclaration}
    (hfunction : IsFunction tokens function) :
    ∃ first rest, tokens = first :: rest ∧ first.kind = .keyword .action := by
  cases hfunction with
  | mk hword _ _ _ _ _ => exact ⟨_, _, rfl, hword⟩

theorem Sequence.mono {item image : List Token → α → Prop} {tokens : List Token} {as : List α}
    (hitems : Sequence item tokens as) (himage : ∀ {taken a}, item taken a → image taken a) :
    Sequence image tokens as := by
  induction hitems with
  | nil => exact .nil
  | cons hfirst _ ih => exact .cons (himage hfirst) ih

theorem Sequence.within {item : List Token → α → Prop} {limit : Nat} {tokens : List Token}
    {as : List α} (hitems : Sequence item tokens as) (hlength : tokens.length ≤ limit) :
    Sequence (fun taken a => item taken a ∧ taken.length ≤ limit) tokens as := by
  induction hitems with
  | nil => exact .nil
  | cons hfirst _ ih =>
    rw [List.length_append] at hlength
    exact .cons ⟨hfirst, by omega⟩ (ih (by omega))

theorem Separated.within {item : List Token → α → Prop} {limit : Nat} {tokens : List Token}
    {as : List α} (hitems : Separated item tokens as) (hlength : tokens.length ≤ limit) :
    Separated (fun taken a => item taken a ∧ taken.length ≤ limit) tokens as := by
  cases hitems with
  | none => exact .none
  | some hfirst hothers =>
    rw [List.length_append] at hlength
    have hothers := hothers.within (show _ ≤ limit by omega)
    refine .some ⟨hfirst, by omega⟩ (hothers.mono ?_)
    rintro _ a ⟨⟨hcomma, hitem⟩, hcount⟩
    rw [List.length_cons] at hcount
    exact .mk hcomma ⟨hitem, by omega⟩

/-! Each of the items of a list is derived from tokens of the list. -/

section Members

variable {item : List Token → α → Prop} {tokens : List Token} {as : List α} {a : α}

theorem Sequence.exists_of_mem (hitems : Sequence item tokens as) (hmem : a ∈ as) :
    ∃ taken, taken ⊆ tokens ∧ item taken a := by
  induction hitems with
  | nil => cases hmem
  | cons hfirst _ ih =>
    rcases List.mem_cons.mp hmem with rfl | hmem
    · exact ⟨_, List.subset_append_left _ _, hfirst⟩
    · obtain ⟨taken, hsubset, ha⟩ := ih hmem
      exact ⟨taken, List.Subset.trans hsubset (List.subset_append_right _ _), ha⟩

theorem Separated.exists_of_mem (hitems : Separated item tokens as) (hmem : a ∈ as) :
    ∃ taken, taken ⊆ tokens ∧ item taken a := by
  cases hitems with
  | none => cases hmem
  | some hfirst hothers =>
    rcases List.mem_cons.mp hmem with rfl | hmem
    · exact ⟨_, List.subset_append_left _ _, hfirst⟩
    · obtain ⟨_, hsubset, ⟨_, ha⟩⟩ := hothers.exists_of_mem hmem
      have hinside := List.Subset.trans (List.subset_cons_self _ _) hsubset
      exact ⟨_, List.Subset.trans hinside (List.subset_append_right _ _), ha⟩

theorem Block.exists_of_mem (hitems : Block item tokens as) (hmem : a ∈ as) :
    ∃ taken, taken ⊆ tokens ∧ item taken a := by
  cases hitems with
  | mk _ hitems _ =>
    obtain ⟨taken, hsubset, ha⟩ := hitems.exists_of_mem hmem
    refine ⟨taken, List.Subset.trans hsubset ?_, ha⟩
    exact List.Subset.trans (List.subset_append_left _ _) (List.subset_cons_self _ _)

end Members

end FrontEnd.Grammar
