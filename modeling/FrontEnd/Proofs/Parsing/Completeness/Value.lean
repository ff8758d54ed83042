import FrontEnd.Parsing.Statement
import FrontEnd.Proofs.Parsing.Operand
import FrontEnd.Proofs.Parsing.Silent

/-!
Operands, values and declarations are taken in full where the grammar derives them and the next
token cannot belong to them, as the trees of their derivations and without a recorded failure.
-/

namespace FrontEnd.Parser

open Grammar

/-- What follows an operand in a program: nothing that could extend it. -/
abbrev EndsOperand (rest : List Token) : Prop :=
  (Tier.binary .concatenation).EndsBefore rest

theorem operand_reads {taken rest : List Token} {value : Operand}
    (hvalue : IsExpression taken value) (hrest : EndsOperand rest) :
    operand.Reads (taken ++ rest) value rest := by
  intro retry
  simp [operand, ofFunction, readOperand?_append hvalue hrest]

theorem operand_refuses {tokens : List Token} (hhead : ∀ t ∈ tokens.head?, ¬ startsOperand t.kind) :
    operand.Refuses tokens := by
  intro retry failures
  have hread : readOperand? tokens = none := by
    rw [Option.eq_none_iff_forall_ne_some]
    rintro ⟨value, rest⟩ hread
    obtain ⟨taken, rfl, htaken⟩ := isExpression_of_readOperand? hread
    obtain ⟨first, more, rfl, hfirst⟩ := htaken.starts
    exact hhead first rfl hfirst
  simp [operand, ofFunction, hread]

theorem endsOperand_comma {comma : Token} (hcomma : comma.kind = .comma) (rest : List Token) :
    EndsOperand (comma :: rest) :=
  Tier.endsBefore_cons (by rw [hcomma]; rfl) _ rest

theorem call_reads {taken : List Token} {called : Call} (hcall : IsCall taken called)
    (rest : List Token) : call.Reads (taken ++ rest) called rest := by
  cases hcall with
  | @mk name opening closing tokens arguments hname hopening harguments hclosing =>
    have hread (site : Site) : (site.separated .nextArgument operand).Reads
        (tokens ++ closing :: rest) arguments (closing :: rest) :=
      reads_separated (fun _ _ _ => operand_reads) (fun _ => endsOperand_comma) harguments
        (Tier.endsBefore_cons (by rw [hclosing]; rfl) _ rest)
        (operand_refuses (by simp [hclosing, startsOperand])) (by simp [hclosing])
    simp only [List.cons_append, List.append_assoc, List.nil_append]
    refine (reads_token hname _).bind ?_
    refine (reads_token hopening _).bind ?_
    refine (reads_commit _ _).bind ?_
    refine (hread _).bind ?_
    exact ((reads_token hclosing rest).require _ _).bind reads_pure

theorem call_needs : call.Needs .identifier :=
  (needs_token .identifier).bind _

/-- A name that no opening parenthesis follows is not a call. -/
theorem call_refuses {name : Token} {rest : List Token}
    (hnext : ∀ t ∈ rest.head?, t.kind ≠ .leftParen) : call.Refuses (name :: rest) := by
  by_cases hname : name.kind = .identifier
  · exact refuses_token_bind hname ((needs_token .leftParen hnext).bind _)
  · exact call_needs.refuses hname rest

/-- An element parser that is complete up to some number of tokens makes arrays of two more. -/
theorem arrayOf_reads {element : Parser ArrayElement} {limit : Nat}
    (helement : ∀ ⦃taken e rest⦄, IsElement taken e ∧ taken.length ≤ limit → EndsOperand rest →
      element.Reads (taken ++ rest) e rest)
    (hstop : ∀ ⦃closing : Token⦄, closing.kind = .rightBracket → ∀ rest,
      element.Refuses (closing :: rest))
    {taken : List Token} {literal : ArrayLiteral} (hliteral : IsArray taken literal)
    (hlength : taken.length ≤ limit + 2) (rest : List Token) :
    (arrayOf element).Reads (taken ++ rest) literal rest := by
  obtain ⟨bracket, elements⟩ := literal
  cases hliteral with
  | @array opening closing tokens _ hopening helements hclosing =>
    have hshort : tokens.length ≤ limit := by simpa using hlength
    have hwithin := helements.within hshort
    have hread (site : Site) : (site.separated .nextElement element).Reads
        (tokens ++ closing :: rest) elements (closing :: rest) :=
      reads_separated helement (fun _ => endsOperand_comma) hwithin
        (Tier.endsBefore_cons (by rw [hclosing]; rfl) _ rest) (hstop hclosing rest)
        (by simp [hclosing])
    simp only [List.cons_append, List.append_assoc, List.nil_append]
    refine (reads_token hopening _).bind ?_
    refine (reads_commit _ _).bind ?_
    refine (hread _).bind ?_
    exact ((reads_token hclosing rest).require _ _).bind reads_pure

theorem arrayOf_needs (element : Parser ArrayElement) : (arrayOf element).Needs .leftBracket :=
  (needs_token .leftBracket).bind _

theorem elementWithin_refuses (bound : Nat) {closing : Token}
    (hclosing : closing.kind = .rightBracket) (rest : List Token) :
    (elementWithin bound).Refuses (closing :: rest) := by
  cases bound with
  | zero => exact fun _ _ => rfl
  | succ bound =>
    apply refuses_firstOf
    simp only [List.mem_cons, List.not_mem_nil, or_false, forall_eq_or_imp, forall_eq]
    constructor
    · exact (((arrayOf_needs _).refuses (by simp [hclosing]) rest)).map _
    · exact (operand_refuses (by simp [hclosing, startsOperand])).map _

theorem elementWithin_reads (bound : Nat) ⦃taken : List Token⦄ ⦃e : ArrayElement⦄
    ⦃rest : List Token⦄ (helement : IsElement taken e ∧ taken.length ≤ bound)
    (hrest : EndsOperand rest) :
    (elementWithin bound).Reads (taken ++ rest) e rest := by
  induction bound generalizing taken e rest with
  | zero =>
    obtain ⟨helement, hlength⟩ := helement
    cases helement with
    | array => simp at hlength
    | operand hvalue =>
      have := hvalue.length_pos
      omega
  | succ bound ih =>
    obtain ⟨helement, hlength⟩ := helement
    cases helement with
    | @array opening closing tokens elements hopening helements hclosing =>
      have hliteral : IsArray (opening :: (tokens ++ [closing])) ⟨opening, elements⟩ :=
        .array hopening helements hclosing
      have hread := arrayOf_reads ih (fun _ => elementWithin_refuses bound) hliteral (by omega) rest
      exact (hread.map ArrayLiteral.toElement).firstOf _
    | operand hvalue =>
      obtain ⟨first, more, rfl, hfirst⟩ := hvalue.starts
      have hbracket : first.kind ≠ .leftBracket := by
        intro hkind
        simp [hkind, startsOperand] at hfirst
      have hrefuses := (arrayOf_needs (elementWithin bound)).refuses hbracket (more ++ rest)
      have hread := (operand_reads hvalue hrest).map ArrayElement.operand
      exact (hrefuses.map _).firstOf (hread.firstOf _)

theorem array_reads {taken : List Token} {literal : ArrayLiteral} (hliteral : IsArray taken literal)
    (rest : List Token) : array.Reads (taken ++ rest) literal rest := by
  have hread := arrayOf_reads (elementWithin_reads (taken ++ rest).length)
    (fun _ => elementWithin_refuses _) hliteral (by simp; omega) rest
  exact fun retry => hread retry

theorem array_needs : array.Needs .leftBracket :=
  fun tokens hhead retry => arrayOf_needs (elementWithin tokens.length) hhead retry

/-- An operand before a terminator is not taken for a call. -/
theorem call_refuses_operand {tokens : List Token} {value : Operand} {hash : Token}
    (hvalue : IsExpression tokens value) (hhash : hash.kind = .terminator) (rest : List Token) :
    call.Refuses (tokens ++ hash :: rest) := by
  obtain ⟨name, more, rfl, -⟩ := hvalue.starts
  by_cases hname : name.kind = .identifier
  · apply call_refuses
    intro t ht hkind
    cases more with
    | nil =>
      obtain rfl : hash = t := by simpa using ht
      simp [hhash] at hkind
    | cons second more =>
      obtain rfl : second = t := by simpa using ht
      exact hvalue.second_of_identifier rfl hname second rfl (by rw [hkind]; rfl)
  · exact call_needs.refuses hname _

theorem endsOperand_terminator {hash : Token} (hhash : hash.kind = .terminator)
    (rest : List Token) : EndsOperand (hash :: rest) :=
  Tier.endsBefore_cons (by rw [hhash]; rfl) _ rest

theorem value_reads {tokens : List Token} {given : Value} (hvalue : IsValue tokens given)
    {hash : Token} (hhash : hash.kind = .terminator) (rest : List Token) :
    value.Reads (tokens ++ hash :: rest) given (hash :: rest) := by
  cases hvalue with
  | call hcall => exact ((call_reads hcall _).map Value.call).firstOf _
  | @array literal hliteral =>
    have hread := (array_reads hliteral (hash :: rest)).map Value.array
    obtain ⟨bracket, more, rfl, hbracket⟩ := hliteral.starts
    have hcall := call_needs.refuses (t := bracket) (by simp [hbracket]) (more ++ hash :: rest)
    exact (hcall.map _).firstOf (hread.firstOf _)
  | operand hoperand =>
    have hcall := call_refuses_operand hoperand hhash rest
    have hread := operand_reads hoperand (endsOperand_terminator hhash rest)
    obtain ⟨first, more, rfl, hfirst⟩ := hoperand.starts
    have hbracket : first.kind ≠ .leftBracket := by
      intro hkind
      simp [hkind, startsOperand] at hfirst
    have harray := array_needs.refuses hbracket (more ++ hash :: rest)
    exact (hcall.map _).firstOf ((harray.map _).firstOf ((hread.map Value.operand).firstOf _))

theorem payload_reads {tokens : List Token} {taken : Payload} (hpayload : IsPayload tokens taken)
    {hash : Token} (hhash : hash.kind = .terminator) (rest : List Token) :
    payload.Reads (tokens ++ hash :: rest) taken (hash :: rest) := by
  cases hpayload with
  | call hcall => exact ((call_reads hcall _).map Payload.call).firstOf _
  | operand hoperand =>
    have hcall := call_refuses_operand hoperand hhash rest
    have hread := operand_reads hoperand (endsOperand_terminator hhash rest)
    exact (hcall.map _).firstOf ((hread.map Payload.operand).firstOf _)

theorem variableDeclaration_needs : variableDeclaration.Needs (.keyword .var) :=
  (needs_token _).bind _

theorem constantDeclaration_needs : constantDeclaration.Needs (.keyword .const) :=
  (needs_token _).bind _

theorem variableDeclaration_reads {taken : List Token} {declared : VariableDeclaration}
    (hvariable : IsVariable taken declared) (rest : List Token) :
    variableDeclaration.Reads (taken ++ rest) declared rest := by
  cases hvariable with
  | @bare word name hash hword hname hhash =>
    refine (reads_token hword _).bind ?_
    refine (reads_commit _ _).bind ?_
    refine ((reads_token hname _).require _ _).bind ?_
    refine (reads_following_none (by simp [hhash])).bind ?_
    exact ((reads_token hhash rest).require _ _).bind reads_pure
  | @initialized word name equals hash tokens given hword hname hequals hvalue hhash =>
    simp only [List.cons_append, List.append_assoc, List.nil_append]
    refine (reads_token hword _).bind ?_
    refine (reads_commit _ _).bind ?_
    refine ((reads_token hname _).require _ _).bind ?_
    refine (Reads.following hequals ((value_reads hvalue hhash rest).require _ _)).bind ?_
    exact ((reads_token hhash rest).require _ _).bind reads_pure

theorem constantDeclaration_reads {taken : List Token} {declared : ConstantDeclaration}
    (hconstant : IsConstant taken declared) (rest : List Token) :
    constantDeclaration.Reads (taken ++ rest) declared rest := by
  cases hconstant with
  | @mk word name equals hash tokens given hword hname hequals hvalue hhash =>
    simp only [List.cons_append, List.append_assoc, List.nil_append]
    refine (reads_token hword _).bind ?_
    refine (reads_commit _ _).bind ?_
    refine ((reads_token hname _).require _ _).bind ?_
    refine ((reads_token hequals _).require _ _).bind ?_
    refine ((value_reads hvalue hhash rest).require _ _).bind ?_
    exact ((reads_token hhash rest).require _ _).bind reads_pure

theorem declaration_reads {taken : List Token} {declared : Declaration}
    (hdeclaration : IsDeclaration taken declared) (rest : List Token) :
    declaration.Reads (taken ++ rest) declared rest := by
  cases hdeclaration with
  | ofVariable hvariable =>
    exact ((variableDeclaration_reads hvariable rest).map Declaration.ofVariable).firstOf _
  | ofConstant hconstant =>
    have hread := (constantDeclaration_reads hconstant rest).map Declaration.ofConstant
    obtain ⟨word, more, rfl, hword⟩ := hconstant.starts
    have hvariable : word.kind ≠ .keyword .var := by simp [hword]
    exact ((variableDeclaration_needs.refuses hvariable _).map _).firstOf (hread.firstOf _)

theorem declaration_refuses {tokens : List Token}
    (hhead : ∀ t ∈ tokens.head?, t.kind ≠ .keyword .var ∧ t.kind ≠ .keyword .const) :
    declaration.Refuses tokens := by
  apply refuses_firstOf
  simp only [List.mem_cons, List.not_mem_nil, or_false, forall_eq_or_imp, forall_eq]
  constructor
  · exact (variableDeclaration_needs fun t ht => (hhead t ht).1).map _
  · exact (constantDeclaration_needs fun t ht => (hhead t ht).2).map _

end FrontEnd.Parser
