import FrontEnd.Parsing.Unit
import FrontEnd.Proofs.Parsing.Completeness.Statement

/-!
Programs are taken in full where the grammar derives them. A program can have several derivations,
for declarations are also statements; the parser finds the one with the most declarations.
-/

namespace FrontEnd

open Grammar

/-- Takes the declarations off the front of a list of statements. -/
def Statement.leadingDeclarations : List Statement → List Declaration × List Statement
  | .declare declaration :: rest =>
    (declaration :: (leadingDeclarations rest).1, (leadingDeclarations rest).2)
  | statements => ([], statements)

/-- The same program with as many of its declarations in front as the grammar allows: where no
function stands between, those that the statements start with come to the declarations. -/
def CompilationUnit.hoist (unit : CompilationUnit) : CompilationUnit :=
  match unit.functions with
  | [] =>
    let (leading, statements) := Statement.leadingDeclarations unit.statements
    ⟨unit.declarations ++ leading, [], statements⟩
  | _ :: _ => unit

namespace Grammar

theorem Sequence.append {α : Type} {item : List Token → α → Prop} {before after : List Token}
    {as bs : List α} (hbefore : Sequence item before as) (hafter : Sequence item after bs) :
    Sequence item (before ++ after) (as ++ bs) := by
  induction hbefore with
  | nil => exact hafter
  | cons hfirst _ ih =>
    rw [List.append_assoc]
    exact .cons hfirst ih

theorem Sequence.leadingDeclarations {tokens : List Token} {statements : List Statement}
    (hstatements : Sequence IsStatement tokens statements) :
    ∃ leading others, tokens = leading ++ others ∧
      Sequence IsDeclaration leading (Statement.leadingDeclarations statements).1 ∧
      Sequence IsStatement others (Statement.leadingDeclarations statements).2 ∧
      ∀ t ∈ others.head?, startsStatement t.kind ∧ t.kind ≠ .keyword .var ∧
        t.kind ≠ .keyword .const := by
  induction hstatements with
  | nil => exact ⟨[], [], rfl, .nil, .nil, by simp⟩
  | @cons first rest statement statements hfirst hrest ih =>
    by_cases hdeclares : ∃ declaration, statement = .declare declaration
    · obtain ⟨declaration, rfl⟩ := hdeclares
      obtain ⟨leading, others, rfl, hleading, hothers, hhead⟩ := ih
      cases hfirst with
      | declare hdeclaration =>
        exact ⟨first ++ leading, others, by simp, .cons hdeclaration hleading, hothers, hhead⟩
    · have hsplit : Statement.leadingDeclarations (statement :: statements) =
          ([], statement :: statements) := by
        cases statement with
        | declare declaration => exact absurd ⟨declaration, rfl⟩ hdeclares
        | _ => rfl
      rw [hsplit]
      obtain ⟨word, more, htokens, hstarts, hword⟩ := hfirst.starts
      refine ⟨[], first ++ rest, rfl, .nil, .cons hfirst hrest, ?_⟩
      intro t ht
      obtain rfl : word = t := by simpa [htokens] using ht
      exact ⟨hstarts, fun h => hdeclares (hword (.inl h)), fun h => hdeclares (hword (.inr h))⟩

end Grammar

namespace Parser

theorem parameter_reads {taken : List Token} {declared : Parameter}
    (hparameter : IsParameter taken declared) (rest : List Token) :
    parameter.Reads (taken ++ rest) declared rest := by
  cases hparameter with
  | @mk word name keyword type hword htype hname =>
    have hread : (ofFunction parameter.typeWord?).Reads (word :: name :: rest) (word, type)
        (name :: rest) := by
      intro retry
      simp [ofFunction, parameter.typeWord?, hword, htype]
    refine hread.bind ?_
    refine (reads_commit _ _).bind ?_
    exact ((reads_token hname rest).require _ _).bind reads_pure

theorem parameter_refuses {closing : Token} (hclosing : closing.kind = .rightParen)
    (rest : List Token) : parameter.Refuses (closing :: rest) := by
  have hread : (ofFunction parameter.typeWord?).Refuses (closing :: rest) := by
    intro retry failures
    simp [ofFunction, parameter.typeWord?, hclosing]
  exact hread.bind _

theorem function_needs (statement : Parser Statement) :
    (function statement).Needs (.keyword .action) :=
  (needs_token _).bind _

theorem function_reads {statement : Parser Statement} {limit : Nat}
    (hstatement : ReadsStatements statement limit) {taken : List Token}
    {declared : FunctionDeclaration} (hfunction : IsFunction taken declared)
    (hlength : taken.length ≤ limit) (rest : List Token) :
    (function statement).Reads (taken ++ rest) declared rest := by
  cases hfunction with
  | @mk word name opening closing tokens bodyTokens parameters body hword hname hopening
      hparameters hclosing hbody =>
    simp only [List.length_cons, List.length_append] at hlength
    have hread (site : Site) : (site.separated .nextParameter parameter).Reads
        (tokens ++ closing :: (bodyTokens ++ rest)) parameters (closing :: (bodyTokens ++ rest)) :=
      reads_separated (fun _ _ after htaken (_ : True) => parameter_reads htaken after)
        (fun _ _ _ => trivial) hparameters trivial (parameter_refuses hclosing _)
        (by simp [hclosing])
    simp only [List.cons_append, List.append_assoc]
    refine (reads_token hword _).bind ?_
    refine (reads_commit _ _).bind ?_
    refine ((reads_token hname _).require _ _).bind ?_
    refine ((reads_token hopening _).require _ _).bind ?_
    refine (hread _).bind ?_
    refine ((reads_token hclosing _).require _ _).bind ?_
    exact (hstatement.block hbody (by omega) _ _ rest).bind reads_pure

/-- Declarations are read up to the first token that starts none, functions up to the first token
that starts none, and statements up to the end. -/
theorem compilationUnit_reads_append {declarationTokens functionTokens statementTokens : List Token}
    {declarations : List Declaration} {functions : List FunctionDeclaration}
    {statements : List Statement}
    (hdeclarations : Sequence IsDeclaration declarationTokens declarations)
    (hfunctions : Sequence IsFunction functionTokens functions)
    (hstatements : Sequence IsStatement statementTokens statements)
    (hhead : ∀ t ∈ (functionTokens ++ statementTokens).head?,
      t.kind ≠ .keyword .var ∧ t.kind ≠ .keyword .const) :
    compilationUnit.Reads (declarationTokens ++ (functionTokens ++ statementTokens))
      ⟨declarations, functions, statements⟩ [] := by
  let tokens := declarationTokens ++ (functionTokens ++ statementTokens)
  have hfunctionLength : functionTokens.length ≤ tokens.length := by simp [tokens]; omega
  have hstatementLength : statementTokens.length ≤ tokens.length := by simp [tokens]; omega
  have hstatement := statementWithin_reads tokens.length
  have hnoFunction : ∀ t ∈ statementTokens.head?, t.kind ≠ .keyword .action := by
    cases hstatements with
    | nil => simp
    | cons hfirst _ =>
      obtain ⟨first, more, rfl, hstarts, -⟩ := hfirst.starts
      intro t ht hkind
      obtain rfl : first = t := by simpa using ht
      simp [hkind, startsStatement] at hstarts
  have hreadDeclarations : (many declaration).Reads tokens declarations
      (functionTokens ++ statementTokens) := by
    refine reads_many (fun _ _ rest htaken (_ : True) => declaration_reads htaken rest)
      (fun _ _ _ _ => trivial) ?_ hdeclarations trivial (declaration_refuses hhead)
    intro taken declared htaken
    obtain ⟨first, more, rfl, -⟩ := htaken.starts
    simp
  have hreadFunctions : (many (function (statementWithin tokens.length))).Reads
      (functionTokens ++ statementTokens) functions statementTokens := by
    refine reads_many
      (fun _ _ rest htaken (_ : True) => function_reads hstatement htaken.1 htaken.2 rest)
      (fun _ _ _ _ => trivial) ?_ (hfunctions.within hfunctionLength) trivial
      (function_needs _ hnoFunction)
    intro taken declared htaken
    obtain ⟨first, more, rfl, -⟩ := htaken.1.starts
    simp
  have hreadStatements : (many (statementWithin tokens.length)).Reads (statementTokens ++ [])
      statements [] :=
    reads_many hstatement.reads (fun _ _ htaken => endsStatement_of_isStatement htaken.1)
      (fun _ _ htaken => isStatement_length_pos htaken.1) (hstatements.within hstatementLength)
      (by simp [EndsStatement]) (statementWithin_refuses _ (by simp))
  rw [List.append_nil] at hreadStatements
  have hread := hreadDeclarations.bind (f := fun declarations => do
    let functions ← many (function (statementWithin tokens.length))
    let statements ← many (statementWithin tokens.length)
    return (⟨declarations, functions, statements⟩ : CompilationUnit))
    (hreadFunctions.bind (hreadStatements.bind reads_pure))
  exact fun retry => hread retry

/-- A program of the grammar is read to the end, with as many declarations as it can have. -/
theorem compilationUnit_reads {tokens : List Token} {unit : CompilationUnit}
    (hunit : IsUnit tokens unit) : compilationUnit.Reads tokens unit.hoist [] := by
  cases hunit with
  | @mk declarationTokens functionTokens statementTokens _ functions _ hdeclarations hfunctions
      hstatements =>
    rw [List.append_assoc]
    cases hfunctions with
    | @cons first others _ _ hfirst hothers =>
      obtain ⟨word, more, rfl, hword⟩ := hfirst.starts
      apply compilationUnit_reads_append hdeclarations (.cons hfirst hothers) hstatements
      simp [hword]
    | nil =>
      obtain ⟨leading, others, rfl, hleading, hothers, hhead⟩ := hstatements.leadingDeclarations
      have hread := compilationUnit_reads_append (hdeclarations.append hleading) .nil hothers
        (fun t ht => (hhead t ht).2)
      simpa [CompilationUnit.hoist] using hread

end Parser

end FrontEnd
