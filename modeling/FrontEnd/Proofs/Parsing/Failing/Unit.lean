import FrontEnd.Proofs.Parsing.Failing.Productions

/-!
The memory of failed constructs at the scale of a whole program. The only constructs that are tried
twice at a place are declarations: where the list of declarations ends, statements are tried after
the functions, and a declaration is also a statement. The memory spares the second failure, and
nothing else.
-/

namespace FrontEnd

/-- The failures without those of a construct that failed at the same place earlier in the list. -/
def Failure.firsts : List Failure → List Failure
  | [] => []
  | first :: rest => first :: (firsts rest).filter (·.site ≠ first.site)

namespace Failure

theorem firsts_append (before after : List Failure) :
    firsts (before ++ after) =
      firsts before ++ (firsts after).filter (·.site ∉ before.map Failure.site) := by
  induction before with
  | nil => simp [firsts]
  | cons first rest ih =>
    rw [List.cons_append, firsts, ih, firsts, List.filter_append, List.filter_filter,
      List.cons_append]
    congr 2
    simp [List.mem_cons, not_or]

theorem firsts_of_nodup {failures : List Failure} (hnodup : (failures.map site).Nodup) :
    firsts failures = failures := by
  induction failures with
  | nil => rfl
  | cons first rest ih =>
    obtain ⟨hfirst, hrest⟩ := List.nodup_cons.mp hnodup
    rw [firsts, ih hrest, List.filter_eq_self.mpr]
    intro failure hmem
    simp only [decide_eq_true_eq]
    rintro heq
    exact hfirst (heq ▸ List.mem_map_of_mem hmem)

/-- A second round of the same failures adds nothing. -/
theorem firsts_append_self {failures : List Failure} (hnodup : (failures.map site).Nodup) :
    firsts (failures ++ failures) = failures := by
  rw [firsts_append, firsts_of_nodup hnodup, List.filter_eq_nil_iff.mpr, List.append_nil]
  intro failure hmem
  simpa using ⟨failure, hmem, rfl⟩

end Failure

namespace Parser

open Grammar

/-- At a reserved word for declarations a statement is a declaration. -/
theorem statementWithin_eq_declaration (bound : Nat) {t : Token}
    (hkind : t.kind = .keyword .var ∨ t.kind = .keyword .const) (rest : List Token) (retry : Retry)
    (failures : List Failure) :
    statementWithin (bound + 1) retry (t :: rest) failures =
      (Statement.declare <$> declaration) retry (t :: rest) failures := by
  have hword {α : Type} {p : Parser α} {kind : TokenKind} (hp : p.Needs kind)
      (hvar : kind ≠ .keyword .var) (hconst : kind ≠ .keyword .const) : p.Refuses (t :: rest) := by
    refine hp.refuses (fun heq => ?_) rest
    rcases hkind with hkind | hkind
    · exact hvar (heq.symm.trans hkind)
    · exact hconst (heq.symm.trans hkind)
  have hprint := hword (keywordStatement_needs .print .print) (by simp) (by simp)
  have hret := hword (keywordStatement_needs .ret .ret) (by simp) (by simp)
  have hread := hword (keywordStatement_needs .read .read) (by simp) (by simp)
  have hdecision := hword (decision_needs (statementWithin bound)) (by simp) (by simp)
  have hothers : (firstOf [assignment, loop (statementWithin bound), callStatement,
      step .increment .increment, step .decrement .decrement]).Refuses (t :: rest) := by
    apply refuses_firstOf
    simp only [List.mem_cons, List.not_mem_nil, or_false, forall_eq_or_imp, forall_eq]
    exact ⟨hword assignment_needs (by simp) (by simp), hword (loop_needs _) (by simp) (by simp),
      hword callStatement_needs (by simp) (by simp), hword (step_needs _ _) (by simp) (by simp),
      hword (step_needs _ _) (by simp) (by simp)⟩
  have hlast (before : List Failure) : firstOf [assignment, loop (statementWithin bound),
      callStatement, step .increment .increment, step .decrement .decrement] retry (t :: rest)
        before = (Statement.declare <$> reject) retry (t :: rest) before := hothers retry before
  simp only [statementWithin, declaration, firstOf, List.foldr_cons, List.foldr_nil, map_orElse]
  rw [orElse_of_none ((hprint.map _) retry failures), orElse_of_none ((hret.map _) retry failures),
    orElse_of_none ((hread.map _) retry failures), orElse_of_none (hdecision retry failures),
    ← comp_map, ← comp_map]
  exact orElse_congr (fun before => orElse_congr hlast _) _

theorem declaration_length_pos ⦃taken : List Token⦄ ⦃declared : Declaration⦄
    (hdeclaration : IsDeclaration taken declared) : 0 < taken.length := by
  obtain ⟨first, rest, rfl, -⟩ := hdeclaration.starts
  simp

theorem function_length_pos ⦃taken : List Token⦄ ⦃declared : FunctionDeclaration⦄
    (hfunction : IsFunction taken declared) : 0 < taken.length := by
  obtain ⟨first, rest, rfl, -⟩ := hfunction.starts
  simp

/-- How far a program is read. With the memory of failures the record is `failures`; without it,
declarations that fail may fail `again` as statements. -/
structure ReadsUnit (tokens : List Token) (unit : CompilationUnit) (rest : List Token)
    (failures again : List Failure) : Prop where
  never : compilationUnit .never tokens [] = ⟨some (unit, rest), failures⟩
  always : compilationUnit .always tokens [] = ⟨some (unit, rest), failures ++ again⟩
  again : again = [] ∨ again = failures
  nested : Nested rest.length rest failures
  hoist : unit.hoist = unit

/-- The tokens that were read are a program of the grammar, in front of those that were not. -/
theorem ReadsUnit.exists_append {tokens rest : List Token} {unit : CompilationUnit}
    {failures again : List Failure} (hreads : ReadsUnit tokens unit rest failures again) :
    ∃ read, tokens = read ++ rest ∧ IsUnit read unit :=
  compilationUnit_sound ⟨.never, [], congrArg Outcome.parsed hreads.never⟩

/-- What a program goes on with after its declarations. -/
def functionsAndStatements (statement : Parser Statement) (declarations : List Declaration) :
    Parser CompilationUnit := do
  let functions ← many (function statement)
  let statements ← many statement
  return ⟨declarations, functions, statements⟩

section FunctionsAndStatements

variable {statement : Parser Statement}

/-- A function that fails is no statement either, so nothing is read after it. -/
theorem SettlesStatements.functionsAndStatements_yields (hstatement : SettlesStatements statement)
    (declarations : List Declaration) (tokens : List Token) :
    ∃ unit rest failures,
      (functionsAndStatements statement declarations).Yields tokens.length tokens
        ⟨some (unit, rest), failures⟩ ∧
      Nested rest.length rest failures := by
  have hfunction : (function statement).Settles nowhere := function_settles hstatement
  obtain ⟨functions, rest, failures, hfunctions, hrest, hnoFunction⟩ :=
    hfunction.many_yields (function_sound hstatement.sound) function_length_pos tokens
  have hstarts : failures = [] ∨ ∃ t more, rest = t :: more ∧ t.kind = .keyword .action :=
    hfunction.starts_of_failed (· = .keyword .action)
      (fun t more ht => (function_needs statement).refuses ht more) hnoFunction
  rcases hstarts with rfl | ⟨t, more, rfl, hkind⟩
  · obtain ⟨statements, last, failures, hstatements, hlast, hnoStatement⟩ :=
      hstatement.settles.many_yields hstatement.sound
        (fun _ _ htaken => isStatement_length_pos htaken) rest
    have hafter := (hstatements.bind_pure (f := fun statements => (pure
      (⟨declarations, functions, statements⟩ : CompilationUnit) : Parser _)) rfl).mono
        hrest.length_le
    exact ⟨_, last, failures, hfunctions.bind hafter, hstatement.settles.nested hnoStatement⟩
  · have hrefuses : statement.Refuses (t :: more) :=
      hstatement.refuses (by simp [hkind, startsStatement])
    refine ⟨⟨declarations, functions, []⟩, t :: more, failures, hfunctions.bind_of ?_,
      hfunction.nested hnoFunction⟩
    intro retry before _
    exact bind_of_some (many_of_none (hrefuses retry (before ++ failures))) _

/-- Where a statement fails that is no function, nothing more is read. -/
theorem functionsAndStatements_of_none {t : Token} {rest : List Token} {retry : Retry}
    {before after : List Failure} (ht : t.kind ≠ .keyword .action)
    (hnone : statement retry (t :: rest) before = ⟨none, after⟩) (declarations : List Declaration) :
    functionsAndStatements statement declarations retry (t :: rest) before =
      ⟨some (⟨declarations, [], []⟩, t :: rest), after⟩ := by
  have hfunction := (function_needs statement).refuses ht rest retry before
  rw [functionsAndStatements, bind_of_some (many_of_none hfunction),
    bind_of_some (many_of_none hnone)]
  rfl

/-- Where there is no declaration, neither the first statement is one. -/
theorem hoist_eq_self (hstatement : SettlesStatements statement)
    {declarations : List Declaration} {tokens rest : List Token} {unit : CompilationUnit}
    (hparses : (functionsAndStatements statement declarations).Parses tokens unit rest)
    {bound : Nat} {failures : List Failure}
    (hnone : declaration.Yields bound tokens ⟨none, failures⟩) : unit.hoist = unit := by
  obtain ⟨functions, functionTokens, middle, rfl, hfunctions, hafter⟩ :=
    (function_sound hstatement.sound).many.of_bind hparses
  obtain ⟨statements, statementTokens, last, rfl, hstatements, hlast⟩ :=
    hstatement.sound.many.of_bind hafter
  obtain ⟨rfl, rfl⟩ := parses_pure hlast
  cases hfunctions with
  | cons _ _ => rfl
  | nil =>
    cases hstatements with
    | nil => simp [CompilationUnit.hoist, Statement.leadingDeclarations]
    | @cons first others s _ hfirst hothers =>
      cases hfirst with
      | declare hdeclaration =>
        have hreads := declaration_reads hdeclaration (others ++ rest)
        rw [List.nil_append, List.append_assoc] at hnone
        cases hnone.of_reads hreads
      | _ => simp [CompilationUnit.hoist, Statement.leadingDeclarations]

end FunctionsAndStatements

theorem compilationUnit_eq (retry : Retry) (tokens : List Token) (failures : List Failure) :
    compilationUnit retry tokens failures =
      (many declaration >>= functionsAndStatements (statementWithin tokens.length))
        retry tokens failures :=
  rfl

theorem exists_readsUnit (tokens : List Token) :
    ∃ unit rest failures again, ReadsUnit tokens unit rest failures again := by
  have hstatement : SettlesStatements (statementWithin tokens.length) :=
    statementWithin_settles tokens.length
  obtain ⟨declarations, middle, failures, hdeclarations, hmiddle, hnoDeclaration⟩ :=
    declaration_settlesOnce.settles.many_yields declaration_sound declaration_length_pos tokens
  have hstarts : failures = [] ∨ ∃ t more, middle = t :: more ∧
      (t.kind = .keyword .var ∨ t.kind = .keyword .const) :=
    declaration_settlesOnce.settles.starts_of_failed
      (fun kind => kind = .keyword .var ∨ kind = .keyword .const)
      (fun t more ht => declaration_refuses (by simpa using ht)) hnoDeclaration
  rcases hstarts with rfl | ⟨t, more, rfl, hkind⟩
  · obtain ⟨unit, rest, failures, hyields, hnested⟩ :=
      hstatement.functionsAndStatements_yields declarations middle
    have hunit := hdeclarations.bind (hyields.mono hmiddle.length_le)
    refine ⟨unit, rest, failures, [], ?_, ?_, .inl rfl, hnested,
      hoist_eq_self hstatement hyields.parses hnoDeclaration⟩
    · exact hunit (openBelow_nil _ _)
    · rw [List.append_nil]
      exact hunit (openBelow_nil _ _)
  · have hnested := declaration_settlesOnce.settles.nested hnoDeclaration
    have hne : t.kind ≠ .keyword .action := by rcases hkind with h | h <;> simp [h]
    obtain ⟨bound, hbound⟩ : ∃ bound, tokens.length = bound + 1 := by
      have := hmiddle.length_le
      rw [List.length_cons] at this
      exact ⟨tokens.length - 1, by omega⟩
    -- The statement that is tried here is the declaration that has just failed.
    have hunit {retry : Retry} {after : List Failure}
        (hagain : declaration retry (t :: more) failures = ⟨none, after⟩) :
        compilationUnit retry tokens [] = ⟨some (⟨declarations, [], []⟩, t :: more), after⟩ := by
      rw [compilationUnit_eq, bind_of_some (hdeclarations (openBelow_nil _ retry)), List.nil_append]
      refine functionsAndStatements_of_none hne ?_ declarations
      rw [hbound, statementWithin_eq_declaration bound hkind]
      exact map_of_none hagain _
    refine ⟨⟨declarations, [], []⟩, t :: more, failures, failures, ?_, ?_, .inr rfl, hnested, ?_⟩
    · exact hunit (declaration_settlesOnce.again hnoDeclaration)
    · exact hunit (hnoDeclaration (openBelow_always _ failures))
    · simp [CompilationUnit.hoist, Statement.leadingDeclarations]

end Parser

namespace TokenStream

/-- The failures that are recorded while a stream is parsed, oldest first. -/
def failuresBy (retry : Retry) (stream : TokenStream) : List Failure :=
  (Parser.compilationUnit retry stream.significant []).failures

/-- The report on the first token that was not read, if there is one. -/
def leftoverBy (retry : Retry) (stream : TokenStream) : List Diagnostic :=
  leftoverReport ((stream.failuresBy retry).map (Failure.diagnostic stream.ending))
    ((Parser.compilationUnit retry stream.significant []).parsed.elim stream.significant Prod.snd)

theorem diagnostics_parseBy (retry : Retry) (stream : TokenStream) :
    (stream.parseBy retry).diagnostics =
      (stream.failuresBy retry).map (Failure.diagnostic stream.ending) ++
        stream.leftoverBy retry := by
  unfold parseBy leftoverBy failuresBy
  obtain ⟨_ | ⟨unit, rest⟩, failures⟩ := Parser.compilationUnit retry stream.significant [] <;> rfl

theorem parse_of_readsUnit {stream : TokenStream} {unit : CompilationUnit} {rest : List Token}
    {failures again : List Failure}
    (hreads : Parser.ReadsUnit stream.significant unit rest failures again) :
    stream.parse = ⟨unit, failures.map (Failure.diagnostic stream.ending) ++
      leftoverReport (failures.map (Failure.diagnostic stream.ending)) rest⟩ := by
  simp [parse, parseBy, hreads.never]

/-- The memory of failed constructs only spares repetitions: where constructs may be entered again
at the same place, the same program is read and the same token is left over, and the first failure
of each construct at each place is the one that is recorded otherwise. -/
theorem parse_eq_parseBy_always (stream : TokenStream) :
    stream.parse.unit = (stream.parseBy .always).unit ∧
      stream.failuresBy .never = Failure.firsts (stream.failuresBy .always) ∧
      stream.leftoverBy .never = stream.leftoverBy .always ∧
      ∀ retry, (stream.parseBy retry).diagnostics =
        (stream.failuresBy retry).map (Failure.diagnostic stream.ending) ++
          stream.leftoverBy retry := by
  obtain ⟨unit, rest, failures, again, hreads⟩ := Parser.exists_readsUnit stream.significant
  refine ⟨?_, ?_, ?_, fun retry => diagnostics_parseBy retry stream⟩
  · simp [parse, parseBy, hreads.never, hreads.always]
  · have hnodup := hreads.nested.nodup_sites
    simp only [failuresBy, hreads.never, hreads.always]
    rcases hreads.again with rfl | rfl
    · rw [List.append_nil, Failure.firsts_of_nodup hnodup]
    · rw [Failure.firsts_append_self hnodup]
  · simp only [leftoverBy, failuresBy, hreads.never, hreads.always, Option.elim_some]
    rcases hreads.again with rfl | rfl
    · rw [List.append_nil]
    · cases rest with
      | nil => rfl
      | cons t rest => simp [leftoverReport, List.any_append]

end TokenStream

end FrontEnd
