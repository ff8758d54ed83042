import FrontEnd.Proofs.Outline.Value

/-!
Reading outlines. The outline of a program determines it, apart from the places of its tokens and
from the language of its reserved words: each construct is read back from its node.
-/

namespace FrontEnd

open Grammar

/-! ### Declarations -/

def Declaration.ofOutline (outline : Outline) : Declaration :=
  if outline.heading? = some .constant then
    .ofConstant ⟨.reserved .const, .ofLexeme outline.detail,
      .ofOutline outline.first⟩
  else
    .ofVariable ⟨.reserved .var, .ofLexeme outline.detail,
      outline.children.head?.map Value.ofOutline⟩

theorem Declaration.heading?_outline (declaration : Declaration) :
    declaration.outline.heading? = some .variable ∨
      declaration.outline.heading? = some .constant := by
  cases declaration with
  | ofVariable => exact .inl (Outline.heading?_node .variable (by decide) _ _)
  | ofConstant => exact .inr (Outline.heading?_node .constant (by decide) _ _)

theorem Declaration.ofOutline_variable {word name : Token} {value : Option Value}
    (hword : word.kind = .keyword .var) (hname : name.kind = .identifier)
    (hspelled : name.IsSpelled) (hvalue : ∀ v ∈ value, Spelled IsValue v) :
    Declaration.ofOutline (ofVariable ⟨word, name, value⟩).outline =
      (ofVariable ⟨word, name, value⟩).mapTokens Token.essence := by
  have hheading : (ofVariable ⟨word, name, value⟩).outline.heading? = some .variable :=
    Outline.heading?_node .variable (by decide) _ _
  have hdetail : (ofVariable ⟨word, name, value⟩).outline.detail = name.lexeme :=
    Outline.detail_of_heading .variable (by decide) _ _
  have hchildren : (ofVariable ⟨word, name, value⟩).outline.children.head?.map Value.ofOutline =
      value.map (Value.mapTokens Token.essence) := by
    cases value with
    | none => rfl
    | some v => exact congrArg some (Value.ofOutline_outline (hvalue v rfl))
  rw [Declaration.ofOutline, hheading, if_neg (by decide), hdetail, hchildren,
    hspelled.ofLexeme_eq (by simp [hname]), Declaration.mapTokens, VariableDeclaration.mapTokens,
    Token.essence_eq_reserved hword]

theorem Declaration.ofOutline_constant {word name : Token} {value : Value}
    (hword : word.kind = .keyword .const) (hname : name.kind = .identifier)
    (hspelled : name.IsSpelled) (hvalue : Spelled IsValue value) :
    Declaration.ofOutline (ofConstant ⟨word, name, value⟩).outline =
      (ofConstant ⟨word, name, value⟩).mapTokens Token.essence := by
  have hheading : (ofConstant ⟨word, name, value⟩).outline.heading? = some .constant :=
    Outline.heading?_node .constant (by decide) _ _
  have hdetail : (ofConstant ⟨word, name, value⟩).outline.detail = name.lexeme :=
    Outline.detail_of_heading .constant (by decide) _ _
  have hfirst : (ofConstant ⟨word, name, value⟩).outline.first = value.outline := rfl
  rw [Declaration.ofOutline, if_pos hheading, hdetail, hfirst,
    Value.ofOutline_outline hvalue, hspelled.ofLexeme_eq (by simp [hname]), Declaration.mapTokens,
    ConstantDeclaration.mapTokens, Token.essence_eq_reserved hword]

theorem Declaration.ofOutline_outline {declaration : Declaration}
    (hspelled : Spelled IsDeclaration declaration) :
    Declaration.ofOutline declaration.outline = declaration.mapTokens Token.essence := by
  obtain ⟨tokens, hdeclaration, hspelled⟩ := hspelled
  cases hdeclaration with
  | ofVariable hvariable =>
    cases hvariable with
    | bare hword hname _ =>
      exact ofOutline_variable hword hname (hspelled _ (by simp)) (by simp)
    | @initialized word name equals hash tokens value hword hname _ hvalue _ =>
      have hvalue : Spelled IsValue value :=
        ⟨tokens, hvalue, fun t hmem => hspelled t (by simp [hmem])⟩
      exact ofOutline_variable hword hname (hspelled _ (by simp)) (by simpa using hvalue)
  | ofConstant hconstant =>
    cases hconstant with
    | @mk word name equals hash tokens value hword hname _ hvalue _ =>
      have hvalue : Spelled IsValue value :=
        ⟨tokens, hvalue, fun t hmem => hspelled t (by simp [hmem])⟩
      exact ofOutline_constant hword hname (hspelled _ (by simp)) hvalue

/-! ### Statements -/

mutual

/-- Statements are told apart by their headings, and what has none of these is a declaration. -/
def Statement.ofOutline : Outline → Statement
  | .node label children =>
    match Outline.heading? (.node label children), children with
    | some .print, [payload] => .print (.reserved .print) (.ofOutline payload)
    | some .ret, [payload] => .ret (.reserved .ret) (.ofOutline payload)
    | some .read, [payload] => .read (.reserved .read) (.ofOutline payload)
    | some .decision, [.node _ [condition], .node _ body] =>
      .decision (.reserved .branch) (.ofOutline condition) (Statement.ofOutlines body) none
    | some .decision, [.node _ [condition], .node _ body, .node _ alternative] =>
      .decision (.reserved .branch) (.ofOutline condition) (Statement.ofOutlines body)
        (some (Statement.ofOutlines alternative))
    | some .assignment, [value] =>
      .assign (.ofLexeme (Outline.node label children).detail) (.ofOutline value)
    | some .loop, [.node _ body, .node _ [condition]] =>
      .loop (.reserved .loop) (Statement.ofOutlines body) (.ofOutline condition)
    | some .call, _ => .call (.ofOutline (.node label children))
    | some .increment, _ =>
      .step .increment (.ofLexeme (Outline.node label children).detail) (.ofLexeme "++")
    | some .decrement, _ =>
      .step .decrement (.ofLexeme (Outline.node label children).detail) (.ofLexeme "--")
    | _, _ => .declare (.ofOutline (.node label children))

def Statement.ofOutlines : List Outline → List Statement
  | [] => []
  | outline :: rest => Statement.ofOutline outline :: Statement.ofOutlines rest

end

namespace Statement

/-! Each node is read by its heading. -/

theorem ofOutline_print (word : Token) (payload : Payload) :
    ofOutline (print word payload).outline =
      .print (.reserved .print) (.ofOutline payload.outline) := by
  have hheading : (Outline.node "Print" [payload.outline]).heading? = some .print :=
    Outline.heading?_text .print _
  rw [Statement.outline]
  unfold ofOutline
  rw [hheading]

theorem ofOutline_ret (word : Token) (payload : Payload) :
    ofOutline (ret word payload).outline =
      .ret (.reserved .ret) (.ofOutline payload.outline) := by
  have hheading : (Outline.node "Return" [payload.outline]).heading? = some .ret :=
    Outline.heading?_text .ret _
  rw [Statement.outline]
  unfold ofOutline
  rw [hheading]

theorem ofOutline_read (word : Token) (payload : Payload) :
    ofOutline (read word payload).outline =
      .read (.reserved .read) (.ofOutline payload.outline) := by
  have hheading : (Outline.node "Read" [payload.outline]).heading? = some .read :=
    Outline.heading?_text .read _
  rw [Statement.outline]
  unfold ofOutline
  rw [hheading]

theorem ofOutline_decision (condition : Operand) (body : List Statement)
    (alternative : Option (List Statement)) (word : Token) :
    ofOutline (decision word condition body alternative).outline =
      .decision (.reserved .branch) (.ofOutline condition.outline)
        (ofOutlines (Statement.outlines body))
        (alternative.map fun other => ofOutlines (Statement.outlines other)) := by
  have hheading (children : List Outline) :
      (Outline.node "Decision" children).heading? = some .decision :=
    Outline.heading?_text .decision _
  rw [Statement.outline]
  cases alternative with
  | none =>
    rw [Statement.alternativeOutline]
    unfold ofOutline
    rw [hheading, Option.map_none]
  | some other =>
    rw [Statement.alternativeOutline]
    unfold ofOutline
    rw [hheading, Option.map_some]

theorem ofOutline_loop (word : Token) (body : List Statement) (condition : Operand) :
    ofOutline (loop word body condition).outline =
      .loop (.reserved .loop) (ofOutlines (Statement.outlines body))
        (.ofOutline condition.outline) := by
  have hheading (children : List Outline) :
      (Outline.node "Do-while loop" children).heading? = some .loop :=
    Outline.heading?_text .loop _
  rw [Statement.outline]
  unfold ofOutline
  rw [hheading]

theorem ofOutline_assignment (target : Token) (value : Value) :
    ofOutline (assign target value).outline =
      .assign (.ofLexeme target.lexeme) (.ofOutline value.outline) := by
  have hheading : (Outline.node s!"Assignment: {target.lexeme}" [value.outline]).heading? =
      some .assignment := Outline.heading?_node .assignment (by decide) _ _
  have hdetail : (Outline.node s!"Assignment: {target.lexeme}" [value.outline]).detail =
      target.lexeme := Outline.detail_of_heading .assignment (by decide) _ _
  rw [Statement.outline]
  unfold ofOutline
  rw [hheading, hdetail]

theorem ofOutline_call (c : Call) : ofOutline c.outline = .call (.ofOutline c.outline) := by
  have hheading := c.heading?_outline
  generalize c.outline = outline at hheading ⊢
  cases outline with
  | node label children =>
    unfold ofOutline
    rw [hheading]

theorem ofOutline_increment (target operator : Token) :
    ofOutline (step .increment target operator).outline =
      .step .increment (.ofLexeme target.lexeme) (.ofLexeme "++") := by
  have hheading : (Outline.node s!"Increment: {target.lexeme}" []).heading? = some .increment :=
    Outline.heading?_node .increment (by decide) _ _
  have hdetail : (Outline.node s!"Increment: {target.lexeme}" []).detail = target.lexeme :=
    Outline.detail_of_heading .increment (by decide) _ _
  rw [Statement.outline, Outline.leaf]
  unfold ofOutline
  rw [hheading, hdetail]

theorem ofOutline_decrement (target operator : Token) :
    ofOutline (step .decrement target operator).outline =
      .step .decrement (.ofLexeme target.lexeme) (.ofLexeme "--") := by
  have hheading : (Outline.node s!"Decrement: {target.lexeme}" []).heading? = some .decrement :=
    Outline.heading?_node .decrement (by decide) _ _
  have hdetail : (Outline.node s!"Decrement: {target.lexeme}" []).detail = target.lexeme :=
    Outline.detail_of_heading .decrement (by decide) _ _
  rw [Statement.outline, Outline.leaf]
  unfold ofOutline
  rw [hheading, hdetail]

theorem ofOutline_declaration (declaration : Declaration) :
    ofOutline declaration.outline = .declare (.ofOutline declaration.outline) := by
  have hheading := declaration.heading?_outline
  generalize declaration.outline = outline at hheading ⊢
  cases outline with
  | node label children =>
    unfold ofOutline
    rcases hheading with hheading | hheading <;> rw [hheading]

end Statement

mutual

theorem Statement.ofOutline_outline (statement : Statement)
    (hspelled : Spelled IsStatement statement) :
    Statement.ofOutline statement.outline = statement.mapTokens Token.essence := by
  match statement with
  | .print word payload =>
    obtain ⟨tokens, hstatement, hspelled⟩ := hspelled
    cases hstatement with
    | @print _ hash tokens _ hword hpayload hhash =>
      have hpayload : Spelled IsPayload payload :=
        ⟨tokens, hpayload, fun t hmem => hspelled t (by simp [hmem])⟩
      rw [Statement.ofOutline_print, Payload.ofOutline_outline hpayload, Statement.mapTokens,
        Token.essence_eq_reserved hword]
  | .ret word payload =>
    obtain ⟨tokens, hstatement, hspelled⟩ := hspelled
    cases hstatement with
    | @ret _ hash tokens _ hword hpayload hhash =>
      have hpayload : Spelled IsPayload payload :=
        ⟨tokens, hpayload, fun t hmem => hspelled t (by simp [hmem])⟩
      rw [Statement.ofOutline_ret, Payload.ofOutline_outline hpayload, Statement.mapTokens,
        Token.essence_eq_reserved hword]
  | .read word payload =>
    obtain ⟨tokens, hstatement, hspelled⟩ := hspelled
    cases hstatement with
    | @read _ hash tokens _ hword hpayload hhash =>
      have hpayload : Spelled IsPayload payload :=
        ⟨tokens, hpayload, fun t hmem => hspelled t (by simp [hmem])⟩
      rw [Statement.ofOutline_read, Payload.ofOutline_outline hpayload, Statement.mapTokens,
        Token.essence_eq_reserved hword]
  | .decision word condition body none =>
    obtain ⟨hword, hcondition, hbody, -⟩ := hspelled.of_decision
    rw [Statement.ofOutline_decision, Operand.ofOutline_outline hcondition,
      Statement.ofOutlines_outlines body hbody, Statement.mapTokens,
      Statement.mapTokensAlternative, Token.essence_eq_reserved hword, Option.map_none]
  | .decision word condition body (some alternative) =>
    obtain ⟨hword, hcondition, hbody, halternative⟩ := hspelled.of_decision
    rw [Statement.ofOutline_decision, Operand.ofOutline_outline hcondition,
      Statement.ofOutlines_outlines body hbody, Option.map_some,
      Statement.ofOutlines_outlines alternative (halternative alternative rfl),
      Statement.mapTokens, Statement.mapTokensAlternative, Token.essence_eq_reserved hword]
  | .declare declaration =>
    obtain ⟨tokens, hstatement, hspelled⟩ := hspelled
    cases hstatement with
    | declare hdeclaration =>
      rw [Statement.outline, Statement.ofOutline_declaration,
        Declaration.ofOutline_outline ⟨tokens, hdeclaration, hspelled⟩, Statement.mapTokens]
  | .assign target value =>
    obtain ⟨tokens, hstatement, hspelled⟩ := hspelled
    cases hstatement with
    | @assign _ equals hash tokens _ htarget _ hvalue _ =>
      have hvalue : Spelled IsValue value :=
        ⟨tokens, hvalue, fun t hmem => hspelled t (by simp [hmem])⟩
      have hname := (hspelled target (by simp)).ofLexeme_eq (by simp [htarget])
      rw [Statement.ofOutline_assignment, hname, Value.ofOutline_outline hvalue,
        Statement.mapTokens]
  | .loop word body condition =>
    obtain ⟨hword, hbody, hcondition⟩ := hspelled.of_loop
    rw [Statement.ofOutline_loop, Operand.ofOutline_outline hcondition,
      Statement.ofOutlines_outlines body hbody, Statement.mapTokens,
      Token.essence_eq_reserved hword]
  | .call c =>
    obtain ⟨tokens, hstatement, hspelled⟩ := hspelled
    cases hstatement with
    | @call tokens ending _ hcall _ =>
      have hcall : Spelled IsCall c :=
        ⟨tokens, hcall, fun t hmem => hspelled t (by simp [hmem])⟩
      rw [Statement.outline, Statement.ofOutline_call, Call.ofOutline_outline hcall,
        Statement.mapTokens]
  | .step direction target operator =>
    obtain ⟨tokens, hstatement, hspelled⟩ := hspelled
    cases hstatement with
    | increment htarget hoperator _ =>
      have hname := (hspelled target (by simp)).ofLexeme_eq (by simp [htarget])
      have hword : operator.essence = .ofLexeme "++" :=
        (hspelled operator (by simp)).essence_eq hoperator (by simp)
          fun _ hword => hword.eq_of_increment
      rw [Statement.ofOutline_increment, hname, Statement.mapTokens, hword]
    | decrement htarget hoperator _ =>
      have hname := (hspelled target (by simp)).ofLexeme_eq (by simp [htarget])
      have hword : operator.essence = .ofLexeme "--" :=
        (hspelled operator (by simp)).essence_eq hoperator (by simp)
          fun _ hword => hword.eq_of_decrement
      rw [Statement.ofOutline_decrement, hname, Statement.mapTokens, hword]

theorem Statement.ofOutlines_outlines (statements : List Statement)
    (hspelled : ∀ statement ∈ statements, Spelled IsStatement statement) :
    Statement.ofOutlines (Statement.outlines statements) =
      Statement.mapTokensAll Token.essence statements := by
  match statements with
  | [] => rfl
  | statement :: rest =>
    obtain ⟨hstatement, hrest⟩ := List.forall_mem_cons.mp hspelled
    rw [Statement.outlines, Statement.ofOutlines, Statement.mapTokensAll,
      Statement.ofOutline_outline statement hstatement, Statement.ofOutlines_outlines rest hrest]

end

/-! ### Functions and programs -/

/-- The reserved word that names a type. -/
def ValueType.keyword : ValueType → Keyword
  | integer => .integer
  | decimal => .decimal
  | string => .string
  | char => .char
  | boolean => .boolean

/-- The type whose name is this text. -/
def ValueType.ofText (text : List Char) : ValueType :=
  ([decimal, string, char, boolean].find? fun type => type.text.toList = text).getD integer

def Parameter.ofOutline (outline : Outline) : Parameter :=
  let text := outline.detail.toList
  let type := ValueType.ofText (before ' ' text)
  ⟨.reserved type.keyword, type, .ofLexeme (String.ofList (behind ' ' text))⟩

theorem ValueType.ofText_text (type : ValueType) : ofText type.text.toList = type := by
  cases type <;> decide

theorem ValueType.keyword_of_ofKeyword? {word : Keyword} {type : ValueType}
    (htype : ofKeyword? word = some type) : word = type.keyword := by
  cases word <;> cases htype <;> rfl

theorem ValueType.space_notMem_text (type : ValueType) : ' ' ∉ type.text.toList := by
  cases type <;> decide

theorem Parameter.ofOutline_outline {parameter : Parameter}
    (hspelled : Spelled IsParameter parameter) :
    Parameter.ofOutline parameter.outline = parameter.mapTokens Token.essence := by
  obtain ⟨tokens, hparameter, hspelled⟩ := hspelled
  cases hparameter with
  | @mk word name keyword type hword htype hname =>
    have hdetail : (Parameter.mk word type name).outline.detail.toList =
        type.text.toList ++ ' ' :: name.lexeme.toList := by
      have hlabel : (Parameter.mk word type name).outline =
          .leaf ("Parameter: " ++ (type.text ++ " " ++ name.lexeme)) := by
        simp [Parameter.outline, String.append_assoc, toString]
      rw [hlabel, Outline.leaf, Outline.detail_node "Parameter".toList (by decide)
        (by decide), String.toList_append, String.toList_append, List.append_assoc]
      rfl
    have hfree := type.space_notMem_text
    have hlexeme := (hspelled name (by simp)).ofLexeme_eq (by simp [hname])
    rw [ValueType.keyword_of_ofKeyword? htype] at hword
    rw [Parameter.ofOutline]
    simp only [hdetail, before_append hfree, behind_append hfree, ValueType.ofText_text,
      String.ofList_toList, hlexeme, Parameter.mapTokens, Token.essence_eq_reserved hword]

def FunctionDeclaration.ofOutline (outline : Outline) : FunctionDeclaration where
  keyword := .reserved .action
  name := .ofLexeme outline.detail
  parameters := outline.first.children.map Parameter.ofOutline
  body := Statement.ofOutlines outline.second.children

theorem FunctionDeclaration.ofOutline_outline {function : FunctionDeclaration}
    (hspelled : Spelled IsFunction function) :
    FunctionDeclaration.ofOutline function.outline = function.mapTokens Token.essence := by
  obtain ⟨hword, hkind, hname, hparameters, hbody⟩ := hspelled.of_function
  have hdetail : function.outline.detail = function.name.lexeme :=
    Outline.detail_node "Function declaration".toList (by decide) (by decide) _ _
  have hsignature : function.outline.first.children =
      function.parameters.map Parameter.outline := rfl
  have hinside : function.outline.second.children = Statement.outlines function.body := rfl
  rw [FunctionDeclaration.ofOutline, hdetail, hname.ofLexeme_eq (by simp [hkind]), hsignature,
    hinside, List.map_map, Statement.ofOutlines_outlines function.body hbody,
    FunctionDeclaration.mapTokens, Token.essence_eq_reserved hword]
  congr 1
  exact List.map_congr_left fun parameter hmem =>
    Parameter.ofOutline_outline (hparameters parameter hmem)

/-- The nodes of a group, if there is one with this label. -/
def Outline.grouped (label : String) (outline : Outline) : List Outline :=
  (outline.children.find? fun child => child.label = label).elim [] children

def CompilationUnit.ofOutline (outline : Outline) : CompilationUnit where
  declarations := (outline.grouped "Declarations").map Declaration.ofOutline
  functions := (outline.grouped "Functions").map FunctionDeclaration.ofOutline
  statements := Statement.ofOutlines (outline.grouped "Statements")

theorem CompilationUnit.grouped_outline (unit : CompilationUnit) :
    unit.outline.grouped "Declarations" = unit.declarations.map Declaration.outline ∧
      unit.outline.grouped "Functions" = unit.functions.map FunctionDeclaration.outline ∧
      unit.outline.grouped "Statements" = Statement.outlines unit.statements := by
  rw [CompilationUnit.outline]
  -- a group without members is not shown, and is read as an empty one
  cases unit.declarations.map Declaration.outline <;>
    cases unit.functions.map FunctionDeclaration.outline <;>
    cases Statement.outlines unit.statements <;>
    simp [Outline.group, Outline.grouped, Outline.children, Outline.label]

theorem CompilationUnit.ofOutline_outline {unit : CompilationUnit}
    (hspelled : Spelled IsUnit unit) :
    CompilationUnit.ofOutline unit.outline = unit.mapTokens Token.essence := by
  obtain ⟨hdeclarations, hfunctions, hstatements⟩ := hspelled.of_unit
  obtain ⟨hfirst, hsecond, hthird⟩ := unit.grouped_outline
  rw [CompilationUnit.ofOutline, hfirst, hsecond, hthird, List.map_map, List.map_map,
    Statement.ofOutlines_outlines unit.statements hstatements, CompilationUnit.mapTokens]
  congr 1
  · exact List.map_congr_left fun declaration hmem =>
      Declaration.ofOutline_outline (hdeclarations declaration hmem)
  · exact List.map_congr_left fun function hmem =>
      FunctionDeclaration.ofOutline_outline (hfunctions function hmem)

/-- Nothing that matters is lost in the outline. If two texts are read as programs with the same
outline, the programs have the same constructs, nested in the same way, with the same words in them:
they differ only in the places of their tokens and in the language of their reserved words. -/
theorem compile_unit_eq_of_outline_eq {first second : String}
    (houtline : (compile first).unit.outline = (compile second).unit.outline) :
    (compile first).unit.mapTokens Token.essence =
      (compile second).unit.mapTokens Token.essence := by
  rw [← CompilationUnit.ofOutline_outline (spelled_compile first), houtline,
    CompilationUnit.ofOutline_outline (spelled_compile second)]

/-- A function with Spanish words. -/
def spanishFunction : String :=
  "accion @f(entero @n) \x7b si (@n < -1) \x7b @n++ \x7d sino \x7b muestre ~a~ # \x7d \x7d"

/-- The same function with English words, over two lines. -/
def englishFunction : String :=
  "action @f(integer @n) ¶ note\n\x7b if (@n < - 1) \x7b @n++ # \x7d else \x7b print ~a~# \x7d \x7d"

theorem compile_spanishFunction_eq :
    (compile spanishFunction).unit.outline = (compile englishFunction).unit.outline ∧
      (compile spanishFunction).unit.mapTokens Token.essence =
        (compile englishFunction).unit.mapTokens Token.essence := by
  have houtline : (compile spanishFunction).unit.outline =
      (compile englishFunction).unit.outline := by decide +kernel
  exact ⟨houtline, compile_unit_eq_of_outline_eq houtline⟩

end FrontEnd
