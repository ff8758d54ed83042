import FrontEnd.Proofs.Token.Reach
import FrontEnd.Proofs.Token.Rendering

/-!
Reading once more what has been read. The tokens of a text, each on a line of its own, are read as
the same tokens, even where the text is malformed: what no class recognizes is recognized by none
either when the end of a line follows instead of the rest of the text.
-/

namespace FrontEnd

open TokenClass

/-! ### Unknown text -/

theorem recognize?_eq_none_of_unknown {text : List Char}
    (hunknown : (classify byPriority text).1 = .unknown) (cls : TokenClass) :
    cls.recognize? text = none := by
  unfold classify at hunknown
  cases hread : byPriority.findSome? fun cls => cls.recognize? text with
  | none => exact List.findSome?_eq_none_iff.mp hread cls cls.mem_byPriority
  | some found =>
    rw [hread, Option.getD_some] at hunknown
    obtain ⟨word, after, -, -, hword⟩ := readsWord_of_findSome? hread
    exact absurd hunknown hword.kind_ne_unknown

theorem isRun_of_unknown {c : Char} {run rest : List Char}
    (hclass : classify byPriority (c :: run ++ rest) = (.unknown, (c :: run).length)) :
    IsRun (fun d => !stopsUnknown d) run rest := by
  have hnone := recognize?_eq_none_of_unknown (congrArg Prod.fst hclass)
  have hlength := congrArg Prod.snd ((classify_eq_unknown _ hnone).symm.trans hclass)
  obtain ⟨front, back, htext, hfront⟩ :=
    IsRun.exists_append_eq (fun d => !stopsUnknown d) (run ++ rest)
  simp only [List.cons_append, unknownLength, htext, hfront.takeWhile_eq, List.length_cons,
    Nat.add_right_cancel_iff] at hlength
  obtain ⟨rfl, rfl⟩ := List.append_inj htext hlength.symm
  exact hfront

theorem isBoundary_of_stopsUnknown {c : Char} (hstops : stopsUnknown c = true) :
    isBoundary c = true := by
  simp only [stopsUnknown, isBoundary, Bool.or_eq_true] at hstops ⊢
  exact hstops.imp_left .inl

/-- Where no closing character comes, none comes in a text of the same characters and newlines. -/
theorem delimited?_eq_none_of_subset {opening closing c : Char} {kind : TokenKind}
    {text more : List Char} (hclosing : closing ≠ '\n')
    (hnone : delimited? opening closing kind (fun _ => true) (c :: text) = none)
    (hmore : ∀ d ∈ more, d ∈ text ∨ d = '\n') :
    delimited? opening closing kind (fun _ => true) (c :: more) = none := by
  cases hread : delimited? opening closing kind (fun _ => true) (c :: more) with
  | none => rfl
  | some found =>
    obtain ⟨body, after, htext, -⟩ := delimited?_eq_some_iff.mp hread
    obtain ⟨rfl, rfl⟩ := List.cons.inj htext
    have hmem : closing ∈ text := (hmore closing (by simp)).resolve_right hclosing
    obtain ⟨front, back, rfl, hfree⟩ := List.eq_append_cons_of_mem hmem
    have hfound : delimited? c closing kind (fun _ => true) (c :: (front ++ closing :: back)) =
        some (kind, front.length + 2) :=
      delimited?_eq_some_iff.mpr ⟨front, back, rfl, hfree, rfl, rfl⟩
    rw [hnone] at hfound
    cases hfound

/-- Unknown text stays unknown at the end of a line, unless it could become a character: below the
line there are only characters that came after the unknown text, and more newlines. -/
theorem leads_of_unknown {lexeme rest more : List Char} (hne : lexeme ≠ [])
    (hbegins : ∀ c ∈ lexeme.head?, isBlank c = false ∧ c ≠ '^')
    (hclass : classify byPriority (lexeme ++ rest) = (.unknown, lexeme.length))
    (hline : ∀ c ∈ more.head?, c = '\n') (hmore : ∀ c ∈ more, c ∈ rest ∨ c = '\n') :
    Leads .unknown lexeme more := by
  obtain ⟨c, run, rfl⟩ := List.exists_cons_of_ne_nil hne
  have hnone := recognize?_eq_none_of_unknown (congrArg Prod.fst hclass)
  have hrun := isRun_of_unknown hclass
  have hboundary : AtBoundary rest := fun d hhead =>
    isBoundary_of_stopsUnknown (by simpa using hrun.stops d hhead)
  have hlater : ∀ cls : TokenClass, cls.recognize? (c :: run ++ more) = none := by
    intro cls
    cases hopens : cls.opens c with
    | false => exact recognize?_eq_none_of_closed hopens _
    | true =>
      have hshort := hnone cls
      cases hcls : cls.isDelimited with
      | false =>
        -- every text that could be a comment up to the end of its line is one
        have hcomment : cls ≠ .lineComment := by
          rintro rfl
          obtain rfl : c = '¶' := of_decide_eq_true hopens
          cases hshort
        rw [recognize?_append_of_boundary hcls hne hboundary (absurd · hcomment)] at hshort
        rwa [recognize?_append_of_line hcls hne hline]
      | true =>
        have hsubset : ∀ d ∈ run ++ more, d ∈ run ++ rest ∨ d = '\n' := by
          intro d hmem
          rcases List.mem_append.mp hmem with hmem | hmem
          · exact .inl (List.mem_append_left _ hmem)
          · exact (hmore d hmem).imp_left (List.mem_append_right _)
        cases cls with
        | string => exact delimited?_eq_none_of_subset (by decide) hshort hsubset
        | blockComment => exact delimited?_eq_none_of_subset (by decide) hshort hsubset
        | char => exact absurd (of_decide_eq_true hopens) (hbegins c rfl).2
        | _ => cases hcls
  have hmoreRun : IsRun (fun d => !stopsUnknown d) run more :=
    ⟨hrun.all, fun d hhead => by rw [hline d hhead]; rfl⟩
  refine ⟨hne, fun d hhead => (hbegins d hhead).1, ?_⟩
  rw [classify_eq_unknown _ hlater, List.cons_append, unknownLength, hmoreRun.takeWhile_eq,
    List.length_cons]

/-! ### All tokens of a text -/

namespace Lexer.Reading

variable {before : List Char} {lexer : Lexer} {tokens : List Token}

theorem mem_rest_of_mem_lines (hreading : Reading before lexer tokens) :
    ∀ c ∈ lines (tokens.map fun token => (token.kind, token.lexeme)),
      c ∈ lexer.rest ∨ c = '\n' := by
  induction hreading with
  | done => simp [lines]
  | step hstep hrest ih =>
    intro c hmem
    rw [List.map_cons, lines, List.flatMap_cons, hstep.lexeme_eq, String.toList_ofList,
      List.cons_append, List.mem_cons, List.mem_append] at hmem
    rw [hstep.rest_eq]
    rcases hmem with hmem | hmem | hmem
    · exact .inr hmem
    · simp [hmem]
    · exact (ih c hmem).imp_left (List.mem_append_right _)

/-- Each token comes first when it and the tokens after it are left, each on its line. -/
theorem leads (hreading : Reading before lexer tokens)
    (hclosed : ∀ token ∈ tokens, token.kind = .unknown →
      ∀ c ∈ token.lexeme.toList.head?, c ≠ '^') :
    ∀ word later, word :: later <:+ tokens.map (fun token => (token.kind, token.lexeme)) →
      Leads word.1 word.2.toList (lines later) := by
  induction hreading with
  | done =>
    intro word later hsuffix
    cases List.suffix_nil.mp hsuffix
  | @step before gap lexeme lexer after token tokens hstep hrest ih =>
    obtain ⟨htoken, htokens⟩ := List.forall_mem_cons.mp hclosed
    intro word later hsuffix
    rcases List.suffix_cons_iff.mp hsuffix with hwhole | hsuffix
    · obtain ⟨rfl, rfl⟩ := List.cons.inj hwhole
      have hline := head?_lines (tokens.map fun token => (token.kind, token.lexeme))
      have hclass := hstep.classified
      change Leads token.kind token.lexeme.toList _
      rw [hstep.lexeme_eq, String.toList_ofList] at htoken ⊢
      by_cases hkind : token.kind = .unknown
      · rw [hkind] at hclass ⊢
        exact leads_of_unknown (List.length_pos_iff.mp hstep.takes.pos)
          (fun c hhead => ⟨hstep.begins c hhead, htoken hkind c hhead⟩) hclass hline
          hrest.mem_rest_of_mem_lines
      · exact (isWord_of_classify hclass hkind).leads
          (fun c hhead => by rw [hline c hhead]; rfl) (fun _ => hline)
    · exact ih htokens word later hsuffix

end Lexer.Reading

/-- Reading is stable. The tokens of a text, with a newline between each two, are read as tokens of
the same kinds and spellings, unknown ones included, unless one of these could become a character
when blanks are lost. -/
theorem tokenize_intercalate_lexemes {source : String}
    (hclosed : ∀ token ∈ tokenize source, token.kind = .unknown →
      ∀ c ∈ token.lexeme.toList.head?, c ≠ '^') :
    (tokenize ("\n".intercalate ((tokenize source).map Token.lexeme))).map
        (fun token => (token.kind, token.lexeme)) =
      (tokenize source).map fun token => (token.kind, token.lexeme) := by
  have hreading : Lexer.Reading [] (Lexer.ofString source) (tokenize source) :=
    Lexer.reading_tokensBy (Lexer.ofString source) [] rfl
  have hread := readsAs_intercalate (hreading.leads hclosed)
  rw [List.map_map] at hread
  rw [tokenize, tokenizeBy, Lexer.ofString, String.toList_intercalate, List.map_map]
  exact Lexer.words_tokensBy_of_readsAs hread {}

/-- A word that is cut off, a name that is too long, a number with two points, a delimiter that is
not closed. -/
theorem tokenize_intercalate_malformed :
    let source := "sino~x @abcdefghijk (1.2.3#) «+= ^a^"
    (tokenize source).map (fun token => (token.kind, token.lexeme)) =
        [(.unknown, "sino~x"), (.unknown, "@abcdefghijk"), (.leftParen, "("), (.unknown, "1.2.3"),
          (.terminator, "#"), (.rightParen, ")"), (.unknown, "«+="), (.char, "^a^")] ∧
      (tokenize "sino~x\n@abcdefghijk\n(\n1.2.3\n#\n)\n«+=\n^a^").map
          (fun token => (token.kind, token.lexeme)) =
        (tokenize source).map fun token => (token.kind, token.lexeme) := by
  have hwords : (tokenize "sino~x @abcdefghijk (1.2.3#) «+= ^a^").map
      (fun token => (token.kind, token.lexeme)) =
        [(.unknown, "sino~x"), (.unknown, "@abcdefghijk"), (.leftParen, "("), (.unknown, "1.2.3"),
          (.terminator, "#"), (.rightParen, ")"), (.unknown, "«+="), (.char, "^a^")] := by
    decide +kernel
  have hclosed : ∀ token ∈ tokenize "sino~x @abcdefghijk (1.2.3#) «+= ^a^",
      token.kind = .unknown → token.lexeme.toList.head? ≠ some '^' := by
    decide +kernel
  have hagain := tokenize_intercalate_lexemes fun token hmem hkind c hhead hcaret =>
    hclosed token hmem hkind (hcaret ▸ hhead)
  have hlexemes : (tokenize "sino~x @abcdefghijk (1.2.3#) «+= ^a^").map Token.lexeme =
      ["sino~x", "@abcdefghijk", "(", "1.2.3", "#", ")", "«+=", "^a^"] := by
    decide +kernel
  rw [hlexemes] at hagain
  exact ⟨hwords, hagain⟩

end FrontEnd
