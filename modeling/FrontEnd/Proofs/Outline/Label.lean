import FrontEnd.Outline.Syntax
import FrontEnd.Proofs.Grammar.Map
import FrontEnd.Proofs.Parsing.Spelled

/-!
Labels and what they say. A label is a heading, or a heading and what stands behind its colon. A
word is known from its spelling, and a number with a sign is known from its text.
-/

namespace FrontEnd

/-! ### Comparing outlines -/

mutual

def Outline.decEq : (outline other : Outline) → Decidable (outline = other)
  | .node label children, .node otherLabel others =>
    have := Outline.decEqAll children others
    decidable_of_iff (label = otherLabel ∧ children = others) (by rw [Outline.node.injEq])

def Outline.decEqAll : (outlines others : List Outline) → Decidable (outlines = others)
  | [], [] => isTrue rfl
  | [], _ :: _ => isFalse (List.cons_ne_nil _ _).symm
  | _ :: _, [] => isFalse (List.cons_ne_nil _ _)
  | outline :: rest, other :: others =>
    have := Outline.decEq outline other
    have := Outline.decEqAll rest others
    decidable_of_iff (outline = other ∧ rest = others) (by rw [List.cons.injEq])

end

instance : DecidableEq Outline := Outline.decEq

/-! ### Parts of a text -/

/-- What comes in front of the first such character. -/
def before (c : Char) (text : List Char) : List Char :=
  text.takeWhile (· ≠ c)

/-- What comes behind the first such character. -/
def behind (c : Char) (text : List Char) : List Char :=
  text.drop ((before c text).length + 1)

theorem before_append {c : Char} {front : List Char} (hfree : c ∉ front) (back : List Char) :
    before c (front ++ c :: back) = front := by
  have hrun : IsRun (· ≠ c) front (c :: back) :=
    ⟨fun d hmem => by simpa using ne_of_mem_of_not_mem hmem hfree, by simp⟩
  exact hrun.takeWhile_eq

theorem behind_append {c : Char} {front : List Char} (hfree : c ∉ front) (back : List Char) :
    behind c (front ++ c :: back) = back := by
  rw [behind, before_append hfree, List.append_cons]
  exact List.drop_left' (by simp)

theorem before_eq_self {c : Char} {text : List Char} (hfree : c ∉ text) : before c text = text :=
  List.takeWhile_eq_self_iff.mpr fun _ hmem => by simpa using ne_of_mem_of_not_mem hmem hfree

/-! ### Headings -/

/-- The headings by which nodes are told apart where several sorts of nodes may stand. -/
inductive Heading where
  | number | call | array | variable | constant | print | ret | read | decision | assignment | loop
  | increment | decrement
deriving DecidableEq

namespace Heading

def all : List Heading :=
  [number, call, array, .variable, constant, print, ret, read, decision, assignment, loop,
    increment, decrement]

def text : Heading → String
  | number => "Numeric value"
  | call => "Function call"
  | array => "Array"
  | .variable => "Variable declaration"
  | constant => "Constant declaration"
  | print => "Print"
  | ret => "Return"
  | read => "Read"
  | decision => "Decision"
  | assignment => "Assignment"
  | loop => "Do-while loop"
  | increment => "Increment"
  | decrement => "Decrement"

def ofText? (text : List Char) : Option Heading :=
  all.find? fun heading => heading.text.toList = text

theorem ofText?_text (heading : Heading) : ofText? heading.text.toList = some heading := by
  cases heading <;> decide

theorem colon_notMem_text (heading : Heading) : ':' ∉ heading.text.toList := by
  cases heading <;> decide

end Heading

namespace Outline

def label : Outline → String
  | node label _ => label

def children : Outline → List Outline
  | node _ children => children

/-- The first part; a node with no label if there is none. -/
def first (outline : Outline) : Outline :=
  outline.children.headD (leaf "")

/-- The second part; a node with no label if there is none. -/
def second (outline : Outline) : Outline :=
  outline.children.tail.headD (leaf "")

def heading? (outline : Outline) : Option Heading :=
  Heading.ofText? (before ':' outline.label.toList)

/-- What the label says behind its colon and a space. -/
def detail (outline : Outline) : String :=
  String.ofList ((behind ':' outline.label.toList).drop 1)

theorem heading?_text (heading : Heading) (children : List Outline) :
    (node heading.text children).heading? = some heading := by
  rw [heading?, label, before_eq_self heading.colon_notMem_text, Heading.ofText?_text]

section Colon

variable {front : String} (head : List Char)

theorem before_colon (hfront : front.toList = head ++ [':', ' ']) (hfree : ':' ∉ head)
    (back : String) : before ':' (front ++ back).toList = head := by
  rw [String.toList_append, hfront, List.append_assoc]
  exact before_append hfree _

/-- The detail is what a label says after a colon and a space. -/
theorem detail_node (hfront : front.toList = head ++ [':', ' ']) (hfree : ':' ∉ head)
    (back : String) (children : List Outline) :
    (node (front ++ back) children).detail = back := by
  have hbehind : behind ':' (front ++ back).toList = ' ' :: back.toList := by
    rw [String.toList_append, hfront, List.append_assoc]
    exact behind_append hfree _
  rw [detail, label, hbehind, List.drop_one, List.tail_cons, String.ofList_toList]

end Colon

variable {front : String}

theorem heading?_node (heading : Heading)
    (hfront : front.toList = heading.text.toList ++ [':', ' ']) (back : String)
    (children : List Outline) :
    (node (front ++ back) children).heading? = some heading := by
  rw [heading?, label, before_colon _ hfront heading.colon_notMem_text, Heading.ofText?_text]

theorem detail_of_heading (heading : Heading)
    (hfront : front.toList = heading.text.toList ++ [':', ' ']) (back : String)
    (children : List Outline) : (node (front ++ back) children).detail = back :=
  detail_node _ hfront heading.colon_notMem_text back children

end Outline

/-! ### Words -/

namespace Token

/-- The word that is spelled in this way. -/
def ofLexeme (lexeme : String) : Token :=
  essence ⟨(classify TokenClass.byPriority lexeme.toList).1, lexeme, ⟨0, 0, ⟨0, 0⟩⟩⟩

/-- A reserved word, in no particular language. -/
def reserved (word : Keyword) : Token :=
  ⟨.keyword word, "", ⟨0, 0, ⟨0, 0⟩⟩⟩

theorem essence_eq_reserved {token : Token} {word : Keyword} (hkind : token.kind = .keyword word) :
    token.essence = reserved word := by
  rw [essence, hkind, reserved]

theorem essence_congr {token other : Token} (hkind : token.kind = other.kind)
    (hlexeme : token.lexeme = other.lexeme) : token.essence = other.essence := by
  rw [essence, essence, withoutPlace, withoutPlace, hkind, hlexeme]

/-- Words are of different kinds only if they are spelled in different ways. -/
theorem IsSpelled.ofLexeme_eq {token : Token} (hspelled : token.IsSpelled)
    (hknown : token.kind ≠ .unknown) : ofLexeme token.lexeme = token.essence := by
  have hboundary : AtBoundary [] := by simp [AtBoundary]
  have hclass := (hspelled hknown).classify_append hboundary (by simp)
  rw [List.append_nil] at hclass
  exact essence_congr (congrArg Prod.fst hclass) rfl

end Token

/-- A token whose kind has one spelling only is the word of that spelling. -/
theorem Token.IsSpelled.essence_eq {token : Token} {kind : TokenKind} {lexeme : String}
    (hspelled : token.IsSpelled) (hkind : token.kind = kind) (hknown : kind ≠ .unknown)
    (honly : ∀ word, IsWord kind word → word = lexeme.toList) :
    token.essence = Token.ofLexeme lexeme := by
  have hlexeme := String.toList_injective (honly _ (hspelled.isWord hkind hknown))
  rw [← hspelled.ofLexeme_eq (by rwa [hkind]), hlexeme]

theorem IsWord.eq_of_increment {word : List Char} (hword : IsWord .increment word) :
    word = ['+', '+'] := by
  cases hword with
  | increment => rfl

theorem IsWord.eq_of_decrement {word : List Char} (hword : IsWord .decrement word) :
    word = ['-', '-'] := by
  cases hword with
  | decrement => rfl

theorem IsWord.eq_of_leftBracket {word : List Char} (hword : IsWord .leftBracket word) :
    word = ['['] := by
  cases hword with
  | leftBracket => rfl

theorem IsWord.exists_singleton_of_sign {operator : ArithmeticOperator} {word : List Char}
    (hword : IsWord (.arithmetic operator) word) : ∃ c, word = [c] ∧ c.isDigit = false := by
  have hspelling : ∀ entry ∈ ArithmeticOperator.spellings,
      entry.1.toList.length = 1 ∧ entry.1.toList.any Char.isDigit = false := by decide
  cases hword with
  | arithmetic hmem =>
    obtain ⟨hlength, hplain⟩ := hspelling _ hmem
    obtain ⟨c, hword⟩ := List.length_eq_one_iff.mp hlength
    exact ⟨c, hword, by simpa [hword] using hplain⟩

/-- The number with this text: a sign comes first unless a digit does. -/
def NumericValue.ofText (text : String) : NumericValue :=
  match text.toList with
  | [] => ⟨none, .ofLexeme text⟩
  | c :: digits =>
    if c.isDigit then ⟨none, .ofLexeme text⟩
    else ⟨some (.ofLexeme (String.ofList [c])), .ofLexeme (String.ofList digits)⟩

theorem NumericValue.ofText_number {number : Token} (hspelled : number.IsSpelled)
    (hkind : number.kind = .integer ∨ number.kind = .decimal) :
    NumericValue.ofText (NumericValue.text ⟨none, number⟩) = ⟨none, number.essence⟩ := by
  obtain ⟨c, rest, hlexeme, hdigit⟩ := hspelled.exists_digit hkind
  have htext : NumericValue.text ⟨none, number⟩ = number.lexeme := by
    simp [NumericValue.text]
  rw [htext, ofText, hlexeme]
  simp only [hdigit, if_true, hspelled.ofLexeme_eq (known_of_number hkind)]

theorem NumericValue.ofText_signed {sign number : Token} (hsignSpelled : sign.IsSpelled)
    (hsign : sign.kind = .arithmetic .add ∨ sign.kind = .arithmetic .sub)
    (hspelled : number.IsSpelled) (hkind : number.kind = .integer ∨ number.kind = .decimal) :
    NumericValue.ofText (NumericValue.text ⟨some sign, number⟩) =
      ⟨some sign.essence, number.essence⟩ := by
  obtain ⟨operator, hoperator, hword⟩ := hsignSpelled.exists_operator hsign
  obtain ⟨c, hlexeme, hplain⟩ := hword.exists_singleton_of_sign
  have htext : (NumericValue.text ⟨some sign, number⟩).toList = c :: number.lexeme.toList := by
    simp [NumericValue.text, hlexeme]
  have hfirst : sign.lexeme = String.ofList [c] := by rw [← hlexeme, String.ofList_toList]
  rw [ofText, htext]
  simp only [hplain, Bool.false_eq_true, if_false, String.ofList_toList, ← hfirst,
    hspelled.ofLexeme_eq (known_of_number hkind), hsignSpelled.ofLexeme_eq (by simp [hoperator])]

end FrontEnd
